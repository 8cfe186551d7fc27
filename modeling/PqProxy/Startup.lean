import PqProxy.CommandLine
import PqProxy.LoopGate
import PqProxy.LoopFaithful

/-! The start of the program, from its arguments to its loop: the configuration becomes a TLS context, a pool and
a server. What the loop guarantees under a configuration, the program guarantees unless it is told otherwise. -/

open Assignments

inductive TlsVersion where
  | tls12
  | tls13
  deriving DecidableEq

/-- What `pqproxy_tls_ctx_create` sets in its context. -/
structure TlsCtx where
  cert : Text
  key : Text
  minVersion : TlsVersion
  maxVersion : TlsVersion
  ca : Option Text
  verifyPeer : Bool
  failIfNoPeerCert : Bool
  verifyDepth : Option Nat
  deriving DecidableEq

/-- What OpenSSL makes of the files it is given. -/
structure OpenSsl where
  created : Bool
  useCert : Text → Bool
  useKey : Text → Bool
  checkKey : Text → Text → Bool
  loadCa : Text → Bool

/-- `pqproxy_tls_ctx_create`. -/
def tlsCtxCreate (ssl : OpenSsl) (cfg : ConfigYaml.Config) : Option TlsCtx :=
  match cfg.plain, cfg.certFile, cfg.keyFile with
  | false, some cert, some key =>
      let ctx : TlsCtx := {
        cert, key, minVersion := .tls12, maxVersion := if cfg.preferTls12Ktls then .tls12 else .tls13,
        ca := none, verifyPeer := false, failIfNoPeerCert := false, verifyDepth := none }
      if ssl.created = false ∨ ssl.useCert cert = false ∨ ssl.useKey key = false ∨
          ssl.checkKey cert key = false then none
      else if cfg.requireMtls then
        match cfg.caFile with
        | none => none
        | some ca =>
            if ssl.loadCa ca then some { ctx with
              ca := some ca, verifyPeer := true, failIfNoPeerCert := true, verifyDepth := some 4 }
            else none
      else some ctx
  | _, _, _ => none

/-- What the event loop reads of the configuration. -/
def serverConfig (cfg : ConfigYaml.Config) : Config where
  plain := cfg.plain
  requireMtls := cfg.requireMtls
  identitySlot := cfg.identitySlot
  identityParamName := cfg.identityParamName
  backendHost := cfg.backendHost.getD []
  backendUser := cfg.backendUser
  backendUseGroupAsUser := cfg.backendUseGroupAsUser
  backendGroups := cfg.backendGroups.getD []
  backendLazyGroup := cfg.backendLazyGroup
  backendPoolSize := cfg.backendPoolSize
  maintainIntervalMs := cfg.maintainIntervalMs
  fairSchedule := cfg.fairSchedule
  rejectSimpleQuery := cfg.rejectSimpleQuery
  msgZerocopy := cfg.msgZerocopy

/-- How the calls end that `pqproxy_run` makes before its loop, and the time then. -/
structure Boot where
  ssl : OpenSsl
  nonblock : Bool
  listening : Bool
  ring : Bool
  now : Nat

/-- What `pqproxy_run` acquires before its loop. -/
inductive Asset where
  | tls | pool | listen | ring
  deriving DecidableEq

/-- A server that enters its loop. -/
structure Serving where
  tls : Option TlsCtx
  server : Server

/-- The way of `pqproxy_run` up to its loop, which it may not reach. -/
structure Launch where
  started : Option Serving
  acquired : List Asset
  released : List Asset

/-- `pqproxy_run` up to its loop. -/
def pqproxyRun (env : Env) (boot : Boot) (cfg : ConfigYaml.Config) : Launch :=
  let tls := if cfg.plain then none else tlsCtxCreate boot.ssl cfg
  if cfg.plain = false ∧ tls = none then ⟨none, [], []⟩
  else
    let s := start env (serverConfig cfg) boot.nonblock boot.now
    let ctx : List Asset := if tls.isSome then [.tls] else []
    let pool : List Asset := if s.pool.isSome then [.pool] else []
    if boot.listening = false then ⟨none, ctx ++ pool, pool ++ ctx⟩
    else if boot.ring = false then ⟨none, ctx ++ pool ++ [.listen], .listen :: pool ++ ctx⟩
    else ⟨some ⟨tls, s⟩, ctx ++ pool ++ [.listen, .ring], []⟩

section

variable {w : Pqwire} {env : Env} {boot : Boot} {cfg : ConfigYaml.Config} {started : Serving}

/-- Whoever does not reach the loop releases what was acquired. -/
theorem launch_releases (h : (pqproxyRun env boot cfg).started = none) :
    (pqproxyRun env boot cfg).released.Perm (pqproxyRun env boot cfg).acquired := by
  revert h
  unfold pqproxyRun
  dsimp only
  generalize (if cfg.plain then none else tlsCtxCreate boot.ssl cfg) = tls
  generalize (start env (serverConfig cfg) boot.nonblock boot.now) = s
  split
  · exact fun _ => .refl []
  · generalize (if tls.isSome then [Asset.tls] else []) = ctx
    generalize (if s.pool.isSome then [Asset.pool] else []) = pool
    split
    · exact fun _ => List.perm_append_comm
    · split
      · intro _
        exact (List.perm_append_comm.cons Asset.listen).trans (List.perm_append_singleton _ _).symm
      · exact fun h => absurd h (Option.some_ne_none _)

theorem started_spec (h : (pqproxyRun env boot cfg).started = some started) :
    started.server = start env (serverConfig cfg) boot.nonblock boot.now ∧
      (cfg.plain = false → ∃ ctx, started.tls = some ctx ∧ tlsCtxCreate boot.ssl cfg = some ctx) := by
  unfold pqproxyRun at h
  dsimp only at h
  generalize hmade : (if cfg.plain then none else tlsCtxCreate boot.ssl cfg) = tls at h
  split at h
  · cases h
  · rename_i htls
    split at h
    · cases h
    · split at h
      · cases h
      · cases h
        refine ⟨rfl, fun hplain => ?_⟩
        rw [hplain, if_neg Bool.false_ne_true] at hmade
        cases tls with
        | none => exact absurd ⟨hplain, rfl⟩ htls
        | some ctx => exact ⟨ctx, rfl, hmade⟩

/-- A context for a server that requires certificates demands one of every client, and checks it. -/
theorem tlsCtxCreate_demands {ctx : TlsCtx} (hmtls : cfg.requireMtls = true)
    (h : tlsCtxCreate boot.ssl cfg = some ctx) :
    ctx.verifyPeer = true ∧ ctx.failIfNoPeerCert = true ∧ ∃ ca, cfg.caFile = some ca ∧ ctx.ca = some ca := by
  unfold tlsCtxCreate at h
  split at h
  · dsimp only at h
    -- the versions do not matter here
    generalize (if cfg.preferTls12Ktls then TlsVersion.tls12 else TlsVersion.tls13) = maxVersion at h
    split at h
    · cases h
    · split at h
      · cases h
      · rename_i ca hca
        split at h
        · cases h
          exact ⟨rfl, rfl, ca, hca, rfl⟩
        · cases h
  · cases h

/-- What makes a server less than safe. -/
def insecure : List ConfigYaml.Assignment :=
  [⟨.plain, true⟩, ⟨.requireMtls, false⟩, ⟨.rejectSimpleQuery, false⟩]

variable {sys : ConfigYaml.Surroundings} {args : List String}

/-- A value other than the default has to be told. -/
theorem untold_get {f : ConfigYaml.Field} {v : f.Value} (h : runMain sys args = .ok cfg)
    (hdefault : ConfigYaml.configDefaults.get f ≠ v)
    (huntold : (⟨f, v⟩ : ConfigYaml.Assignment) ∉ toldByFile sys args ++ toldByOptions args) :
    cfg.get f ≠ v := by
  obtain ⟨hget, -⟩ := runMain_get h
  intro hvalue
  rw [hget, assignAll_apply] at hvalue
  cases hdecided : decided (toldByFile sys args ++ toldByOptions args) f with
  | none =>
      rw [hdecided] at hvalue
      exact hdefault hvalue
  | some u =>
      rw [hdecided] at hvalue
      have hu : u = v := hvalue
      exact huntold (hu ▸ mem_of_decided hdecided)

/-- The program is secure unless it is told otherwise: when neither its arguments nor its file say that it be
plain, do without certificates or admit simple queries, then in every run of the server it starts each client
has to show a certificate that the CA vouches for, nothing is decoded or done for a connection but for the
identity in its certificate, and what reaches a backend are whole pipelines with an identity in them. -/
theorem secure_by_default (hw : w.ReplacesSlot) (hmain : runMain sys args = .ok cfg)
    (hstarted : (pqproxyRun env boot cfg).started = some started)
    (huntold : ∀ a ∈ insecure, a ∉ toldByFile sys args ++ toldByOptions args) (inputs : List Input) :
    let s := Runs.run (step w env) started.server inputs
    (∃ ctx ca, started.tls = some ctx ∧ ctx.verifyPeer = true ∧ ctx.failIfNoPeerCert = true ∧
      cfg.caFile = some ca ∧ ctx.ca = some ca) ∧
    (∀ i, (s.conns i).Gated (serverConfig cfg)) ∧
    s.written = s.writes.map Written.data ∧ ∀ x ∈ s.writes, x.Whole w := by
  have hplain : cfg.plain = false := Bool.eq_false_of_not_eq_true
    (untold_get (f := .plain) hmain Bool.false_ne_true (huntold _ (List.mem_of_getElem? (i := 0) rfl)))
  have hmtls : cfg.requireMtls = true := Bool.eq_true_of_not_eq_false
    (untold_get (f := .requireMtls) hmain Bool.true_eq_false.mp
      (huntold _ (List.mem_of_getElem? (i := 1) rfl)))
  have hreject : cfg.rejectSimpleQuery = true := Bool.eq_true_of_not_eq_false
    (untold_get (f := .rejectSimpleQuery) hmain Bool.true_eq_false.mp
      (huntold _ (List.mem_of_getElem? (i := 2) rfl)))
  obtain ⟨hserver, htls⟩ := started_spec hstarted
  dsimp only
  rw [hserver]
  refine ⟨?_, fun i => ?_, ?_⟩
  · obtain ⟨ctx, hctx, hcreate⟩ := htls hplain
    obtain ⟨hverify, hfail, ca, hca, hctxca⟩ := tlsCtxCreate_demands hmtls hcreate
    exact ⟨ctx, ca, hctx, hverify, hfail, hca, hctxca⟩
  · have hstable : Conn.Stable w (serverConfig cfg) (!(serverConfig cfg).plain)
        (start env (serverConfig cfg) boot.nonblock boot.now).pool.isSome (fun _ => False) (fun _ _ => True)
        (Conn.Gate (serverConfig cfg)) := by
      have hserved : (serverConfig cfg).plain = false := hplain
      rw [hserved]
      exact gate_stable hmtls
    exact (hstable.run (Server.Stable.along_any _ inputs) i).toGated
  · have hready := run_ready (w := w) env (serverConfig cfg) boot.nonblock boot.now inputs
    have hstart : (start env (serverConfig cfg) boot.nonblock boot.now).cfg = serverConfig cfg ∧
        (start env (serverConfig cfg) boot.nonblock boot.now).Faithful w := ⟨rfl, start_faithful _ _ _⟩
    obtain ⟨hcfg, hfaithful⟩ := (faithful_stable hw (serverConfig cfg)).run hstart
      (Server.Stable.along_any _ inputs)
    exact hfaithful (by rw [hcfg]; exact hreject) hready.good.unprobed

/-- No file, and every call ends well. -/
def noFile : ConfigYaml.Surroundings where
  file := fun _ => none
  realloc := fun _ => true
  oom := fun _ => false
  yaml := fun _ => ⟨true, 0, [], fun _ => none, []⟩

def smallBoot : Boot where
  ssl := ⟨true, fun _ => true, fun _ => true, fun _ _ => true, fun _ => true⟩
  nonblock := true
  listening := true
  ring := true
  now := 0

def smallArgs : List String := ["--cert", "c", "--key", "k", "--ca", "a", "--backend", "b"]

/-- The program starts with its certificates, and a client runs its Bind. -/
theorem secure_by_default_client : ∃ cfg serving, runMain noFile smallArgs = .ok cfg ∧
    (pqproxyRun smallEnv smallBoot cfg).started = some serving ∧
    let s := Runs.run (step pgWire smallEnv) serving.server gateInputs
    (∀ i, (s.conns i).Gated (serverConfig cfg)) ∧ (∀ x ∈ s.writes, x.Whole pgWire) ∧ s.writes.length = 1 := by
  have huntold : ∀ a ∈ insecure, a ∉ toldByFile noFile smallArgs ++ toldByOptions smallArgs := by
    have htold : toldByFile noFile smallArgs ++ toldByOptions smallArgs = [⟨.certFile, some ['c']⟩,
        ⟨.keyFile, some ['k']⟩, ⟨.caFile, some ['a']⟩, ⟨.backendHost, some ['b']⟩,
        ⟨.backendPort, (5432 : Nat)⟩] := rfl
    rw [htold]
    simp [insecure]
  obtain ⟨-, hgated, -, hwhole⟩ := @secure_by_default pgWire smallEnv smallBoot _ _ noFile smallArgs
    WirePg.replacesSlot rfl rfl huntold gateInputs
  exact ⟨_, _, rfl, rfl, hgated, hwhole, by decide +kernel⟩

end
