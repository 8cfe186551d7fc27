import PqProxy.Assignments
import PqProxy.ConfigYaml

/-! A configuration as the values of its fields, and what each setting of the file assigns to them. -/

namespace ConfigYaml

open Assignments

/-- The members of `pqproxy_config_t`. -/
inductive Field where
  | listenHost | listenPort | certFile | keyFile | caFile | plain | requireMtls
  | identitySlot | identityParamName | quiet | msgZerocopy
  | backendHost | backendPort | backendUser | backendPassword | backendDatabase
  | backendUseGroupAsUser | backendGroups | backendLazyGroup | backendPoolSize
  | preferTls12Ktls | maintainIntervalMs | metricsLogIntervalMs | metricsHttpHost | metricsHttpPort
  | fairSchedule | rejectSimpleQuery | logJson
  deriving DecidableEq

/-- What a field holds. -/
abbrev Field.Value : Field → Type
  | .listenHost | .metricsHttpHost => Text
  | .listenPort | .backendPort | .metricsHttpPort | .backendPoolSize => Nat
  | .certFile | .keyFile | .caFile | .identityParamName => Option Text
  | .backendHost | .backendUser | .backendPassword | .backendDatabase | .backendGroups => Option Text
  | .identitySlot | .maintainIntervalMs | .metricsLogIntervalMs => Int
  | .plain | .requireMtls | .quiet | .msgZerocopy | .backendUseGroupAsUser | .backendLazyGroup => Bool
  | .preferTls12Ktls | .fairSchedule | .rejectSimpleQuery | .logJson => Bool

/-- A value for a field. -/
abbrev Assignment := Sigma Field.Value

def Config.get (c : Config) : (f : Field) → f.Value
  | .listenHost => c.listenHost
  | .listenPort => c.listenPort
  | .certFile => c.certFile
  | .keyFile => c.keyFile
  | .caFile => c.caFile
  | .plain => c.plain
  | .requireMtls => c.requireMtls
  | .identitySlot => c.identitySlot
  | .identityParamName => c.identityParamName
  | .quiet => c.quiet
  | .msgZerocopy => c.msgZerocopy
  | .backendHost => c.backendHost
  | .backendPort => c.backendPort
  | .backendUser => c.backendUser
  | .backendPassword => c.backendPassword
  | .backendDatabase => c.backendDatabase
  | .backendUseGroupAsUser => c.backendUseGroupAsUser
  | .backendGroups => c.backendGroups
  | .backendLazyGroup => c.backendLazyGroup
  | .backendPoolSize => c.backendPoolSize
  | .preferTls12Ktls => c.preferTls12Ktls
  | .maintainIntervalMs => c.maintainIntervalMs
  | .metricsLogIntervalMs => c.metricsLogIntervalMs
  | .metricsHttpHost => c.metricsHttpHost
  | .metricsHttpPort => c.metricsHttpPort
  | .fairSchedule => c.fairSchedule
  | .rejectSimpleQuery => c.rejectSimpleQuery
  | .logJson => c.logJson

/-- One member is assigned. -/
def Config.set (c : Config) : Assignment → Config
  | ⟨.listenHost, v⟩ => { c with listenHost := v }
  | ⟨.listenPort, v⟩ => { c with listenPort := v }
  | ⟨.certFile, v⟩ => { c with certFile := v }
  | ⟨.keyFile, v⟩ => { c with keyFile := v }
  | ⟨.caFile, v⟩ => { c with caFile := v }
  | ⟨.plain, v⟩ => { c with plain := v }
  | ⟨.requireMtls, v⟩ => { c with requireMtls := v }
  | ⟨.identitySlot, v⟩ => { c with identitySlot := v }
  | ⟨.identityParamName, v⟩ => { c with identityParamName := v }
  | ⟨.quiet, v⟩ => { c with quiet := v }
  | ⟨.msgZerocopy, v⟩ => { c with msgZerocopy := v }
  | ⟨.backendHost, v⟩ => { c with backendHost := v }
  | ⟨.backendPort, v⟩ => { c with backendPort := v }
  | ⟨.backendUser, v⟩ => { c with backendUser := v }
  | ⟨.backendPassword, v⟩ => { c with backendPassword := v }
  | ⟨.backendDatabase, v⟩ => { c with backendDatabase := v }
  | ⟨.backendUseGroupAsUser, v⟩ => { c with backendUseGroupAsUser := v }
  | ⟨.backendGroups, v⟩ => { c with backendGroups := v }
  | ⟨.backendLazyGroup, v⟩ => { c with backendLazyGroup := v }
  | ⟨.backendPoolSize, v⟩ => { c with backendPoolSize := v }
  | ⟨.preferTls12Ktls, v⟩ => { c with preferTls12Ktls := v }
  | ⟨.maintainIntervalMs, v⟩ => { c with maintainIntervalMs := v }
  | ⟨.metricsLogIntervalMs, v⟩ => { c with metricsLogIntervalMs := v }
  | ⟨.metricsHttpHost, v⟩ => { c with metricsHttpHost := v }
  | ⟨.metricsHttpPort, v⟩ => { c with metricsHttpPort := v }
  | ⟨.fairSchedule, v⟩ => { c with fairSchedule := v }
  | ⟨.rejectSimpleQuery, v⟩ => { c with rejectSimpleQuery := v }
  | ⟨.logJson, v⟩ => { c with logJson := v }

theorem Config.get_set (c : Config) (a : Assignment) : (c.set a).get = Function.update c.get a.1 a.2 := by
  obtain ⟨f, v⟩ := a
  funext g
  cases f <;> cases g <;> rfl

/-! ### What a setting is told -/

/-- A value that was read. -/
def toldValue {α : Type} (field : α → Assignment) (v : Option α) : List Assignment := v.toList.map field

def toldBool (field : Bool → Assignment) (val : Text) : List Assignment := toldValue field (parseBool val)

/-- A host, and a port where the text has one. -/
def toldAddress (host : Text → Assignment) (port : Nat → Assignment) (val : Text) : List Assignment :=
  if ':' ∉ val ∨ hostPart val = [] then [host val]
  else [host (hostPart val), port (atoi (portPart val) % 4294967296).toNat]

/-- What the value of a setting assigns. -/
def Setting.told (val : Text) : Setting → List Assignment
  | .listenHost => [⟨.listenHost, val⟩]
  | .listenPort => toldValue (fun v => ⟨.listenPort, v⟩) ((parseU16 val).filter (· ≠ 0))
  | .listen => toldAddress (fun t => ⟨.listenHost, t⟩) (fun v => ⟨.listenPort, v⟩) val
  | .plain =>
      toldBool (fun v => ⟨.plain, v⟩) val ++ if parseBool val = some true then [⟨.requireMtls, false⟩] else []
  | .requireMtls => toldBool (fun v => ⟨.requireMtls, v⟩) val
  | .cert => [⟨.certFile, some val⟩]
  | .key => [⟨.keyFile, some val⟩]
  | .ca => [⟨.caFile, some val⟩]
  | .ktlsPrefer => toldBool (fun v => ⟨.preferTls12Ktls, v⟩) val
  | .identitySlot =>
      toldValue (fun v => ⟨.identitySlot, toInt16 v⟩) ((parseInt val).filter fun v => -1 ≤ v ∧ v ≤ 32767)
  | .identityParam => [⟨.identityParamName, some val⟩]
  | .msgZerocopy => toldBool (fun v => ⟨.msgZerocopy, v⟩) val
  | .backendHost => [⟨.backendHost, some val⟩]
  | .backendPort => toldValue (fun v => ⟨.backendPort, v⟩) (parseU16 val)
  | .backend => toldAddress (fun t => ⟨.backendHost, some t⟩) (fun v => ⟨.backendPort, v⟩) val
  | .backendUser => [⟨.backendUser, some val⟩]
  | .backendPassword => [⟨.backendPassword, some val⟩]
  | .backendDatabase => [⟨.backendDatabase, some val⟩]
  | .backendPoolSize => toldValue (fun v => ⟨.backendPoolSize, v⟩) (parseSize val)
  | .backendGroupLogin => toldBool (fun v => ⟨.backendUseGroupAsUser, v⟩) val
  | .backendGroups => [⟨.backendGroups, some val⟩]
  | .backendLazyGroup => toldBool (fun v => ⟨.backendLazyGroup, v⟩) val
  | .metricsLogMs => toldValue (fun v => ⟨.metricsLogIntervalMs, v⟩) ((parseInt val).filter (0 ≤ ·))
  | .metricsHttpHost => [⟨.metricsHttpHost, val⟩]
  | .metricsHttpPort => toldValue (fun v => ⟨.metricsHttpPort, v⟩) (parseU16 val)
  | .metricsHttp =>
      if ["off".toList, "false".toList, "0".toList].contains val then [⟨.metricsHttpPort, (0 : Nat)⟩]
      else toldAddress (fun t => ⟨.metricsHttpHost, t⟩) (fun v => ⟨.metricsHttpPort, v⟩) val
  | .maintainMs => toldValue (fun v => ⟨.maintainIntervalMs, v⟩) ((parseInt val).filter (0 ≤ ·))
  | .quiet => toldBool (fun v => ⟨.quiet, v⟩) val
  | .fairSchedule => toldBool (fun v => ⟨.fairSchedule, v⟩) val
  | .rejectSimpleQuery => toldBool (fun v => ⟨.rejectSimpleQuery, v⟩) val
  | .allowSimpleQuery => toldBool (fun v => ⟨.rejectSimpleQuery, !v⟩) val
  | .logJson => toldBool (fun v => ⟨.logJson, v⟩) val

section

variable {oom : Bool} {b b' : Bundle} {val : Text}

theorem setText_get {f : Text → Config → Config} {a : Assignment} (hf : ∀ c, f val c = c.set a)
    (h : setText oom b val f = .ok b') : b'.cfg.get = assignAll b.cfg.get [a] := by
  unfold setText bundleStrdup at h
  split at h
  · cases h
  · rename_i b₁ hdup
    cases h
    split at hdup
    · cases hdup
    · cases hdup
      exact (congrArg Config.get (hf b.cfg)).trans (b.cfg.get_set a)

theorem setValue_get {α : Type} {value : Option α} {complaint : String} {f : α → Config → Config}
    {field : α → Assignment} (hf : ∀ v c, f v c = c.set (field v))
    (h : setValue b value complaint f = .ok b') :
    b'.cfg.get = assignAll b.cfg.get (toldValue field value) := by
  unfold setValue at h
  cases value with
  | none => cases h
  | some v =>
      cases h
      exact (congrArg Config.get (hf v b.cfg)).trans (b.cfg.get_set (field v))

/-- The bundle only comes to own the text. -/
theorem bundleStrdup_cfg {t : Text} (h : bundleStrdup oom b t = some b') : b'.cfg = b.cfg := by
  unfold bundleStrdup at h
  split at h
  · cases h
  · cases h
    rfl

theorem setHostport_spec {t : Text} {p : Option Nat} (h : setHostport oom b val = some (b', t, p)) :
    b'.cfg = b.cfg ∧ ((':' ∉ val ∨ hostPart val = []) ∧ t = val ∧ p = none ∨
      ¬ (':' ∉ val ∨ hostPart val = []) ∧ t = hostPart val ∧
        p = some (atoi (portPart val) % 4294967296).toNat) := by
  unfold setHostport at h
  split at h
  · rename_i hcolon
    obtain ⟨b₁, hdup, hsame⟩ := Option.map_eq_some_iff.mp h
    cases hsame
    exact ⟨bundleStrdup_cfg hdup, Or.inl ⟨hcolon, rfl, rfl⟩⟩
  · rename_i hcolon
    split at h
    · cases h
    · dsimp only at h
      split at h
      · cases h
      · obtain ⟨b₁, hdup, hsame⟩ := Option.map_eq_some_iff.mp h
        cases hsame
        exact ⟨bundleStrdup_cfg hdup, Or.inr ⟨hcolon, rfl, rfl⟩⟩

theorem setAddress_get {host : Text → Config → Config} {port : Nat → Config → Config}
    {toldHost : Text → Assignment} {toldPort : Nat → Assignment} (hhost : ∀ t c, host t c = c.set (toldHost t))
    (hport : ∀ p c, port p c = c.set (toldPort p)) (h : setAddress oom b val host port = .ok b') :
    b'.cfg.get = assignAll b.cfg.get (toldAddress toldHost toldPort val) := by
  unfold setAddress at h
  unfold toldAddress
  cases hset : setHostport oom b val with
  | none =>
      rw [hset] at h
      cases h
  | some x =>
      obtain ⟨b₁, t, p⟩ := x
      rw [hset] at h
      obtain ⟨hcfg, ⟨hcolon, rfl, rfl⟩ | ⟨hcolon, rfl, rfl⟩⟩ := setHostport_spec hset
      · cases h
        rw [if_pos hcolon, ← hcfg]
        exact (congrArg Config.get (hhost t b₁.cfg)).trans (Config.get_set _ _)
      · cases h
        rw [if_neg hcolon, ← hcfg]
        dsimp only
        rw [hport, hhost, Config.get_set, Config.get_set]
        rfl

/-- `apply_scalar` assigns what the setting is told. -/
theorem applySetting_get {s : Setting} (h : applySetting oom b val s = .ok b') :
    b'.cfg.get = assignAll b.cfg.get (s.told val) := by
  unfold applySetting at h
  unfold Setting.told
  cases s <;> dsimp only at h ⊢
  case listenHost | cert | key | ca | identityParam | backendHost | backendUser | backendPassword |
      backendDatabase | backendGroups | metricsHttpHost =>
    exact setText_get (fun _ => rfl) h
  case listen | backend => exact setAddress_get (fun _ _ => rfl) (fun _ _ => rfl) h
  case listenPort | identitySlot | backendPort | backendPoolSize | metricsLogMs | metricsHttpPort | maintainMs =>
    exact setValue_get (fun _ _ => rfl) h
  case requireMtls | ktlsPrefer | msgZerocopy | backendGroupLogin | backendLazyGroup | quiet | fairSchedule |
      rejectSimpleQuery | allowSimpleQuery | logJson =>
    exact setValue_get (fun _ _ => rfl) h
  case plain =>
    -- a plain server does not ask for certificates either
    unfold setBool setValue at h
    unfold toldBool
    cases hval : parseBool val with
    | none =>
        rw [hval] at h
        cases h
    | some v =>
        rw [hval] at h
        cases h
        cases v
        · exact b.cfg.get_set ⟨.plain, false⟩
        · rw [if_pos rfl, assignAll_append]
          exact (Config.get_set { b.cfg with plain := true } ⟨.requireMtls, false⟩).trans
            (congrArg (Function.update · _ _) (b.cfg.get_set ⟨.plain, true⟩))
  case metricsHttp =>
    split at h
    · rename_i hoff
      cases h
      rw [if_pos (List.contains_iff_mem.mpr hoff)]
      exact b.cfg.get_set ⟨.metricsHttpPort, (0 : Nat)⟩
    · rename_i hoff
      rw [if_neg fun hin => hoff (List.contains_iff_mem.mp hin)]
      exact setAddress_get (fun _ _ => rfl) (fun _ _ => rfl) h

end

end ConfigYaml
