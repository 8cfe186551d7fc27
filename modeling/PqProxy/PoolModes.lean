import PqProxy.PoolCollectors
import PqProxy.PoolRotation
import PqProxy.PoolCalls

/-! Blocking reads and writes against the mode of the descriptors. `pqproxy_backend_pool_set_nonblock`
and a health check that passes set O_NONBLOCK, only a new login gives a blocking descriptor, and the
functions that read and write until they are done never look at the mode. -/

/-- A call that may read and write with blocking functions, or make a descriptor nonblocking. -/
inductive PoolCall where
  | op (op : PoolOp)
  | exec (call : ExecCall)

section

variable (w : Pqwire) (env : Env)

/-- The pool after a call. -/
def callStep (p : Pool) : PoolCall → Pool
  | .op op => (runOp w env p op).1
  | .exec call => (execCall w env p call).1

/-- The health check of a connection, when it comes to its query: the pool and the slot. -/
def probesOf (p : Pool) (b : Nat) : List (Pool × Nat) :=
  if (p.conns b).alive = false ∨ (p.conns b).wire = none ∨ sendQuery w [] "SELECT 1".toList = none
  then [] else [(p, b)]

/-- The health check of `checkout_try`. -/
def tryProbes (p : Pool) (b : Nat) : List (Pool × Nat) :=
  if ((p.conns b).alive = false ∨ (p.conns b).busy = true) ∨ p.cfg.healthCheckOnCheckout = false
  then [] else probesOf w (p.setConn b { p.conns b with busy := true }) b

/-- The health checks of a loop over the connections of the group. -/
def scanProbes (group : Text) : List Nat → Pool → List (Pool × Nat)
  | [], _ => []
  | idx :: rest, p =>
      if (p.conns idx).alive = true ∧ (p.conns idx).busy = false ∧ Matches (p.conns idx) group then
        tryProbes w p idx ++
          match checkoutTry w env p idx with
          | (_, true) => []
          | (p, false) => scanProbes group rest p
      else scanProbes group rest p

/-- The health checks of a checkout. -/
def checkoutProbes (p : Pool) (group : Text) : List (Pool × Nat) :=
  if p.maxConns = 0 then []
  else
    let p := poolMaintain env p
    let order := searchOrder p
    scanProbes w env group order p ++
      match checkoutScan w env group order none p with
      | (_, some _, _) => []
      | (p, none, fallback) =>
          if p.useGroupAsUser = true ∧ group ≠ [] then scanProbes w env group order p
          else
            match fallback with
            | none => []
            | some idx => tryProbes w p idx

/-- The health checks of a call. -/
def callProbes (p : Pool) : PoolCall → List (Pool × Nat)
  | .op (.checkout group) => checkoutProbes w env p group
  | .op (.asyncBegin _ _ owner) => checkoutProbes w env p owner.group
  | .op (.healthCheck b) => probesOf w p b
  | .op _ => []
  | .exec call => checkoutProbes w env p call.group

/-- The blocking pipeline of a call. -/
def callPipelines (p : Pool) : PoolCall → List (Pool × Nat)
  | .op _ => []
  | .exec call =>
      match checkout w env p call.group with
      | (_, none) => []
      | (q, some b) => if (call.pipeline w).2 then [(q, b)] else []

end

/-- Of the live connections exactly those that were logged in before `start` have a nonblocking
descriptor. -/
structure Pool.Modes (start : Nat) (p : Pool) : Prop where
  sessions : start ≤ p.sessions
  live : ∀ b, (p.conns b).alive = true → ((p.conns b).nonblock = true ↔ (p.conns b).session ≤ start)

namespace Pool.Modes

variable {start : Nat} {p q : Pool}

theorem of_conns (h : p.Modes start) (hconns : q.conns = p.conns) (hsessions : p.sessions ≤ q.sessions) :
    q.Modes start where
  sessions := Nat.le_trans h.sessions hsessions
  live := by
    rw [hconns]
    exact h.live

theorem write (h : p.Modes start) {b : Nat} {c : BackendConn}
    (hc : c.alive = true → (c.nonblock = true ↔ c.session ≤ start)) : (p.setConn b c).Modes start where
  sessions := h.sessions
  live := by
    intro a ha
    by_cases hab : a = b
    · rw [hab, Pool.setConn_self] at ha ⊢
      exact hc ha
    · rw [Pool.setConn_of_ne p hab] at ha ⊢
      exact h.live a ha

/-- Neither the mode nor the session of the slot changes, and a dead connection stays dead. -/
theorem same (h : p.Modes start) {b : Nat} {c : BackendConn} (halive : c.alive = true →
    (p.conns b).alive = true) (hmode : c.nonblock = (p.conns b).nonblock)
    (hsession : c.session = (p.conns b).session) : (p.setConn b c).Modes start := by
  refine h.write fun hc => ?_
  rw [hmode, hsession]
  exact h.live b (halive hc)

end Pool.Modes

section

variable (w : Pqwire) (env : Env) {start : Nat}

/-- A login gives a blocking descriptor and a session of its own. -/
theorem modes_warmOne {p : Pool} (h : p.Modes start) (b : Nat) (user : Text) :
    (warmOne env p b user).1.Modes start := by
  have hstart := h.sessions
  have hdown : (p.setConn b (p.conns b).teardownIo).Modes start := h.write nofun
  unfold warmOne
  dsimp only
  split
  · exact hdown.of_conns rfl (Nat.le_refl _)
  · have hnew := hdown.of_conns (q := (p.setConn b (p.conns b).teardownIo).tick.newSession) rfl
      (Nat.le_succ _)
    split
    · exact hnew.write nofun
    · split
      · exact hnew.write nofun
      · refine hnew.write fun _ => iff_of_false nofun ?_
        exact Nat.not_le.mpr (Nat.lt_succ_of_le hstart)

theorem modes_reconnect {p : Pool} (h : p.Modes start) (b : Nat) :
    (reconnect env p b).1.Modes start := by
  have hwarm := modes_warmOne env h b
    ((if (p.conns b).loginUser = [] then p.user else (p.conns b).loginUser).copyTo 128)
  unfold reconnect
  dsimp only
  split
  · rename_i q heq
    rw [heq] at hwarm
    exact hwarm
  · rename_i q heq
    rw [heq] at hwarm
    exact hwarm.same id rfl rfl

theorem modes_maintainFrom (bs : List Nat) {p : Pool} (h : p.Modes start) :
    (maintainFrom env bs p).Modes start := by
  induction bs generalizing p with
  | nil => exact h
  | cons b bs ih =>
      rw [maintainFrom]
      split
      · exact ih (modes_reconnect env h b)
      · exact ih h

theorem modes_poolMaintain {p : Pool} (h : p.Modes start) : (poolMaintain env p).Modes start := by
  unfold poolMaintain
  split
  · exact modes_maintainFrom env _ h
  · exact h

/-- A blocking pipeline never touches the mode. -/
theorem flushConn_mode (now cap : Nat) (skip : Bool) (c : BackendConn) :
    (flushConn w env now cap skip c).1.nonblock = c.nonblock ∧
      (flushConn w env now cap skip c).1.session = c.session := by
  unfold flushConn
  split
  · split
    · exact ⟨rfl, rfl⟩
    · dsimp only [flushEnd]
      split <;> exact ⟨rfl, rfl⟩
  · exact ⟨rfl, rfl⟩

theorem modes_flush {p : Pool} (h : p.Modes start) (b cap : Nat) (skip : Bool) :
    (flushPipelineEx w env p b cap skip).1.Modes start := by
  obtain ⟨hmode, hsession⟩ := flushConn_mode w env p.clock cap skip (p.conns b)
  have hset := h.same (b := b) (flushConn_fd w env p.clock cap skip (p.conns b)).2.1 hmode hsession
  exact hset.of_conns rfl (Nat.le_refl _)

/-- Whether the query of a health check gets its answer. -/
def ProbeAnswered (p : Pool) (b : Nat) : Prop :=
  ∃ out, sendQuery w [] "SELECT 1".toList = some out ∧
    (flushConn w env p.clock 2048 false { p.conns b with wire := some out }).2.ok = true

/-- A health check passes when its query is answered, and then the descriptor is nonblocking. -/
theorem healthCheck_cases {p : Pool} (h : p.Modes start) (b : Nat) :
    ((healthCheck w env p b).2 = false ∧ (healthCheck w env p b).1.Modes start ∧
        ∀ x ∈ probesOf w p b, ¬ ProbeAnswered w env x.1 x.2) ∨
      ((healthCheck w env p b).2 = true ∧ probesOf w p b = [(p, b)] ∧ ProbeAnswered w env p b ∧
        ((healthCheck w env p b).1.conns b).nonblock = true) := by
  unfold healthCheck probesOf
  dsimp only
  by_cases hlive : (p.conns b).alive = false ∨ (p.conns b).wire = none
  · rw [if_pos hlive, if_pos (hlive.imp id Or.inl)]
    exact Or.inl ⟨rfl, h, by simp⟩
  · rw [if_neg hlive]
    cases hsend : sendQuery w [] "SELECT 1".toList with
    | none =>
        rw [if_pos (Or.inr (Or.inr rfl))]
        exact Or.inl ⟨rfl, h.write nofun, by simp⟩
    | some out =>
        rw [if_neg (by simpa [not_or] using hlive)]
        dsimp only
        have hload : (p.setConn b { p.conns b with wire := some out }).Modes start := h.same id rfl rfl
        have hflush := modes_flush w env hload b 2048 false
        have hok : (flushPipelineEx w env (p.setConn b { p.conns b with wire := some out }) b 2048
            false).2.ok = (flushConn w env p.clock 2048 false
              { p.conns b with wire := some out }).2.ok := by
          rw [flushPipelineEx, Pool.setConn_self]
          rfl
        split
        · rename_i hpass
          refine Or.inr ⟨rfl, rfl, ⟨out, hsend, hok.symm.trans hpass⟩, ?_⟩
          rw [Pool.setConn_self]
        · rename_i hfail
          refine Or.inl ⟨rfl, hflush.write nofun, ?_⟩
          rintro x hx ⟨out', hout', hanswered⟩
          rw [List.mem_singleton] at hx
          subst hx
          rw [hsend] at hout'
          cases hout'
          exact hfail (hok.trans hanswered)

/-- The health checks `xs` were made on live connections while the modes were those of the sessions,
and unless one of them was answered this is so in `q`. -/
structure Probed (start : Nat) (xs : List (Pool × Nat)) (q : Pool) : Prop where
  checks : ∀ x ∈ xs, x.1.Modes start ∧ x ∈ probesOf w x.1 x.2
  after : (∀ x ∈ xs, ¬ ProbeAnswered w env x.1 x.2) → q.Modes start

theorem Probed.none {q : Pool} (h : q.Modes start) : Probed w env start [] q :=
  ⟨by simp, fun _ => h⟩

theorem probesOf_alive {p : Pool} {b : Nat} {x : Pool × Nat} (hx : x ∈ probesOf w p b) :
    x = (p, b) ∧ (p.conns b).alive = true := by
  unfold probesOf at hx
  split at hx
  · cases hx
  · rename_i hlive
    rw [not_or, Bool.not_eq_false] at hlive
    exact ⟨List.mem_singleton.mp hx, hlive.1⟩

theorem probed_healthCheck {p : Pool} (h : p.Modes start) (b : Nat) :
    Probed w env start (probesOf w p b) (healthCheck w env p b).1 ∧
      ((healthCheck w env p b).2 = false →
        ∀ x ∈ probesOf w p b, ¬ ProbeAnswered w env x.1 x.2) := by
  have hchecks : ∀ x ∈ probesOf w p b, x.1.Modes start ∧ x ∈ probesOf w x.1 x.2 := by
    intro x hx
    obtain ⟨rfl, -⟩ := probesOf_alive w hx
    exact ⟨h, hx⟩
  rcases healthCheck_cases w env h b with ⟨-, hmodes, hnone⟩ | ⟨hpass, hprobes, hanswered, -⟩
  · exact ⟨⟨hchecks, fun _ => hmodes⟩, fun _ => hnone⟩
  · refine ⟨⟨hchecks, fun hnone => ?_⟩, fun hfail => ?_⟩
    · exact absurd hanswered (hnone (p, b) (by rw [hprobes]; exact List.mem_singleton_self _))
    · rw [hpass] at hfail
      cases hfail

theorem probed_checkoutTry {p : Pool} (h : p.Modes start) (b : Nat) :
    Probed w env start (tryProbes w p b) (checkoutTry w env p b).1 ∧
      ((checkoutTry w env p b).2 = false →
        ∀ x ∈ tryProbes w p b, ¬ ProbeAnswered w env x.1 x.2) := by
  unfold checkoutTry tryProbes
  dsimp only
  by_cases hidle : (p.conns b).alive = false ∨ (p.conns b).busy = true
  · rw [if_pos hidle, if_pos (Or.inl hidle)]
    exact ⟨.none w env h, by simp⟩
  · rw [if_neg hidle]
    have hmark : (p.setConn b { p.conns b with busy := true }).Modes start := h.same id rfl rfl
    by_cases hoff : p.cfg.healthCheckOnCheckout = false
    · rw [if_pos (Or.inr hoff)]
      rw [if_pos (show (p.setConn b _).cfg.healthCheckOnCheckout = false from hoff)]
      exact ⟨.none w env hmark, by simp⟩
    · rw [if_neg (not_or.mpr ⟨hidle, hoff⟩)]
      obtain ⟨hprobed, hnone⟩ := probed_healthCheck w env hmark b
      split
      · rename_i hoff'
        exact absurd hoff' hoff
      · split
        · rename_i q heq
          rw [heq] at hprobed
          exact ⟨hprobed, nofun⟩
        · rename_i q heq
          rw [heq] at hprobed hnone
          have hmodes := hprobed.after (hnone rfl)
          have hfree : (q.setConn b { q.conns b with busy := false }).Modes start :=
            hmodes.same id rfl rfl
          have hre := modes_reconnect env hfree b
          refine ⟨⟨hprobed.checks, fun _ => ?_⟩, fun _ => hnone rfl⟩
          split
          · exact hfree
          · split
            · rename_i r hr
              rw [hr] at hre
              exact hre.same id rfl rfl
            · rename_i r hr
              rw [hr] at hre
              exact hre

theorem probed_checkoutScan (group : Text) (order : List Nat) (fallback : Option Nat) {p : Pool}
    (h : p.Modes start) :
    Probed w env start (scanProbes w env group order p)
        (checkoutScan w env group order fallback p).1 ∧
      ((checkoutScan w env group order fallback p).2.1 = none →
        ∀ x ∈ scanProbes w env group order p, ¬ ProbeAnswered w env x.1 x.2) := by
  induction order generalizing fallback p with
  | nil => exact ⟨.none w env h, by simp [scanProbes]⟩
  | cons idx rest ih =>
      rw [checkoutScan, scanProbes]
      by_cases hidle : (p.conns idx).alive = false ∨ (p.conns idx).busy = true
      · rw [if_pos hidle, if_neg]
        · exact ih fallback h
        · rintro ⟨halive, hfree, -⟩
          rw [halive, hfree] at hidle
          simp at hidle
      · rw [if_neg hidle]
        rw [not_or, Bool.not_eq_false, Bool.not_eq_true] at hidle
        by_cases hmatch : group ≠ [] ∧ (p.conns idx).loginUser = group
        · rw [if_pos ⟨hidle.1, hidle.2, hmatch⟩, if_pos hmatch]
          obtain ⟨htry, hnone⟩ := probed_checkoutTry w env h idx
          generalize checkoutTry w env p idx = r at htry hnone ⊢
          obtain ⟨q, _ | _⟩ := r
          · obtain ⟨hscan, hnone'⟩ := ih fallback (htry.after (hnone rfl))
            refine ⟨⟨?_, fun hno => ?_⟩, fun hmiss => ?_⟩
            · exact List.forall_mem_append.mpr ⟨htry.checks, hscan.checks⟩
            · exact hscan.after fun x hx => hno x (List.mem_append_right _ hx)
            · exact List.forall_mem_append.mpr ⟨hnone rfl, hnone' hmiss⟩
          · refine ⟨⟨by simpa using htry.checks, fun hno => ?_⟩, by rintro ⟨⟩⟩
            exact (htry.after (by simpa using hno)).of_conns rfl (Nat.le_refl _)
        · rw [if_neg fun h => hmatch h.2.2, if_neg hmatch]
          exact ih _ h

theorem probed_checkoutGroup {group : Text} (hgroup : group ≠ []) (order : List Nat) {p : Pool}
    (h : p.Modes start) :
    Probed w env start (scanProbes w env group order p) (checkoutGroup w env group order p).1 ∧
      ((checkoutGroup w env group order p).2 = none →
        ∀ x ∈ scanProbes w env group order p, ¬ ProbeAnswered w env x.1 x.2) := by
  induction order generalizing p with
  | nil => exact ⟨.none w env h, by simp [scanProbes]⟩
  | cons idx rest ih =>
      rw [checkoutGroup, scanProbes]
      by_cases hmatch : (p.conns idx).alive = true ∧ (p.conns idx).busy = false ∧
          (p.conns idx).loginUser = group
      · rw [if_pos ⟨hmatch.1, hmatch.2.1, hgroup, hmatch.2.2⟩, if_pos hmatch]
        obtain ⟨htry, hnone⟩ := probed_checkoutTry w env h idx
        generalize checkoutTry w env p idx = r at htry hnone ⊢
        obtain ⟨q, _ | _⟩ := r
        · obtain ⟨hscan, hnone'⟩ := ih (htry.after (hnone rfl))
          refine ⟨⟨?_, fun hno => ?_⟩, fun hmiss => ?_⟩
          · exact List.forall_mem_append.mpr ⟨htry.checks, hscan.checks⟩
          · exact hscan.after fun x hx => hno x (List.mem_append_right _ hx)
          · exact List.forall_mem_append.mpr ⟨hnone rfl, hnone' hmiss⟩
        · refine ⟨⟨by simpa using htry.checks, fun hno => ?_⟩, by rintro ⟨⟩⟩
          exact (htry.after (by simpa using hno)).of_conns rfl (Nat.le_refl _)
      · rw [if_neg hmatch, if_neg fun h => hmatch ⟨h.1, h.2.1, h.2.2.2⟩]
        exact ih h

theorem modes_checkoutLazy (group : Text) (order : List Nat) {p : Pool} (h : p.Modes start) :
    (checkoutLazy env group order p).1.Modes start := by
  induction order with
  | nil => exact h
  | cons idx rest ih =>
      rw [checkoutLazy]
      split
      · exact ih
      · have hwarm := modes_warmOne env h idx group
        split
        · rename_i q heq
          rw [heq] at hwarm
          have hmark : (q.setConn idx { q.conns idx with busy := true }).Modes start :=
            hwarm.same id rfl rfl
          exact hmark.of_conns rfl (Nat.le_refl _)
        · rename_i q heq
          rw [heq] at hwarm
          exact hwarm

/-- What the first loop leaves is what the later ones start from. -/
theorem Probed.append {xs ys : List (Pool × Nat)} {p q : Pool} (h : Probed w env start xs p)
    (hnone : ∀ x ∈ xs, ¬ ProbeAnswered w env x.1 x.2)
    (k : p.Modes start → Probed w env start ys q) : Probed w env start (xs ++ ys) q := by
  have hk := k (h.after hnone)
  refine ⟨List.forall_mem_append.mpr ⟨h.checks, hk.checks⟩, fun hno => ?_⟩
  exact hk.after fun x hx => hno x (List.mem_append_right _ hx)

theorem probed_checkout {p : Pool} (h : p.Modes start) (group : Text) :
    Probed w env start (checkoutProbes w env p group) (checkout w env p group).1 := by
  unfold checkout checkoutProbes
  split
  · exact .none w env h
  · have hmaintain := modes_poolMaintain env h
    dsimp only
    generalize poolMaintain env p = q at hmaintain ⊢
    generalize searchOrder q = order
    obtain ⟨hscan, hnone⟩ := probed_checkoutScan w env group order none hmaintain
    generalize checkoutScan w env group order none q = r at hscan hnone ⊢
    obtain ⟨t, _ | idx, fallback⟩ := r
    · dsimp only at hscan hnone ⊢
      by_cases hlogin : t.useGroupAsUser = true ∧ group ≠ []
      · rw [if_pos hlogin, if_pos hlogin]
        refine hscan.append w env (hnone rfl) fun ht => ?_
        have hgroup := (probed_checkoutGroup w env hlogin.2 order ht).1
        split
        · rename_i u idx heq
          rw [heq] at hgroup
          exact hgroup
        · rename_i u heq
          rw [heq] at hgroup
          refine ⟨hgroup.checks, fun hno => ?_⟩
          split
          · exact modes_checkoutLazy env group order (hgroup.after hno)
          · exact hgroup.after hno
      · rw [if_neg hlogin, if_neg hlogin]
        refine hscan.append w env (hnone rfl) fun ht => ?_
        cases fallback with
        | none => exact .none w env ht
        | some idx =>
            have htry := (probed_checkoutTry w env ht idx).1
            refine ⟨htry.checks, fun hno => ?_⟩
            have hafter := htry.after hno
            dsimp only
            split
            · rename_i u heq
              rw [heq] at hafter
              exact hafter.of_conns rfl (Nat.le_refl _)
            · rename_i u heq
              rw [heq] at hafter
              exact hafter
    · simpa using hscan

theorem modes_asyncFinish {p : Pool} (h : p.Modes start) (b : Nat) (failed : Bool) :
    (asyncFinish env p b failed).Modes start := by
  have hlast : ∀ q : Pool, q.Modes start → (checkin
      (q.setConn b { q.conns b with sendLen := 0, sendOff := 0, recvAccLen := 0 }) b).Modes start := by
    intro q hq
    have hset := hq.same (b := b)
      (c := { q.conns b with sendLen := 0, sendOff := 0, recvAccLen := 0 }) id rfl rfl
    exact hset.same id rfl rfl
  unfold asyncFinish
  apply hlast
  split
  · exact h
  · have hdown : (p.setConn b (p.conns b).teardownIo).Modes start := h.write nofun
    dsimp only
    split
    · exact (modes_reconnect env hdown b).same id rfl rfl
    · exact hdown

theorem modes_asyncBegin {p : Pool} {owner : Identity}
    (h : (checkout w env p owner.group).1.Modes start) (cache : StmtCache) (bind : PqBind) :
    (asyncBegin w env p cache bind owner).1.Modes start := by
  rcases asyncBegin_cases w env p cache bind owner with heq | ⟨b, c, -, ⟨wire, buf, len, rfl⟩, heq⟩
  · rw [heq]
    exact h
  · have hset := h.same (b := b) (c := { (checkout w env p owner.group).1.conns b with
      wire := wire, sendBuf := buf, sendLen := len, sendOff := 0, recvAccLen := 0,
      skipParseBind := true, pipeSt := .init }) id rfl rfl
    rcases heq with heq | heq
    · rw [heq]
      exact hset.same id rfl rfl
    · rw [heq]
      exact hset.of_conns rfl (Nat.le_refl _)

/-- A call that runs a pipeline: nothing but the slot it checks out changes after the checkout. -/
theorem modes_execCall {p : Pool} {call : ExecCall}
    (h : (checkout w env p call.group).1.Modes start) : (execCall w env p call).1.Modes start := by
  rw [execCall_eq, execOn]
  generalize checkout w env p call.group = r at h
  obtain ⟨q, _ | b⟩ := r
  · exact h
  · have hload : (q.setConn b { q.conns b with wire := some (call.pipeline w).1 }).Modes start :=
      h.same id rfl rfl
    dsimp only
    split
    · exact hload.same id rfl rfl
    · exact (modes_flush w env hload b call.cap call.skip).same id rfl rfl

theorem probed_call {p : Pool} (h : p.Modes start) (call : PoolCall) :
    Probed w env start (callProbes w env p call) (callStep w env p call) := by
  cases call with
  | exec call =>
      have hout := probed_checkout w env h call.group
      exact ⟨hout.checks, fun hno => modes_execCall w env (hout.after hno)⟩
  | op op =>
      cases op with
      | checkout group => exact probed_checkout w env h group
      | checkin b => exact .none w env (h.same id rfl rfl)
      | markDead b => exact .none w env (h.write nofun)
      | reconnect b => exact .none w env (modes_reconnect env h b)
      | maintain => exact .none w env (modes_poolMaintain env h)
      | healthCheck b => exact (probed_healthCheck w env h b).1
      | asyncBegin cache bind owner =>
          have hout := probed_checkout w env h owner.group
          exact ⟨hout.checks, fun hno => modes_asyncBegin w env (hout.after hno) cache bind⟩
      | asyncFinish b failed => exact .none w env (modes_asyncFinish env h b failed)

/-- The pipeline of a call runs on a live connection of the pool that the checkout leaves. -/
theorem callPipelines_checks {p : Pool} (h : p.Modes start) {call : PoolCall}
    (hno : ∀ x ∈ callProbes w env p call, ¬ ProbeAnswered w env x.1 x.2) :
    ∀ x ∈ callPipelines w env p call, x.1.Modes start ∧ (x.1.conns x.2).alive = true := by
  intro x hx
  cases call with
  | op op => cases hx
  | exec call =>
      have hmodes := (probed_checkout w env h call.group).after hno
      have hfound := (checkout_spec w env p call.group).found
      rw [callPipelines] at hx
      generalize checkout w env p call.group = r at hmodes hfound hx
      obtain ⟨q, _ | b⟩ := r
      · cases hx
      · dsimp only at hx
        split at hx
        · rw [List.mem_singleton.mp hx]
          exact ⟨hmodes, (hfound b rfl).1.2⟩
        · cases hx

/-! ### Calls that read and write as they should -/

/-- The backend of a connection is asked and answers in full, sooner or later: reading fails only where
it does not wait. -/
structure FullyAnswers (now : Nat) (c : BackendConn) (pending : Bytes) : Prop where
  asked : pending ≠ []
  takes : env.write now = true
  waits : env.fault now ≠ none → c.nonblock = true
  drained : c.inbox = []
  sized : ∀ m ∈ (env.answer now).messages, m.length ≤ 16384

/-- The probe of a health check is answered, and the answer fits the buffer of the health check. -/
structure AnswersProbe (p : Pool) (b : Nat) : Prop where
  query : ∃ out, sendQuery w [] "SELECT 1".toList = some out ∧ FullyAnswers env p.clock (p.conns b) out
  fits : (env.answer p.clock).messages.length ≤ 256 ∧
    (keptBytes w false (env.answer p.clock).messages).length ≤ 2048

/-- Blocking calls are made on blocking descriptors only, no live backend is given up for not having
answered yet, a probe that is answered passes, and no probe changes the mode. -/
structure BlocksRightly (p : Pool) (call : PoolCall) : Prop where
  mode : ∀ x ∈ callProbes w env p call ++ callPipelines w env p call,
    (x.1.conns x.2).nonblock = false
  survives : ∀ exec, call = .exec exec → ∀ x ∈ callPipelines w env p call,
    FullyAnswers env x.1.clock (x.1.conns x.2) (exec.pipeline w).1 →
      ((callStep w env p call).conns x.2).alive = true
  passes : ∀ x ∈ callProbes w env p call, AnswersProbe w env x.1 x.2 →
    (healthCheck w env x.1 x.2).2 = true
  kept : ∀ x ∈ callProbes w env p call, (healthCheck w env x.1 x.2).2 = true →
    ((healthCheck w env x.1 x.2).1.conns x.2).nonblock = (x.1.conns x.2).nonblock

/-- Every connection that the call reads from was logged in after the first `start` sessions, and no
health check gets its answer. -/
structure RunsOnNew (start : Nat) (p : Pool) (call : PoolCall) : Prop where
  session : ∀ x ∈ callProbes w env p call ++ callPipelines w env p call,
    start < (x.1.conns x.2).session
  unanswered : ∀ x ∈ callProbes w env p call, ¬ ProbeAnswered w env x.1 x.2

/-- What a blocking descriptor waits for comes in full. -/
theorem flushConn_answered (hw : w.FollowsPipeline) {now : Nat} {c : BackendConn} {pending : Bytes}
    (h : FullyAnswers env now c pending) (halive : c.alive = true) (hmode : c.nonblock = false)
    (cap : Nat) (skip : Bool) :
    (flushConn w env now cap skip { c with wire := some pending }).1.alive = true ∧
      ((env.answer now).messages.length ≤ 256 →
        (keptBytes w skip (env.answer now).messages).length ≤ cap →
        (flushConn w env now cap skip { c with wire := some pending }).2.ok = true) := by
  have hfault : env.fault now = none := by
    by_contra hfault
    rw [h.waits hfault] at hmode
    cases hmode
  have hflush : flushConn w env now cap skip { c with wire := some pending } =
      flushEnd { c with wire := some pending }
        (collect w cap skip 256 none (env.answer now).bytes .init []) := by
    unfold flushConn
    rw [halive]
    dsimp only
    rw [if_neg, if_neg h.asked, h.drained, List.nil_append, hfault]
    rintro ⟨-, hfail⟩
    rw [h.takes] at hfail
    cases hfail
  rw [hflush]
  rcases collect_response hw cap skip (env.answer now) h.sized 256 with
    ⟨-, -, hcollect⟩ | ⟨hnot, hexit⟩
  · rw [hcollect]
    refine ⟨halive, fun _ _ => ?_⟩
    change (PipelineStatus.init.fedAll (env.answer now).messages).complete = true
    exact (fedAll_complete_iff _ _).mpr
      (Or.inr ⟨(env.answer now).last, by simp [Response.messages], (env.answer now).last_framed.2⟩)
  · refine ⟨?_, fun hrounds hroom => absurd ⟨hrounds, hroom⟩ hnot⟩
    unfold flushEnd
    rcases hexit with hfull | ⟨hended, -⟩
    · rw [hfull]
      exact halive
    · rw [hended]
      exact halive

/-- The pipeline of a call on a connection that is answered leaves it alive. -/
theorem execCall_survives (hw : w.FollowsPipeline) {p : Pool} {call : ExecCall} {x : Pool × Nat}
    (hx : x ∈ callPipelines w env p (.exec call)) (halive : (x.1.conns x.2).alive = true)
    (hmode : (x.1.conns x.2).nonblock = false)
    (h : FullyAnswers env x.1.clock (x.1.conns x.2) (call.pipeline w).1) :
    ((callStep w env p (.exec call)).conns x.2).alive = true := by
  rw [callStep, execCall_eq, execOn]
  rw [callPipelines] at hx
  generalize checkout w env p call.group = r at hx
  obtain ⟨q, _ | b⟩ := r
  · cases hx
  · dsimp only at hx ⊢
    split at hx
    · rename_i hok
      obtain rfl := List.mem_singleton.mp hx
      have hlive := (flushConn_answered w env hw h halive hmode call.cap call.skip).1
      rw [if_neg (by rw [hok]; decide)]
      dsimp only
      rw [checkin, Pool.setConn_self, flushPipelineEx_conn, Pool.setConn_self]
      exact hlive
    · cases hx

theorem probeAnswered_of_answers (hw : w.FollowsPipeline) {p : Pool} {b : Nat}
    (halive : (p.conns b).alive = true) (hmode : (p.conns b).nonblock = false)
    (h : AnswersProbe w env p b) : ProbeAnswered w env p b := by
  obtain ⟨out, hsend, hanswers⟩ := h.query
  exact ⟨out, hsend,
    (flushConn_answered w env hw hanswers halive hmode 2048 false).2 h.fits.1 h.fits.2⟩

/-- As long as the modes are those of the sessions, a call does it right exactly when it runs on new
sessions and no probe is answered. -/
theorem blocksRightly_iff (hw : w.FollowsPipeline) {p : Pool} (h : p.Modes start) (call : PoolCall) :
    BlocksRightly w env p call ↔ RunsOnNew w env start p call := by
  have hprobed := probed_call w env h call
  have hmode : ∀ x : Pool × Nat, x.1.Modes start → (x.1.conns x.2).alive = true →
      ((x.1.conns x.2).nonblock = false ↔ start < (x.1.conns x.2).session) := by
    intro x hx halive
    rw [← Bool.not_eq_true, hx.live x.2 halive, Nat.not_le]
  have hchecks : (∀ x ∈ callProbes w env p call, ¬ ProbeAnswered w env x.1 x.2) →
      ∀ x ∈ callProbes w env p call ++ callPipelines w env p call,
        x.1.Modes start ∧ (x.1.conns x.2).alive = true := by
    intro hno
    refine List.forall_mem_append.mpr ⟨fun x hx => ?_, callPipelines_checks w env h hno⟩
    obtain ⟨hmodes, hprobe⟩ := hprobed.checks x hx
    exact ⟨hmodes, (probesOf_alive w hprobe).2⟩
  constructor
  · intro hblocks
    have hno : ∀ x ∈ callProbes w env p call, ¬ ProbeAnswered w env x.1 x.2 := by
      intro x hx hanswered
      obtain ⟨hmodes, hprobe⟩ := hprobed.checks x hx
      rcases healthCheck_cases w env hmodes x.2 with ⟨-, -, hnone⟩ | ⟨hpass, -, -, hset⟩
      · exact hnone x hprobe hanswered
      · -- a probe that passes leaves a nonblocking descriptor where it found a blocking one
        have hbefore := hblocks.mode x (List.mem_append_left _ hx)
        rw [hblocks.kept x hx hpass, hbefore] at hset
        cases hset
    refine ⟨fun x hx => ?_, hno⟩
    obtain ⟨hmodes, halive⟩ := hchecks hno x hx
    exact (hmode x hmodes halive).mp (hblocks.mode x hx)
  · rintro ⟨hsession, hno⟩
    have hblocking : ∀ x ∈ callProbes w env p call ++ callPipelines w env p call,
        (x.1.conns x.2).alive = true ∧ (x.1.conns x.2).nonblock = false := by
      intro x hx
      obtain ⟨hmodes, halive⟩ := hchecks hno x hx
      exact ⟨halive, (hmode x hmodes halive).mpr (hsession x hx)⟩
    refine ⟨fun x hx => (hblocking x hx).2, ?_, ?_, ?_⟩
    · rintro call rfl x hx hanswers
      obtain ⟨halive, hmode⟩ := hblocking x (List.mem_append_right _ hx)
      exact execCall_survives w env hw hx halive hmode hanswers
    · intro x hx hanswers
      obtain ⟨halive, hmode⟩ := hblocking x (List.mem_append_left _ hx)
      exact absurd (probeAnswered_of_answers w env hw halive hmode hanswers) (hno x hx)
    · intro x hx hpass
      rcases healthCheck_cases w env (hprobed.checks x hx).1 x.2 with ⟨hfail, -⟩ | ⟨-, -, hanswered, -⟩
      · rw [hpass] at hfail
        cases hfail
      · exact absurd hanswered (hno x hx)

/-- No session is numbered ahead of those that were opened. -/
def Pool.Numbered (p : Pool) : Prop := ∀ b, (p.conns b).session ≤ p.sessions

theorem numbered_warmOne {p : Pool} (h : p.Numbered) (b : Nat) (user : Text) :
    (warmOne env p b user).1.Numbered := by
  have hwrite : ∀ (q : Pool) (c : BackendConn), q.Numbered → c.session ≤ q.sessions →
      (q.setConn b c).Numbered := by
    intro q c hq hc a
    by_cases hab : a = b
    · rw [hab, Pool.setConn_self]
      exact hc
    · rw [Pool.setConn_of_ne q hab]
      exact hq a
  have hdown : (p.setConn b (p.conns b).teardownIo).Numbered := hwrite p _ h (h b)
  unfold warmOne
  dsimp only
  split
  · exact hdown
  · have hnew : (p.setConn b (p.conns b).teardownIo).tick.newSession.Numbered :=
      fun a => Nat.le_succ_of_le (hdown a)
    split
    · exact hwrite _ _ hnew (Nat.le_refl _)
    · split
      · exact hwrite _ _ hnew (Nat.le_refl _)
      · exact hwrite _ _ hnew (Nat.le_refl _)

theorem numbered_warmSlots (plan : List (Nat × Text)) {p : Pool} (h : p.Numbered) (ok : Nat) :
    (warmSlots env plan p ok).1.Numbered := by
  induction plan generalizing p ok with
  | nil => exact h
  | cons x plan ih => exact ih (numbered_warmOne env h x.1 x.2) _

/-- Right after `pqproxy_backend_pool_set_nonblock` every live connection is nonblocking. -/
theorem poolCreate_modes {cfg : BackendConfig} {p : Pool} (h : poolCreate env cfg = some p) :
    (poolSetNonblock p).Modes p.sessions where
  sessions := Nat.le_refl _
  live := by
    have hwf := (poolCreate_unused h).wf
    have hnumbered : p.Numbered := by
      unfold poolCreate at h
      dsimp only at h
      split at h
      · cases h
      · rename_i q n heq
        cases h
        rw [show p = (p, n + 1).1 from rfl, ← heq]
        exact numbered_warmSlots env _ (fun _ => Nat.le_refl _) 0
    intro b halive
    have hbefore : (p.conns b).alive = true := by
      rw [setNonblock_conn] at halive
      exact halive
    have hmode : (poolSetNonblock p).conns b = { p.conns b with nonblock := true } :=
      if_pos ⟨hwf.lt_of_alive hbefore, hbefore, hwf.opened b hbefore⟩
    rw [hmode]
    exact iff_of_true rfl (hnumbered b)

/-- Along every sequence of calls after `pqproxy_backend_pool_set_nonblock`: blocking calls meet
blocking descriptors, and health checks leave the mode alone, exactly as long as only connections are
used that were logged in since, and no health check gets its answer. -/
theorem blocking_iff (hw : w.FollowsPipeline) {cfg : BackendConfig} {p : Pool}
    (h : poolCreate env cfg = some p) (calls : List PoolCall) :
    Runs.Along (callStep w env) (BlocksRightly w env) (poolSetNonblock p) calls ↔
      Runs.Along (callStep w env) (RunsOnNew w env p.sessions) (poolSetNonblock p) calls :=
  @Runs.along_iff _ _ (callStep w env) _ _ (Pool.Modes p.sessions)
    (fun _ call hmodes => blocksRightly_iff w env hw hmodes call)
    (fun _ call hmodes hblocks => (probed_call w env hmodes call).after
      ((blocksRightly_iff w env hw hmodes call).mp hblocks).unanswered)
    _ (poolCreate_modes env h) calls

end

/-! A pool of one connection, and one query. -/

/-- The connection of a new pool is nonblocking when the query comes, so the read does not wait for the
answer. -/
theorem not_blocksRightly : ¬ Runs.Along (callStep pgWire (answering bareResponse))
    (BlocksRightly pgWire (answering bareResponse)) (poolSetNonblock (onePool bareResponse))
    [.exec selectCall] := by
  rintro ⟨hblocks, -⟩
  have hmode := hblocks.mode ((checkout pgWire (answering bareResponse)
    (poolSetNonblock (onePool bareResponse)) []).1, 0) (by
      refine List.mem_append_right _ ?_
      exact List.mem_singleton_self _)
  cases hmode

/-- After the connection was given up and logged in again, the query waits for its answer. -/
theorem blocking_reconnected : Runs.Along (callStep pgWire (answering bareResponse))
    (BlocksRightly pgWire (answering bareResponse)) (poolSetNonblock (onePool bareResponse))
    [.op (.markDead 0), .op .maintain, .exec selectCall] := by
  have hnew : Runs.Along (callStep pgWire (answering bareResponse))
      (fun p call => (callProbes pgWire (answering bareResponse) p call).isEmpty = true ∧
        ∀ x ∈ callPipelines pgWire (answering bareResponse) p call,
          (onePool bareResponse).sessions < (x.1.conns x.2).session)
      (poolSetNonblock (onePool bareResponse))
      [.op (.markDead 0), .op .maintain, .exec selectCall] := by decide +kernel
  refine (blocking_iff pgWire (answering bareResponse) WirePg.followsPipeline
    (onePool_eq bareResponse) _).mpr (hnew.mono fun p call h => ?_)
  have hnone := List.isEmpty_iff.mp h.1
  exact ⟨by rw [hnone]; exact h.2, by rw [hnone]; exact nofun⟩
