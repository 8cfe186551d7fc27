import PqProxy.PoolSizing

/-! The search for a connection. With a login by group, every connection of the group is tried until
one is found. Without one, the connections of other groups are represented by the first of them in
rotation order, and no other is tried when that one fails its check. -/

/-- Only one slot and the clock have changed. -/
structure SlotOnly (b : Nat) (p p' : Pool) : Prop where
  others : ∀ a, a ≠ b → p'.conns a = p.conns a
  cfg : p'.cfg = p.cfg
  maxConns : p'.maxConns = p.maxConns
  byGroup : p'.useGroupAsUser = p.useGroupAsUser
  lazyConnect : p'.lazyConnect = p.lazyConnect
  cursor : p'.rrCursor = p.rrCursor
  clock : p.clock ≤ p'.clock

namespace SlotOnly

theorem refl (b : Nat) (p : Pool) : SlotOnly b p p :=
  ⟨fun _ _ => rfl, rfl, rfl, rfl, rfl, rfl, Nat.le_refl _⟩

theorem trans {b : Nat} {p q r : Pool} (h : SlotOnly b p q) (k : SlotOnly b q r) : SlotOnly b p r where
  others a ha := (k.others a ha).trans (h.others a ha)
  cfg := k.cfg.trans h.cfg
  maxConns := k.maxConns.trans h.maxConns
  byGroup := k.byGroup.trans h.byGroup
  lazyConnect := k.lazyConnect.trans h.lazyConnect
  cursor := k.cursor.trans h.cursor
  clock := Nat.le_trans h.clock k.clock

theorem setConn (p : Pool) (b : Nat) (c : BackendConn) : SlotOnly b p (p.setConn b c) :=
  ⟨fun _ ha => p.setConn_of_ne ha c, rfl, rfl, rfl, rfl, rfl, Nat.le_refl _⟩

theorem tick (b : Nat) (p : Pool) : SlotOnly b p p.tick :=
  ⟨fun _ _ => rfl, rfl, rfl, rfl, rfl, rfl, Nat.le_succ _⟩

theorem newSession (b : Nat) (p : Pool) : SlotOnly b p p.newSession :=
  ⟨fun _ _ => rfl, rfl, rfl, rfl, rfl, rfl, Nat.le_refl _⟩

theorem wrote (b : Nat) (p : Pool) (pipelines : List Bytes) : SlotOnly b p (p.wrote pipelines) :=
  ⟨fun _ _ => rfl, rfl, rfl, rfl, rfl, rfl, Nat.le_refl _⟩

end SlotOnly

section

variable (w : Pqwire) (env : Env)

theorem slotOnly_warmOne (p : Pool) (b : Nat) (user : Text) : SlotOnly b p (warmOne env p b user).1 := by
  have hdown := SlotOnly.setConn p b (p.conns b).teardownIo
  unfold warmOne
  dsimp only
  split
  · exact hdown.trans (.tick b _)
  · have hnew := (hdown.trans (.tick b _)).trans (.newSession b _)
    split
    · exact hnew.trans (.setConn _ b _)
    · split
      · exact hnew.trans (.setConn _ b _)
      · exact hnew.trans (.setConn _ b _)

theorem slotOnly_reconnect (p : Pool) (b : Nat) : SlotOnly b p (reconnect env p b).1 := by
  have hwarm := slotOnly_warmOne env p b
    ((if (p.conns b).loginUser = [] then p.user else (p.conns b).loginUser).copyTo 128)
  unfold reconnect
  dsimp only
  split
  · rename_i q heq
    rw [heq] at hwarm
    exact hwarm
  · rename_i q heq
    rw [heq] at hwarm
    exact hwarm.trans (.setConn q b _)

theorem slotOnly_flush (p : Pool) (b cap : Nat) (skip : Bool) :
    SlotOnly b p (flushPipelineEx w env p b cap skip).1 :=
  ((SlotOnly.setConn p b _).trans (.tick b _)).trans (.wrote b _ _)

theorem slotOnly_healthCheck (p : Pool) (b : Nat) : SlotOnly b p (healthCheck w env p b).1 := by
  unfold healthCheck
  dsimp only
  split
  · exact .refl b p
  · split
    · exact .setConn p b _
    · rename_i out _
      have hflush := (SlotOnly.setConn p b { p.conns b with wire := some out }).trans
        (slotOnly_flush w env _ b 2048 false)
      split
      · exact hflush.trans (.setConn _ b _)
      · exact hflush.trans (.setConn _ b _)

theorem slotOnly_checkoutTry (p : Pool) (b : Nat) : SlotOnly b p (checkoutTry w env p b).1 := by
  unfold checkoutTry
  dsimp only
  split
  · exact .refl b p
  · have hbusy := SlotOnly.setConn p b { p.conns b with busy := true }
    split
    · exact hbusy
    · have hcheck := hbusy.trans (slotOnly_healthCheck w env _ b)
      split
      · rename_i q heq
        rw [heq] at hcheck
        exact hcheck
      · rename_i q heq
        rw [heq] at hcheck
        have hfree := hcheck.trans (.setConn q b { q.conns b with busy := false })
        split
        · exact hfree
        · have hre := hfree.trans (slotOnly_reconnect env _ b)
          split
          · rename_i r hr
            rw [hr] at hre
            exact hre.trans (.setConn r b _)
          · rename_i r hr
            rw [hr] at hre
            exact hre

/-! ### Tries -/

/-- How many blocking operations the health check of a live connection makes. -/
def probeTime (p : Pool) (b : Nat) : Nat :=
  if (p.conns b).wire = none ∨ sendQuery w [] "SELECT 1".toList = none then 0 else 1

/-- How many a try makes that fails. -/
def tryTime (p : Pool) (b : Nat) : Nat := probeTime w p b + if p.cfg.autoReconnect then 1 else 0

/-- The pool after these connections have been tried in vain: their sockets are closed, and time has
passed. -/
def Pool.havingTried (p : Pool) (tried : List Nat) : Pool :=
  { p with
    conns := fun a => if a ∈ tried then (p.conns a).teardownIo else p.conns a
    clock := p.clock + (tried.map (tryTime w p)).sum }

/-- A connection passes its try: nothing is asked of it, its health check succeeds, or it is logged
in again. -/
def Passes (p : Pool) (b : Nat) : Prop :=
  p.cfg.healthCheckOnCheckout = false ∨ (healthCheck w env p b).2 = true ∨
    (p.cfg.autoReconnect = true ∧
      (reconnect env { p with clock := p.clock + probeTime w p b } b).2 = true)

/-- Of these connections, tried one after the other behind others, one passes when its turn comes. -/
def SomePasses (p : Pool) (tried order : List Nat) : Prop :=
  ∃ before b after, order = before ++ b :: after ∧ Passes w env (p.havingTried w (tried ++ before)) b

theorem not_somePasses_nil (p : Pool) (tried : List Nat) : ¬ SomePasses w env p tried [] := by
  rintro ⟨before, b, after, heq, -⟩
  simp at heq

theorem somePasses_cons (p : Pool) (tried : List Nat) (b : Nat) (order : List Nat) :
    SomePasses w env p tried (b :: order) ↔
      Passes w env (p.havingTried w tried) b ∨ SomePasses w env p (tried ++ [b]) order := by
  constructor
  · rintro ⟨before, b', after, heq, hpass⟩
    cases before with
    | nil =>
        cases heq
        rw [List.append_nil] at hpass
        exact .inl hpass
    | cons a before =>
        cases heq
        exact .inr ⟨before, b', after, rfl, by rwa [List.append_assoc]⟩
  · rintro (hpass | ⟨before, b', after, rfl, hpass⟩)
    · exact ⟨[], b, order, rfl, by rwa [List.append_nil]⟩
    · exact ⟨b :: before, b', after, rfl, by rwa [List.append_assoc] at hpass⟩

theorem somePasses_append (p : Pool) (tried order order' : List Nat) :
    SomePasses w env p tried (order ++ order') ↔
      SomePasses w env p tried order ∨ SomePasses w env p (tried ++ order) order' := by
  induction order generalizing tried with
  | nil =>
      rw [List.nil_append, List.append_nil]
      exact (or_iff_right (not_somePasses_nil w env p tried)).symm
  | cons b order ih =>
      rw [List.cons_append, somePasses_cons, somePasses_cons, ih, or_assoc, List.append_assoc]
      rfl

/-- Whether a health check succeeds depends on its connection, held or not, and on what becomes of a
pipeline at its moment. -/
theorem healthCheck_congr {p q : Pool} {b : Nat} (held : Bool)
    (hconn : q.conns b = { p.conns b with busy := held })
    (htime : ∀ c, (flushConn w env q.clock 2048 false c).2 = (flushConn w env p.clock 2048 false c).2) :
    (healthCheck w env q b).2 = (healthCheck w env p b).2 := by
  have hflush : ∀ (p : Pool) (c : BackendConn),
      (flushPipelineEx w env (p.setConn b c) b 2048 false).2 =
        (flushConn w env p.clock 2048 false c).2 := by
    intro p c
    unfold flushPipelineEx
    rw [Pool.setConn_self]
    rfl
  have hbusy : ∀ (now : Nat) (c : BackendConn),
      (flushConn w env now 2048 false { c with busy := held }).2 =
        (flushConn w env now 2048 false c).2 := by
    intro now c
    unfold flushConn flushEnd
    dsimp only
    split
    · split
      · rfl
      · split <;> rfl
    · rfl
  have hresult : ∀ (x : Pool × Flushed) (c d : BackendConn → BackendConn),
      (if x.2.ok then (x.1.setConn b (c (x.1.conns b)), true)
        else (x.1.setConn b (d (x.1.conns b)), false)).2 = x.2.ok := by
    intro x c d
    split
    · rename_i hok
      exact hok.symm
    · rename_i hok
      exact ((Bool.not_eq_true _).mp hok).symm
  unfold healthCheck
  rw [hconn]
  dsimp only
  split
  · rfl
  · split
    · rfl
    · rename_i out _
      have hq := hflush q { p.conns b with busy := held, wire := some out }
      have hp := hflush p { p.conns b with wire := some out }
      rw [htime] at hq
      have hsame := (hq.trans (hbusy p.clock { p.conns b with wire := some out })).trans hp.symm
      refine (hresult _ (fun c => { c with nonblock := true }) BackendConn.teardownIo).trans ?_
      rw [hsame]
      exact (hresult _ (fun c => { c with nonblock := true }) BackendConn.teardownIo).symm

theorem healthCheck_clock {p : Pool} {b : Nat} (halive : (p.conns b).alive = true) :
    (healthCheck w env p b).1.clock = p.clock + probeTime w p b := by
  unfold healthCheck probeTime
  dsimp only
  by_cases hwire : (p.conns b).wire = none
  · rw [if_pos (Or.inr hwire), if_pos (Or.inl hwire)]
    rfl
  rw [if_neg (by simp [halive, hwire])]
  cases hsend : sendQuery w [] "SELECT 1".toList with
  | none =>
      rw [if_pos (Or.inr rfl)]
      rfl
  | some out =>
      rw [if_neg (by simp [hwire])]
      dsimp only
      split <;> rfl

/-- What does not take a moment is no check that succeeds. -/
theorem probeTime_of_healthy {p : Pool} {b : Nat} (h : (healthCheck w env p b).2 = true) :
    probeTime w p b = 1 := by
  unfold healthCheck at h
  unfold probeTime
  dsimp only at h
  split at h
  · cases h
  rename_i hlive
  cases hsend : sendQuery w [] "SELECT 1".toList with
  | none =>
      rw [hsend] at h
      cases h
  | some out =>
      rw [if_neg]
      rintro (hwire | hnone)
      · exact hlive (Or.inr hwire)
      · cases hnone

theorem warmOne_clock (p : Pool) (b : Nat) (user : Text) : (warmOne env p b user).1.clock = p.clock + 1 := by
  unfold warmOne
  dsimp only
  split
  · rfl
  · split
    · rfl
    · split <;> rfl

/-- Whether a login succeeds depends on its moment and on the sockets of the other connections. -/
theorem warmOne_congr {p q : Pool} {b : Nat} (hclock : q.clock = p.clock)
    (hmax : q.maxConns = p.maxConns) (hfd : ∀ a, a ≠ b → (q.conns a).fd = (p.conns a).fd)
    (user user' : Text) : (warmOne env q b user).2 = (warmOne env p b user').2 := by
  have hopen : ∀ fd, (q.setConn b (q.conns b).teardownIo).isOpen fd =
      (p.setConn b (p.conns b).teardownIo).isOpen fd := by
    intro fd
    unfold Pool.isOpen
    change (List.range q.maxConns).any _ = (List.range p.maxConns).any _
    rw [hmax]
    congr 1
    funext a
    by_cases ha : a = b
    · rw [ha, Pool.setConn_self, Pool.setConn_self]
      rfl
    · rw [Pool.setConn_of_ne _ ha, Pool.setConn_of_ne _ ha, hfd a ha]
  have hconnect : tcpConnect env (q.setConn b (q.conns b).teardownIo) =
      tcpConnect env (p.setConn b (p.conns b).teardownIo) := by
    unfold tcpConnect
    rw [funext hopen]
    change (env.socket q.clock).filter _ = (env.socket p.clock).filter _
    rw [hclock]
  unfold warmOne
  dsimp only
  rw [hconnect, hclock]
  split
  · rfl
  · split
    · rfl
    · split <;> rfl

theorem reconnect_result (p : Pool) (b : Nat) (user : Text) :
    (reconnect env p b).2 = (warmOne env p b user).2 := by
  have hsame := warmOne_congr env (p := p) (q := p) (b := b) rfl rfl (fun _ _ => rfl)
    ((if (p.conns b).loginUser = [] then p.user else (p.conns b).loginUser).copyTo 128) user
  unfold reconnect
  dsimp only
  split
  · rename_i r heq
    rw [heq] at hsame
    exact hsame
  · rename_i r heq
    rw [heq] at hsame
    exact hsame

/-- A login that fails leaves no socket behind. -/
theorem reconnect_failed {p : Pool} {b : Nat} (h : (reconnect env p b).2 = false) :
    (reconnect env p b).1.clock = p.clock + 1 ∧ ((reconnect env p b).1.conns b).fd = none := by
  revert h
  have hclock := warmOne_clock env p b
    ((if (p.conns b).loginUser = [] then p.user else (p.conns b).loginUser).copyTo 128)
  unfold reconnect
  dsimp only
  split
  · rename_i r heq
    intro _
    rw [heq] at hclock
    refine ⟨hclock, ?_⟩
    unfold warmOne at heq
    dsimp only at heq
    split at heq
    · cases heq
      change ((p.setConn b (p.conns b).teardownIo).conns b).fd = none
      rw [Pool.setConn_self]
      rfl
    · split at heq
      · cases heq
        rw [Pool.setConn_self]
        rfl
      · split at heq
        · cases heq
          rw [Pool.setConn_self]
          rfl
        · cases heq
  · exact nofun

/-- The pool after the health check of a try, with the connection free again. -/
def checkedPool (p : Pool) (b : Nat) : Pool :=
  let q := (healthCheck w env (p.setConn b { p.conns b with busy := true }) b).1
  q.setConn b { q.conns b with busy := false }

theorem slotOnly_checkedPool (p : Pool) (b : Nat) : SlotOnly b p (checkedPool w env p b) :=
  ((SlotOnly.setConn p b _).trans (slotOnly_healthCheck w env _ b)).trans (.setConn _ b _)

theorem checkedPool_clock {p : Pool} {b : Nat} (halive : (p.conns b).alive = true) :
    (checkedPool w env p b).clock = p.clock + probeTime w p b := by
  have hclock := healthCheck_clock w env (p := p.setConn b { p.conns b with busy := true }) (b := b)
    (by rw [Pool.setConn_self]; exact halive)
  refine hclock.trans ?_
  unfold probeTime
  rw [Pool.setConn_self]
  rfl

/-- A try is a health check and, where that fails and it is configured, a new login. -/
theorem checkoutTry_checked {p : Pool} {b : Nat} (halive : (p.conns b).alive = true)
    (hidle : (p.conns b).busy = false) (hon : p.cfg.healthCheckOnCheckout = true) :
    ((checkoutTry w env p b).2 = true ↔
        (healthCheck w env p b).2 = true ∨
          (p.cfg.autoReconnect = true ∧ (reconnect env (checkedPool w env p b) b).2 = true)) ∧
      ((checkoutTry w env p b).2 = false → (checkoutTry w env p b).1 =
        if p.cfg.autoReconnect = true then (reconnect env (checkedPool w env p b) b).1
        else checkedPool w env p b) := by
  have hsame := healthCheck_congr w env (p := p) true
    (q := p.setConn b { p.conns b with busy := true }) (b := b) (Pool.setConn_self ..) fun _ => rfl
  have hcfg : (checkedPool w env p b).cfg = p.cfg := (slotOnly_checkedPool w env p b).cfg
  rw [← hsame]
  unfold checkoutTry
  dsimp only
  rw [if_neg (by simp [halive, hidle]), if_neg (by change ¬ p.cfg.healthCheckOnCheckout = false; simp [hon])]
  have hchecked : ∀ r ok, healthCheck w env (p.setConn b { p.conns b with busy := true }) b = (r, ok) →
      checkedPool w env p b = r.setConn b { r.conns b with busy := false } := by
    intro r ok heq
    unfold checkedPool
    rw [heq]
  cases hcheck : healthCheck w env (p.setConn b { p.conns b with busy := true }) b with
  | mk r ok =>
      rw [hchecked r ok hcheck] at hcfg ⊢
      cases ok with
      | true => exact ⟨iff_of_true rfl (Or.inl rfl), nofun⟩
      | false =>
          dsimp only
          rw [hcfg]
          cases hauto : p.cfg.autoReconnect with
          | false =>
              rw [if_pos rfl]
              refine ⟨iff_of_false nofun ?_, fun _ => rfl⟩
              rintro (h | ⟨h, -⟩) <;> cases h
          | true =>
              rw [if_neg nofun, if_pos rfl]
              split
              · rename_i t heq
                rw [heq]
                exact ⟨iff_of_true rfl (Or.inr ⟨rfl, rfl⟩), nofun⟩
              · rename_i t heq
                rw [heq]
                refine ⟨iff_of_false nofun ?_, fun _ => rfl⟩
                rintro (h | ⟨-, h⟩) <;> cases h

/-- What a pool has become when some of its connections were tried in vain. -/
structure Behind (p : Pool) (tried : List Nat) (q : Pool) : Prop where
  others : ∀ a, a ∉ tried → q.conns a = p.conns a
  closed : p.cfg.autoReconnect = true → ∀ a ∈ tried, (q.conns a).fd = none
  cfg : q.cfg = p.cfg
  maxConns : q.maxConns = p.maxConns
  byGroup : q.useGroupAsUser = p.useGroupAsUser
  clock : q.clock = p.clock + (tried.map (tryTime w p)).sum

namespace Behind

theorem refl (p : Pool) : Behind w p [] p :=
  ⟨fun _ _ => rfl, fun _ _ h => (by cases h), rfl, rfl, rfl, rfl⟩

variable {w} {p q : Pool} {tried : List Nat} {b : Nat}

theorem probeTime_eq (h : Behind w p tried q) (hb : b ∉ tried) : probeTime w q b = probeTime w p b := by
  unfold probeTime
  rw [h.others b hb]

/-- The next connection is found as if nothing but time had passed. -/
theorem passes (h : Behind w p tried q) (hb : b ∉ tried) (halive : (p.conns b).alive = true)
    (hidle : (p.conns b).busy = false) :
    (checkoutTry w env q b).2 = true ↔ Passes w env (p.havingTried w tried) b := by
  have hconn : (p.havingTried w tried).conns b = p.conns b := if_neg hb
  have hsame : q.conns b = p.conns b := h.others b hb
  have hcfg : (p.havingTried w tried).cfg = q.cfg := h.cfg.symm
  rw [← hsame] at halive hidle
  unfold Passes
  rw [hcfg]
  by_cases hoff : q.cfg.healthCheckOnCheckout = false
  · refine iff_of_true ?_ (Or.inl hoff)
    unfold checkoutTry
    dsimp only
    rw [if_neg (by simp [halive, hidle])]
    exact congrArg Prod.snd (if_pos hoff)
  rw [(checkoutTry_checked w env halive hidle (by simpa using hoff)).1, or_iff_right hoff]
  have hcheck : (healthCheck w env q b).2 = (healthCheck w env (p.havingTried w tried) b).2 :=
    healthCheck_congr w env (p.conns b).busy (by rw [hconn, hsame]) fun _ => by
      rw [h.clock]
      rfl
  rw [hcheck]
  refine or_congr Iff.rfl (and_congr_right fun hauto => ?_)
  have hslot := slotOnly_checkedPool w env q b
  have htime : probeTime w q b = probeTime w (p.havingTried w tried) b := by
    unfold probeTime
    rw [hsame, hconn]
  rw [reconnect_result env _ b [], reconnect_result env _ b [], warmOne_congr env _ _ _ [] []]
  · rw [checkedPool_clock w env halive, htime, h.clock]
    rfl
  · exact hslot.maxConns.trans h.maxConns
  · intro a ha
    rw [hslot.others a ha]
    change (q.conns a).fd = (if a ∈ tried then (p.conns a).teardownIo else p.conns a).fd
    split
    · rename_i hmem
      exact h.closed (h.cfg ▸ hauto) a hmem
    · rename_i hmem
      rw [h.others a hmem]

/-- When it fails too, it is one of those that were tried in vain. -/
theorem fails (h : Behind w p tried q) (hb : b ∉ tried) (halive : (p.conns b).alive = true)
    (hidle : (p.conns b).busy = false) (hfailed : (checkoutTry w env q b).2 = false) :
    Behind w p (tried ++ [b]) (checkoutTry w env q b).1 := by
  have hsame : q.conns b = p.conns b := h.others b hb
  have hslot := slotOnly_checkoutTry w env q b
  rw [← hsame] at halive hidle
  have hon : q.cfg.healthCheckOnCheckout = true := by
    by_contra hoff
    unfold checkoutTry at hfailed
    dsimp only at hfailed
    rw [if_neg (by simp [halive, hidle])] at hfailed
    cases (congrArg Prod.snd (if_pos ((Bool.not_eq_true _).mp hoff))).symm.trans hfailed
  obtain ⟨hiff, hend⟩ := checkoutTry_checked w env halive hidle hon
  have hafter := hend hfailed
  have hnot : ¬ (q.cfg.autoReconnect = true ∧ (reconnect env (checkedPool w env q b) b).2 = true) :=
    fun hre => by rw [hiff.mpr (Or.inr hre)] at hfailed; cases hfailed
  refine ⟨fun a ha => ?_, fun hauto a ha => ?_, hslot.cfg.trans h.cfg, hslot.maxConns.trans h.maxConns,
    hslot.byGroup.trans h.byGroup, ?_⟩
  · rw [List.mem_append, List.mem_singleton, not_or] at ha
    exact (hslot.others a ha.2).trans (h.others a ha.1)
  · rw [← h.cfg] at hauto
    by_cases hab : a = b
    · subst hab
      rw [hafter, if_pos hauto]
      exact (reconnect_failed env ((Bool.not_eq_true _).mp fun hre => hnot ⟨hauto, hre⟩)).2
    · rw [hslot.others a hab]
      rw [h.cfg] at hauto
      exact h.closed hauto a ((List.mem_append.mp ha).resolve_right (by simpa using hab))
  · have hchecked : (checkedPool w env q b).clock = q.clock + probeTime w p b := by
      rw [checkedPool_clock w env halive, h.probeTime_eq hb]
    rw [List.map_append, List.sum_append, List.map_singleton, List.sum_singleton, hafter, tryTime,
      ← h.cfg]
    by_cases hauto : q.cfg.autoReconnect = true
    · have hre := (reconnect_failed env ((Bool.not_eq_true _).mp fun hre => hnot ⟨hauto, hre⟩)).1
      rw [if_pos hauto, if_pos hauto, hre, hchecked, h.clock]
      omega
    · rw [if_neg hauto, if_neg hauto, hchecked, h.clock]
      omega

end Behind

/-- The connection is logged in as the group that is asked for. -/
def Matches (c : BackendConn) (group : Text) : Prop := group ≠ [] ∧ c.loginUser = group

instance (c : BackendConn) (group : Text) : Decidable (Matches c group) :=
  inferInstanceAs (Decidable (_ ∧ _))

/-- A connection that the scan looks for. -/
def isCandidate (p : Pool) (group : Text) (b : Nat) : Bool :=
  (p.conns b).alive && !(p.conns b).busy && decide (Matches (p.conns b) group)

theorem isCandidate_iff {p : Pool} {group : Text} {b : Nat} :
    isCandidate p group b = true ↔
      (p.conns b).alive = true ∧ (p.conns b).busy = false ∧ Matches (p.conns b) group := by
  simp [isCandidate, and_assoc]

/-- The first idle connection in rotation order that is not logged in as the group. -/
def fallbackSlot (p : Pool) (group : Text) (order : List Nat) : Option Nat :=
  order.find? fun idx =>
    (p.conns idx).alive && !(p.conns idx).busy && !decide (Matches (p.conns idx) group)

/-- The scan finds a connection if a candidate passes when its turn comes. Otherwise all candidates
were tried in vain, and it returns the fallback. -/
theorem checkoutScan_turns {p : Pool} (group : Text) {order : List Nat} (hnodup : order.Nodup)
    (tried : List Nat) (hnew : ∀ b ∈ order, b ∉ tried) (fallback : Option Nat) {q : Pool}
    (h : Behind w p tried q) :
    ((checkoutScan w env group order fallback q).2.1 ≠ none ↔
        SomePasses w env p tried (order.filter (isCandidate p group))) ∧
      ((checkoutScan w env group order fallback q).2.1 = none →
        Behind w p (tried ++ order.filter (isCandidate p group))
            (checkoutScan w env group order fallback q).1 ∧
          (checkoutScan w env group order fallback q).2.2 =
            fallback.or (fallbackSlot p group order)) := by
  induction order generalizing tried fallback q with
  | nil =>
      refine ⟨iff_of_false (fun hne => hne rfl) (not_somePasses_nil w env p tried), fun _ => ⟨?_, ?_⟩⟩
      · rw [List.filter_nil, List.append_nil]
        exact h
      · exact (Option.or_none ..).symm
  | cons b order ih =>
      obtain ⟨hb, hnodup⟩ := List.nodup_cons.mp hnodup
      have hbnew : b ∉ tried := hnew b List.mem_cons_self
      have hrest : ∀ a ∈ order, a ∉ tried := fun a ha => hnew a (List.mem_cons_of_mem b ha)
      have hsame : q.conns b = p.conns b := h.others b hbnew
      unfold fallbackSlot at ih ⊢
      rw [checkoutScan, hsame]
      by_cases hskip : (p.conns b).alive = false ∨ (p.conns b).busy = true
      · have hno : isCandidate p group b = false := by
          unfold isCandidate
          rcases hskip with hdead | hbusy
          · simp [hdead]
          · simp [hbusy]
        rw [if_pos hskip, List.filter_cons_of_neg (by simp [hno]), List.find?_cons_of_neg]
        · exact ih hnodup tried hrest fallback h
        · rcases hskip with hdead | hbusy
          · simp [hdead]
          · simp [hbusy]
      rw [if_neg hskip]
      obtain ⟨hlive, hidle⟩ := not_or.mp hskip
      rw [Bool.not_eq_false] at hlive
      rw [Bool.not_eq_true] at hidle
      by_cases hmatch : group ≠ [] ∧ (p.conns b).loginUser = group
      · have hcandidate : isCandidate p group b = true := isCandidate_iff.mpr ⟨hlive, hidle, hmatch⟩
        have hpasses := h.passes env hbnew hlive hidle
        have hfails := h.fails env hbnew hlive hidle
        have hdrop : ∀ a ∈ order, a ∉ tried ++ [b] := by
          intro a ha hmem
          rcases List.mem_append.mp hmem with hmem | hmem
          · exact hrest a ha hmem
          · rw [List.mem_singleton] at hmem
            exact hb (hmem ▸ ha)
        rw [if_pos hmatch, List.filter_cons_of_pos hcandidate, somePasses_cons, ← hpasses,
          List.find?_cons_of_neg (by simp [Matches, hmatch])]
        cases htried : checkoutTry w env q b with
        | mk r found =>
            rw [htried] at hfails
            cases found with
            | true => exact ⟨iff_of_true (Option.some_ne_none b) (Or.inl rfl), fun h => by cases h⟩
            | false =>
                have hscan := ih hnodup (tried ++ [b]) hdrop fallback (hfails rfl)
                rw [List.append_assoc, List.singleton_append] at hscan
                exact ⟨hscan.1.trans (or_iff_right Bool.false_ne_true).symm, hscan.2⟩
      · have hno : ¬ isCandidate p group b = true := fun hcandidate =>
          hmatch (isCandidate_iff.mp hcandidate).2.2
        have hnomatch : ¬ Matches (p.conns b) group := hmatch
        rw [if_neg hmatch, List.filter_cons_of_neg hno,
          List.find?_cons_of_pos (by simp [hlive, hidle, hnomatch])]
        obtain ⟨hfound, hnone⟩ := ih hnodup tried hrest (fallback.orElse fun _ => some b) h
        refine ⟨hfound, fun heq => ⟨(hnone heq).1, (hnone heq).2.trans ?_⟩⟩
        cases fallback with
        | none => rfl
        | some f => rfl

theorem nodup_searchOrder (p : Pool) : (searchOrder p).Nodup := by
  refine List.Nodup.map_on ?_ List.nodup_range
  intro i hi j hj heq
  rw [List.mem_range] at hi hj
  have hmod := (Nat.ModEq.add_left_cancel' _ (show p.rrCursor % p.maxConns + i ≡
    p.rrCursor % p.maxConns + j [MOD p.maxConns] from heq))
  exact (Nat.mod_eq_of_lt hi).symm.trans ((show i % p.maxConns = j % p.maxConns from hmod).trans
    (Nat.mod_eq_of_lt hj))

/-! ### Completeness -/

/-- An idle connection that a checkout for the group may hand out. -/
structure Eligible (p : Pool) (group : Text) (b : Nat) : Prop where
  lt : b < p.maxConns
  alive : (p.conns b).alive = true
  idle : (p.conns b).busy = false
  role : p.useGroupAsUser = true ∧ group ≠ [] → (p.conns b).loginUser = group

/-- The connection passes the health check that is configured, when it is made at once or instead of
any operation up to `stop`. -/
def WouldPass (p : Pool) (stop b : Nat) : Prop :=
  p.cfg.healthCheckOnCheckout = true → ∀ now, p.clock ≤ now → now = p.clock ∨ now < stop →
    (healthCheck w env { p with clock := now } b).2 = true

/-- The connections that a checkout looks at: those of the group, and the first other one. -/
def lookedAt (p : Pool) (group : Text) : List Nat :=
  (searchOrder p).filter (isCandidate p group) ++ (fallbackSlot p group (searchOrder p)).toList

/-- What a checkout returns when the scan has found nothing and the login is not by group. -/
theorem checkout_fallback {p r : Pool} {group : Text} {fallback : Option Nat}
    (hmax : p.maxConns ≠ 0)
    (hscan : checkoutScan w env group (searchOrder (poolMaintain env p)) none (poolMaintain env p) =
      (r, none, fallback)) (hany : ¬ (r.useGroupAsUser = true ∧ group ≠ [])) :
    (checkout w env p group).2 =
      fallback.bind fun f => if (checkoutTry w env r f).2 then some f else none := by
  unfold checkout
  rw [if_neg hmax]
  dsimp only
  rw [hscan]
  dsimp only
  rw [if_neg hany]
  cases fallback with
  | none => rfl
  | some f =>
      rw [Option.bind_some]
      dsimp only
      split
      · rename_i heq
        rw [heq]
        rfl
      · rename_i heq
        rw [heq]
        rfl

theorem checkout_scan {p r : Pool} {group : Text} {idx : Nat} {fallback : Option Nat}
    (hmax : p.maxConns ≠ 0)
    (hscan : checkoutScan w env group (searchOrder (poolMaintain env p)) none (poolMaintain env p) =
      (r, some idx, fallback)) : checkout w env p group = (r, some idx) := by
  unfold checkout
  rw [if_neg hmax]
  dsimp only
  rw [hscan]

theorem checkoutGroup_clock (group : Text) (order : List Nat) (p : Pool) :
    p.clock ≤ (checkoutGroup w env group order p).1.clock := by
  induction order generalizing p with
  | nil => exact Nat.le_refl _
  | cons b order ih =>
      rw [checkoutGroup]
      split
      · have hslot := slotOnly_checkoutTry w env p b
        split
        · rename_i q heq
          rw [heq] at hslot
          exact hslot.clock
        · rename_i q heq
          rw [heq] at hslot
          exact Nat.le_trans hslot.clock (ih q)
      · exact ih p

theorem checkoutLazy_clock (group : Text) (order : List Nat) (p : Pool) :
    p.clock ≤ (checkoutLazy env group order p).1.clock := by
  induction order with
  | nil => exact Nat.le_refl _
  | cons b order ih =>
      rw [checkoutLazy]
      split
      · exact ih
      · have hslot := slotOnly_warmOne env p b group
        split
        · rename_i q heq
          rw [heq] at hslot
          exact hslot.clock
        · rename_i q heq
          rw [heq] at hslot
          exact hslot.clock

/-- A checkout takes no less time than its scan. -/
theorem checkout_clock {p r : Pool} {group : Text} {found fallback : Option Nat}
    (hmax : p.maxConns ≠ 0)
    (hscan : checkoutScan w env group (searchOrder (poolMaintain env p)) none (poolMaintain env p) =
      (r, found, fallback)) : r.clock ≤ (checkout w env p group).1.clock := by
  unfold checkout
  rw [if_neg hmax]
  dsimp only
  rw [hscan]
  generalize searchOrder (poolMaintain env p) = order
  cases found with
  | some idx => exact Nat.le_refl _
  | none =>
      dsimp only
      split
      · have hgroup := checkoutGroup_clock w env group order r
        split
        · rename_i t idx heq
          rw [heq] at hgroup
          exact hgroup
        · rename_i t heq
          rw [heq] at hgroup
          split
          · exact Nat.le_trans hgroup (checkoutLazy_clock env group order t)
          · exact hgroup
      · cases fallback with
        | none => exact Nat.le_refl _
        | some f =>
            have hslot := slotOnly_checkoutTry w env r f
            dsimp only
            split
            · rename_i t heq
              rw [heq] at hslot
              exact hslot.clock
            · rename_i t heq
              rw [heq] at hslot
              exact hslot.clock

/-- A connection of the group that would pass is not passed over. -/
theorem checkoutScan_finds {p r : Pool} {group : Text} {b stop : Nat} {found fallback : Option Nat}
    (hlt : b < p.maxConns) (hcandidate : isCandidate p group b = true)
    (hpass : WouldPass w env p stop b)
    (hscan : checkoutScan w env group (searchOrder p) none p = (r, found, fallback))
    (hstop : r.clock ≤ stop) : found ≠ none := by
  rintro rfl
  obtain ⟨hfound, hnone⟩ := checkoutScan_turns w env group (nodup_searchOrder p) []
    (fun _ _ h => by cases h) none (.refl w p)
  rw [hscan] at hfound hnone
  have hmem : b ∈ (searchOrder p).filter (isCandidate p group) :=
    List.mem_filter.mpr ⟨mem_searchOrder hlt, hcandidate⟩
  have hclock := (hnone rfl).1.clock
  dsimp only at hclock
  have hnodup := (nodup_searchOrder p).filter (isCandidate p group)
  obtain ⟨before, after, heq⟩ := List.append_of_mem hmem
  rw [List.nil_append, heq, List.map_append, List.sum_append, List.map_cons, List.sum_cons] at hclock
  rw [heq, List.nodup_append] at hnodup
  have hb : b ∉ before := fun hb => hnodup.2.2 b hb b List.mem_cons_self rfl
  refine hfound.mpr ⟨before, b, after, heq, ?_⟩ rfl
  cases hon : p.cfg.healthCheckOnCheckout with
  | false => exact .inl hon
  | true =>
      have hnow := hpass hon p.clock (Nat.le_refl _) (Or.inl rfl)
      have htime : probeTime w p b = 1 := probeTime_of_healthy w env hnow
      have hlong : 1 ≤ tryTime w p b := by
        rw [tryTime, htime]
        exact Nat.le_add_right 1 _
      have hturn := hpass hon (p.clock + (before.map (tryTime w p)).sum) (Nat.le_add_right _ _)
        (Or.inr (by omega))
      refine .inr (.inl ?_)
      rw [← hturn]
      exact healthCheck_congr w env (p.conns b).busy (if_neg hb) fun _ => rfl

/-- Where a connection would pass, the checkout returns one if the login is by group, and else exactly
if one of those that it looks at passes when its turn comes. -/
theorem complete_iff {p : Pool} {group : Text} {b : Nat}
    (heligible : Eligible (poolMaintain env p) group b)
    (hpass : WouldPass w env (poolMaintain env p) (checkout w env p group).1.clock b) :
    (checkout w env p group).2 ≠ none ↔
      ((poolMaintain env p).useGroupAsUser = true ∧ group ≠ []) ∨
        SomePasses w env (poolMaintain env p) [] (lookedAt (poolMaintain env p) group) := by
  have hsizes : (poolMaintain env p).maxConns = p.maxConns := (poolMaintain_idle w env p).maxConns
  have hmax : p.maxConns ≠ 0 := by
    have := heligible.lt
    omega
  obtain ⟨hfound, hnone⟩ := checkoutScan_turns w env group (nodup_searchOrder (poolMaintain env p))
    [] (fun _ _ h => by cases h) none (.refl w (poolMaintain env p))
  unfold lookedAt
  rw [somePasses_append, List.nil_append]
  cases hscan : checkoutScan w env group (searchOrder (poolMaintain env p)) none (poolMaintain env p) with
  | mk r result =>
      obtain ⟨found, fallback⟩ := result
      rw [hscan] at hfound hnone
      cases found with
      | some idx =>
          rw [checkout_scan w env hmax hscan]
          exact iff_of_true nofun (.inr (.inl (hfound.mp nofun)))
      | none =>
          have hfails := fun h => hfound.mpr h rfl
          obtain ⟨hbehind, hfallback⟩ := hnone rfl
          rw [or_iff_right hfails]
          by_cases hby : (poolMaintain env p).useGroupAsUser = true ∧ group ≠ []
          · -- the connection is one of the group, so the scan has found one
            have hcandidate := isCandidate_iff.mpr
              ⟨heligible.alive, heligible.idle, hby.2, heligible.role hby⟩
            exact absurd rfl (checkoutScan_finds w env heligible.lt hcandidate hpass hscan
              (checkout_clock w env hmax hscan))
          rw [or_iff_right hby, checkout_fallback w env hmax hscan (by rw [hbehind.byGroup]; exact hby)]
          rw [List.nil_append] at hbehind
          dsimp only at hbehind hfallback
          rw [hfallback, Option.none_or]
          cases hslot : fallbackSlot (poolMaintain env p) group (searchOrder (poolMaintain env p)) with
          | none => exact iff_of_false (fun hne => hne rfl) (not_somePasses_nil w env _ _)
          | some f =>
              have hf := List.find?_some hslot
              rw [Bool.and_eq_true, Bool.and_eq_true, Bool.not_eq_true', Bool.not_eq_true',
                decide_eq_false_iff_not] at hf
              have hother : f ∉ (searchOrder (poolMaintain env p)).filter
                  (isCandidate (poolMaintain env p) group) := fun hmem =>
                hf.2 (isCandidate_iff.mp (List.mem_filter.mp hmem).2).2.2
              rw [Option.toList_some, somePasses_cons, or_iff_left (not_somePasses_nil w env _ _),
                ← hbehind.passes env hother hf.1.1 hf.1.2, Option.bind_some]
              cases (checkoutTry w env r f).2 with
              | true => exact iff_of_true nofun rfl
              | false => exact iff_of_false (fun hne => hne rfl) nofun

end

/-- Two connections that are probed before they are handed out, and not re-established. -/
def probedConfig : BackendConfig where
  user := []
  useGroupAsUser := false
  groups := []
  lazyGroupConnect := false
  poolSize := 2
  autoReconnect := false
  healthCheckOnCheckout := true

def probedPool : Pool := (poolCreate (answering bareResponse) probedConfig).get rfl

/-- In the socket of the first connection there is the start of a message that never came. -/
def stalePool : Pool :=
  probedPool.setConn 0 { probedPool.conns 0 with inbox := [68, 0, 0, 0, 50] }

/-- The second connection would pass, whenever it is checked. -/
theorem second_passes {p : Pool} (hconn : p.conns 1 = probedPool.conns 1) (stop : Nat) :
    WouldPass pgWire (answering bareResponse) p stop 1 := by
  intro _ now _ _
  have hhealthy : (healthCheck pgWire (answering bareResponse) probedPool 1).2 = true := by decide +kernel
  rw [← hhealthy]
  exact healthCheck_congr pgWire _ (probedPool.conns 1).busy hconn fun _ => rfl

theorem complete_iff_clean : (checkout pgWire (answering bareResponse) probedPool []).2 ≠ none := by
  have hidle : poolMaintain (answering bareResponse) probedPool = probedPool := if_neg (by decide)
  have heligible : Eligible (poolMaintain (answering bareResponse) probedPool) [] 1 := by
    rw [hidle]
    exact ⟨by decide +kernel, by decide +kernel, by decide +kernel, fun h => absurd rfl h.2⟩
  refine (complete_iff pgWire (answering bareResponse) heligible (second_passes (by rw [hidle]) _)).mpr ?_
  rw [hidle]
  exact .inr ⟨[], 0, [], by decide +kernel, .inr (.inl (by decide +kernel))⟩

/-- The second connection would pass, but only the first is tried. -/
theorem not_complete : Eligible (poolMaintain (answering bareResponse) stalePool) [] 1 ∧
    WouldPass pgWire (answering bareResponse) (poolMaintain (answering bareResponse) stalePool)
      (checkout pgWire (answering bareResponse) stalePool []).1.clock 1 ∧
    (checkout pgWire (answering bareResponse) stalePool []).2 = none := by
  have hidle : poolMaintain (answering bareResponse) stalePool = stalePool := if_neg (by decide)
  rw [hidle]
  refine ⟨⟨by decide +kernel, by decide +kernel, by decide +kernel, fun h => absurd rfl h.2⟩,
    second_passes (Pool.setConn_of_ne _ (by decide) _) _, by decide +kernel⟩
