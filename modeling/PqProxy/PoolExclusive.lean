import PqProxy.PoolOps
import PqProxy.WirePg

/-! The mark that a connection is checked out. Every operation leaves the marks of the connections it
is not called for, and a checkout marks the one it hands out; only a lazy login does not look at the
mark of the connection it takes. -/

/-- No connection is checked out or given back. -/
def SameBusy (p p' : Pool) : Prop := ∀ a, (p'.conns a).busy = (p.conns a).busy

theorem SameBusy.trans {p q r : Pool} (h : SameBusy p q) (k : SameBusy q r) : SameBusy p r :=
  fun a => (k a).trans (h a)

theorem sameBusy_setConn {p : Pool} {b : Nat} {c : BackendConn} (h : c.busy = (p.conns b).busy) :
    SameBusy p (p.setConn b c) := by
  intro a
  by_cases hab : a = b
  · rw [hab, Pool.setConn_self, h]
  · rw [p.setConn_of_ne hab]

/-- What a search leaves of the marks when it returns `r`. -/
structure Grants (p p' : Pool) (r : Option Nat) : Prop where
  others : ∀ a, r ≠ some a → (p'.conns a).busy = (p.conns a).busy
  granted : ∀ a, r = some a → (p'.conns a).busy = true

theorem SameBusy.grants {p p' : Pool} (h : SameBusy p p') : Grants p p' none :=
  ⟨fun a _ => h a, nofun⟩

theorem Grants.of_same {p q p' : Pool} {r : Option Nat} (h : SameBusy p q) (k : Grants q p' r) :
    Grants p p' r :=
  ⟨fun a ha => (k.others a ha).trans (h a), k.granted⟩

theorem Grants.none {p p' : Pool} (h : Grants p p' none) : SameBusy p p' :=
  fun a => h.others a nofun

/-- Only the slot that is returned is marked. -/
theorem grants_mark {p q : Pool} {b : Nat} (h : ∀ a, a ≠ b → (q.conns a).busy = (p.conns a).busy)
    (hbusy : (q.conns b).busy = true) : Grants p q (some b) := by
  refine ⟨fun a ha => h a ?_, ?_⟩
  · rintro rfl
    exact ha rfl
  · rintro a ⟨⟩
    exact hbusy

section

variable (w : Pqwire) (env : Env)

/-- A login works on its slot, and takes the mark of it away when it succeeds. -/
theorem warmOne_marks (p : Pool) (b : Nat) (user : Text) :
    (∀ a, a ≠ b → (warmOne env p b user).1.conns a = p.conns a) ∧
      ((warmOne env p b user).2 = false →
        ((warmOne env p b user).1.conns b).busy = (p.conns b).busy) := by
  have hwrite : ∀ (q : Pool) (c : BackendConn), (∀ a, a ≠ b → q.conns a = p.conns a) →
      ∀ a, a ≠ b → (q.setConn b c).conns a = p.conns a := by
    intro q c hq a hab
    rw [q.setConn_of_ne hab]
    exact hq a hab
  have hdown := hwrite p (p.conns b).teardownIo fun _ _ => rfl
  unfold warmOne
  dsimp only
  split
  · exact ⟨hdown, fun _ => by simp [Pool.tick, BackendConn.teardownIo]⟩
  · split
    · exact ⟨hwrite _ _ hdown, fun _ => by simp [BackendConn.teardownIo]⟩
    · split
      · exact ⟨hwrite _ _ hdown, fun _ => by simp [BackendConn.teardownIo]⟩
      · exact ⟨hwrite _ _ hdown, by rintro ⟨⟩⟩

theorem reconnect_marks (p : Pool) (b : Nat) :
    (∀ a, a ≠ b → (reconnect env p b).1.conns a = p.conns a) ∧
      ((reconnect env p b).1.conns b).busy = (p.conns b).busy := by
  obtain ⟨hothers, hfail⟩ := warmOne_marks env p b
    (Text.copyTo (if (p.conns b).loginUser = [] then p.user else (p.conns b).loginUser) 128)
  unfold reconnect
  dsimp only
  split
  · rename_i q heq
    rw [heq] at hothers hfail
    exact ⟨hothers, hfail rfl⟩
  · rename_i q heq
    rw [heq] at hothers
    refine ⟨fun a hab => ?_, by rw [Pool.setConn_self]⟩
    rw [Pool.setConn_of_ne _ hab]
    exact hothers a hab

theorem sameBusy_reconnect (p : Pool) (b : Nat) : SameBusy p (reconnect env p b).1 := by
  obtain ⟨hothers, hb⟩ := reconnect_marks env p b
  intro a
  by_cases hab : a = b
  · rw [hab]
    exact hb
  · rw [hothers a hab]

/-- Maintenance re-establishes connections that are not checked out. -/
theorem maintainFrom_keeps (bs : List Nat) (p : Pool) :
    SameBusy p (maintainFrom env bs p) ∧
      ∀ a, (p.conns a).busy = true → (maintainFrom env bs p).conns a = p.conns a := by
  induction bs generalizing p with
  | nil => exact ⟨fun _ => rfl, fun _ _ => rfl⟩
  | cons b bs ih =>
      rw [maintainFrom]
      split
      · rename_i hdead
        have hre := sameBusy_reconnect env p b
        obtain ⟨hsame, hkeep⟩ := ih (reconnect env p b).1
        refine ⟨hre.trans hsame, fun a ha => ?_⟩
        have hab : a ≠ b := by
          rintro rfl
          rw [hdead.1] at ha
          cases ha
        rw [hkeep a (by rw [hre a]; exact ha), (reconnect_marks env p b).1 a hab]
      · exact ih p

theorem poolMaintain_keeps (p : Pool) : SameBusy p (poolMaintain env p) ∧
    ∀ a, (p.conns a).busy = true → (poolMaintain env p).conns a = p.conns a := by
  unfold poolMaintain
  split
  · exact maintainFrom_keeps env _ p
  · exact ⟨fun _ => rfl, fun _ _ => rfl⟩

theorem sameBusy_healthCheck (p : Pool) (b : Nat) : SameBusy p (healthCheck w env p b).1 := by
  intro a
  by_cases hab : a = b
  · rw [hab]
    exact (healthCheck_session w env p b).2.2.1
  · rw [(touches_healthCheck w env p b).others a hab]

/-- A try marks an idle connection, or leaves all marks. -/
theorem grants_checkoutTry (p : Pool) (b : Nat) :
    Grants p (checkoutTry w env p b).1 (if (checkoutTry w env p b).2 then some b else none) ∧
      ((checkoutTry w env p b).2 = true → (p.conns b).busy = false) := by
  unfold checkoutTry
  dsimp only
  split
  · exact ⟨SameBusy.grants fun _ => rfl, nofun⟩
  · rename_i hfree
    have hidle : (p.conns b).busy = false := by
      cases h : (p.conns b).busy with
      | false => rfl
      | true => exact absurd (Or.inr h) hfree
    have hmark : ∀ a, a ≠ b →
        ((p.setConn b { p.conns b with busy := true }).conns a).busy = (p.conns a).busy :=
      fun a hab => by rw [p.setConn_of_ne hab]
    split
    · exact ⟨grants_mark hmark (by simp), fun _ => hidle⟩
    · have hcheck := sameBusy_healthCheck w env (p.setConn b { p.conns b with busy := true }) b
      split
      · rename_i q heq
        rw [heq] at hcheck
        refine ⟨grants_mark (fun a hab => (hcheck a).trans (hmark a hab)) ?_, fun _ => hidle⟩
        rw [hcheck b, Pool.setConn_self]
      · rename_i q heq
        rw [heq] at hcheck
        have hback : SameBusy p (q.setConn b { q.conns b with busy := false }) := by
          intro a
          by_cases hab : a = b
          · rw [hab, Pool.setConn_self, hidle]
          · rw [q.setConn_of_ne hab]
            exact (hcheck a).trans (hmark a hab)
        split
        · exact ⟨hback.grants, nofun⟩
        · have hre := hback.trans
            (sameBusy_reconnect env (q.setConn b { q.conns b with busy := false }) b)
          split
          · rename_i r hr
            rw [hr] at hre
            refine ⟨grants_mark (fun a hab => ?_) (by simp), fun _ => hidle⟩
            rw [r.setConn_of_ne hab]
            exact hre a
          · rename_i r hr
            rw [hr] at hre
            exact ⟨hre.grants, nofun⟩

theorem grants_checkoutScan (group : Text) (order : List Nat) (fallback : Option Nat) (p : Pool) :
    Grants p (checkoutScan w env group order fallback p).1
        (checkoutScan w env group order fallback p).2.1 ∧
      ∀ b, (checkoutScan w env group order fallback p).2.1 = some b → (p.conns b).busy = false := by
  induction order generalizing fallback p with
  | nil => exact ⟨SameBusy.grants fun _ => rfl, nofun⟩
  | cons idx order ih =>
      rw [checkoutScan]
      split
      · exact ih fallback p
      · split
        · obtain ⟨htry, hidle⟩ := grants_checkoutTry w env p idx
          split
          · rename_i q heq
            rw [heq] at htry hidle
            refine ⟨⟨htry.others, htry.granted⟩, ?_⟩
            rintro b ⟨⟩
            exact hidle rfl
          · rename_i q heq
            rw [heq] at htry
            obtain ⟨hgrant, hfree⟩ := ih fallback q
            exact ⟨.of_same htry.none hgrant, fun b hb => (htry.none b).symm.trans (hfree b hb)⟩
        · exact ih _ p

theorem grants_checkoutGroup (group : Text) (order : List Nat) (p : Pool) :
    Grants p (checkoutGroup w env group order p).1 (checkoutGroup w env group order p).2 ∧
      ∀ b, (checkoutGroup w env group order p).2 = some b → (p.conns b).busy = false := by
  induction order generalizing p with
  | nil => exact ⟨SameBusy.grants fun _ => rfl, nofun⟩
  | cons idx order ih =>
      rw [checkoutGroup]
      split
      · obtain ⟨htry, hidle⟩ := grants_checkoutTry w env p idx
        split
        · rename_i q heq
          rw [heq] at htry hidle
          refine ⟨⟨htry.others, htry.granted⟩, ?_⟩
          rintro b ⟨⟩
          exact hidle rfl
        · rename_i q heq
          rw [heq] at htry
          obtain ⟨hgrant, hfree⟩ := ih q
          exact ⟨.of_same htry.none hgrant, fun b hb => (htry.none b).symm.trans (hfree b hb)⟩
      · exact ih p

/-- The lazy loop takes the first connection that is not alive, whoever holds it. -/
theorem grants_checkoutLazy (group : Text) (order : List Nat) (p : Pool) :
    Grants p (checkoutLazy env group order p).1 (checkoutLazy env group order p).2 ∧
      ∀ b, (checkoutLazy env group order p).2 = some b →
        lazySlot order p = some b ∧ (warmOne env p b group).2 = true := by
  unfold lazySlot
  induction order with
  | nil => exact ⟨SameBusy.grants fun _ => rfl, by rintro _ ⟨⟩⟩
  | cons idx order ih =>
      rw [checkoutLazy, List.find?_cons]
      split
      · rename_i halive
        rw [halive]
        exact ih
      · rename_i hdead
        rw [Bool.not_eq_true] at hdead
        rw [hdead]
        obtain ⟨hothers, hfail⟩ := warmOne_marks env p idx group
        split
        · rename_i q heq
          rw [heq] at hothers
          refine ⟨grants_mark (fun a hab => ?_) (by simp [Pool.advanceCursor]), ?_⟩
          · change ((q.setConn idx _).conns a).busy = _
            rw [q.setConn_of_ne hab, hothers a hab]
          · rintro b ⟨⟩
            rw [heq]
            exact ⟨rfl, rfl⟩
        · rename_i q heq
          rw [heq] at hothers hfail
          refine ⟨SameBusy.grants fun a => ?_, by rintro _ ⟨⟩⟩
          by_cases hab : a = idx
          · rw [hab]
            exact hfail rfl
          · rw [hothers a hab]

/-! ### Checkout -/

/-- A checkout marks the connection it hands out. That one was idle, or it is the one of a lazy
login. -/
theorem grants_checkout (p : Pool) (group : Text) :
    Grants p (checkout w env p group).1 (checkout w env p group).2 ∧
      ∀ b, (checkout w env p group).2 = some b → (p.conns b).busy = false ∨
        ∃ q, lazyLogin w env p group = some (q, b) ∧ (warmOne env q b group).2 = true := by
  unfold checkout lazyLogin
  split
  · exact ⟨SameBusy.grants fun _ => rfl, nofun⟩
  · have hmaintain := (poolMaintain_keeps env p).1
    dsimp only
    generalize poolMaintain env p = q at hmaintain ⊢
    generalize searchOrder q = order
    obtain ⟨hscan, hidle⟩ := grants_checkoutScan w env group order none q
    generalize checkoutScan w env group order none q = r at hscan hidle ⊢
    obtain ⟨r, _ | idx, fallback⟩ := r
    · dsimp only at hscan ⊢
      have hr := hmaintain.trans hscan.none
      by_cases hgroup : r.useGroupAsUser = true ∧ group ≠ []
      · rw [if_pos hgroup, if_pos hgroup]
        obtain ⟨hby, hidle'⟩ := grants_checkoutGroup w env group order r
        generalize checkoutGroup w env group order r = g at hby hidle' ⊢
        obtain ⟨t, _ | idx⟩ := g
        · dsimp only at hby ⊢
          by_cases hconnect : t.lazyConnect = true
          · rw [if_pos hconnect, if_pos hconnect]
            obtain ⟨hlazy, hpick⟩ := grants_checkoutLazy env group order t
            refine ⟨.of_same (hr.trans hby.none) hlazy, fun b hb => Or.inr ⟨t, ?_, (hpick b hb).2⟩⟩
            rw [(hpick b hb).1]
            rfl
          · rw [if_neg hconnect]
            exact ⟨(hr.trans hby.none).grants, nofun⟩
        · exact ⟨.of_same hr hby, fun b hb => Or.inl ((hr b).symm.trans (hidle' b hb))⟩
      · rw [if_neg hgroup]
        cases fallback with
        | none => exact ⟨hr.grants, nofun⟩
        | some idx =>
            obtain ⟨htry, hidle'⟩ := grants_checkoutTry w env r idx
            dsimp only
            generalize checkoutTry w env r idx = g at htry hidle' ⊢
            obtain ⟨t, _ | _⟩ := g
            · exact ⟨(hr.trans htry.none).grants, nofun⟩
            · refine ⟨.of_same hr ⟨htry.others, htry.granted⟩, ?_⟩
              rintro b ⟨⟩
              exact Or.inl ((hr idx).symm.trans (hidle' rfl))
    · exact ⟨.of_same hmaintain hscan, fun b hb => Or.inl ((hmaintain b).symm.trans (hidle b hb))⟩

/-- Starting a pipeline marks the connection of its checkout, or gives it back. -/
theorem asyncBegin_marks (p : Pool) (cache : StmtCache) (bind : PqBind) (owner : Identity) :
    (∀ a, (checkout w env p owner.group).2 ≠ some a →
        ((asyncBegin w env p cache bind owner).1.conns a).busy = (p.conns a).busy) ∧
      ∀ b, (asyncBegin w env p cache bind owner).2 = some b →
        (checkout w env p owner.group).2 = some b ∧
          ((asyncBegin w env p cache bind owner).1.conns b).busy = true := by
  obtain ⟨hothers, hgranted⟩ := (grants_checkout w env p owner.group).1
  rcases asyncBegin_cases w env p cache bind owner with heq | ⟨b, c, hb, ⟨wire, buf, len, rfl⟩, heq⟩
  · rw [heq]
    exact ⟨fun a ha => hothers a ha, nofun⟩
  · have hne : ∀ a, (checkout w env p owner.group).2 ≠ some a → a ≠ b := by
      rintro a ha rfl
      exact ha hb
    rcases heq with heq | heq
    · rw [heq]
      refine ⟨fun a ha => ?_, nofun⟩
      rw [checkin, Pool.setConn_of_ne _ (hne a ha), Pool.setConn_of_ne _ (hne a ha)]
      exact hothers a ha
    · rw [heq]
      refine ⟨fun a ha => ?_, ?_⟩
      · rw [Pool.wrote_conns, Pool.setConn_of_ne _ (hne a ha)]
        exact hothers a ha
      · rintro a ⟨⟩
        rw [Pool.wrote_conns, Pool.setConn_self]
        exact ⟨hb, hgranted b hb⟩

/-- The end of a pipeline gives its connection back, whether or not a new login succeeds. -/
theorem asyncFinish_marks (p : Pool) (b : Nat) (failed : Bool) :
    (∀ a, a ≠ b → ((asyncFinish env p b failed).conns a).busy = (p.conns a).busy) ∧
      ((asyncFinish env p b failed).conns b).busy = false := by
  have hlast : ∀ q : Pool, (∀ a, a ≠ b → (q.conns a).busy = (p.conns a).busy) →
      (∀ a, a ≠ b → ((checkin (q.setConn b
          { q.conns b with sendLen := 0, sendOff := 0, recvAccLen := 0 }) b).conns a).busy =
            (p.conns a).busy) ∧
        ((checkin (q.setConn b
          { q.conns b with sendLen := 0, sendOff := 0, recvAccLen := 0 }) b).conns b).busy =
            false := by
    intro q hq
    refine ⟨fun a hab => ?_, by rw [checkin, Pool.setConn_self]⟩
    rw [checkin, Pool.setConn_of_ne _ hab, Pool.setConn_of_ne _ hab]
    exact hq a hab
  unfold asyncFinish
  apply hlast
  split
  · exact fun a _ => rfl
  · have hdown : SameBusy p (p.setConn b (p.conns b).teardownIo) := sameBusy_setConn rfl
    dsimp only
    split
    · intro a hab
      rw [Pool.setConn_of_ne _ hab]
      exact (hdown.trans (sameBusy_reconnect env _ b)) a
    · exact fun a _ => hdown a

end

/-- The connection that a holder applies a call to. -/
def PoolOp.target : PoolOp → Option Nat
  | .checkin b | .markDead b | .reconnect b | .healthCheck b | .asyncFinish b _ => some b
  | _ => none

/-- The connection that a call gives back. -/
def PoolOp.returned : PoolOp → Option Nat
  | .checkin b | .asyncFinish b _ => some b
  | _ => none

/-- A pool, and which of its connections are handed out and not yet given back. -/
structure Lent where
  pool : Pool
  held : Nat → Bool

section

variable (w : Pqwire) (env : Env)

/-- A call by its holder, or by nobody in particular. -/
def lentStep (s : Lent) (op : PoolOp) : Lent where
  pool := (runOp w env s.pool op).1
  held := fun b =>
    (runOp w env s.pool op).2 == some b || (s.held b && !(op.returned == some b))

/-- A call is applied to a connection that the caller holds. -/
def PoolOp.ByHolder (s : Lent) (op : PoolOp) : Prop := ∀ b, op.target = some b → s.held b = true

/-- What is handed out was not held, and maintenance leaves held connections alone. -/
structure Exclusive (s : Lent) (op : PoolOp) : Prop where
  handout : ∀ b, (runOp w env s.pool op).2 = some b → s.held b = false
  maintain : op = .maintain → ∀ b, s.held b = true →
    (runOp w env s.pool op).1.conns b = s.pool.conns b

/-- No lazy login succeeds on a connection that somebody holds. -/
def LoginSpares (s : Lent) (op : PoolOp) : Prop :=
  ∀ group q b, op.group = some group → lazyLogin w env s.pool group = some (q, b) →
    s.held b = true → (warmOne env q b group).2 = false

/-- What is held is marked. -/
def Lent.Marked (s : Lent) : Prop := ∀ b, s.held b = true → (s.pool.conns b).busy = true

variable {w env}

/-- The connection of a checkout is one that nobody holds. -/
theorem checkout_not_held {s : Lent} (hmarked : s.Marked) {op : PoolOp} {group : Text}
    (hgroup : op.group = some group) (hspares : LoginSpares w env s op) {b : Nat}
    (hb : (checkout w env s.pool group).2 = some b) : s.held b = false := by
  cases hheld : s.held b with
  | false => rfl
  | true =>
      rcases (grants_checkout w env s.pool group).2 b hb with hidle | ⟨q, hpick, hwarm⟩
      · rw [hmarked b hheld] at hidle
        cases hidle
      · rw [hspares group q b hgroup hpick hheld] at hwarm
        cases hwarm

theorem exclusive_step {s : Lent} (hmarked : s.Marked) {op : PoolOp}
    (hspares : LoginSpares w env s op) : Exclusive w env s op := by
  refine ⟨fun b hb => ?_, ?_⟩
  · cases op with
    | checkout group => exact checkout_not_held hmarked rfl hspares hb
    | asyncBegin cache bind owner =>
        exact checkout_not_held hmarked rfl hspares
          ((asyncBegin_marks w env s.pool cache bind owner).2 b hb).1
    | _ => cases hb
  · rintro rfl b hheld
    exact (poolMaintain_keeps env s.pool).2 b (hmarked b hheld)

theorem marked_step {s : Lent} (hmarked : s.Marked) {op : PoolOp} (hholder : op.ByHolder s)
    (hspares : LoginSpares w env s op) : (lentStep w env s op).Marked := by
  intro b hb
  -- handed out by this call, or held before it and not given back
  have hcase : (runOp w env s.pool op).2 = some b ∨
      (s.held b = true ∧ op.returned ≠ some b) := by
    simpa [lentStep] using hb
  change ((runOp w env s.pool op).1.conns b).busy = true
  have hsame : SameBusy s.pool (runOp w env s.pool op).1 → (runOp w env s.pool op).2 = none →
      ((runOp w env s.pool op).1.conns b).busy = true := by
    intro hbusy hnone
    rw [hnone] at hcase
    rw [hbusy b]
    exact hmarked b (hcase.resolve_left nofun).1
  cases op with
  | checkout group =>
      obtain ⟨hothers, hgranted⟩ := (grants_checkout w env s.pool group).1
      by_cases hout : (checkout w env s.pool group).2 = some b
      · exact hgranted b hout
      · exact (hothers b hout).trans (hmarked b (hcase.resolve_left hout).1)
  | checkin a =>
      obtain ⟨hheld, hne⟩ := hcase.resolve_left nofun
      have hab : b ≠ a := by
        rintro rfl
        exact hne rfl
      change ((s.pool.setConn a _).conns b).busy = true
      rw [s.pool.setConn_of_ne hab]
      exact hmarked b hheld
  | markDead a => exact hsame (sameBusy_setConn rfl) rfl
  | reconnect a => exact hsame (sameBusy_reconnect env s.pool a) rfl
  | maintain => exact hsame (poolMaintain_keeps env s.pool).1 rfl
  | healthCheck a => exact hsame (sameBusy_healthCheck w env s.pool a) rfl
  | asyncBegin cache bind owner =>
      obtain ⟨hothers, hbegun⟩ := asyncBegin_marks w env s.pool cache bind owner
      rcases hcase with hout | ⟨hheld, -⟩
      · exact (hbegun b hout).2
      · refine (hothers b fun hout => ?_).trans (hmarked b hheld)
        rw [checkout_not_held hmarked rfl hspares hout] at hheld
        cases hheld
  | asyncFinish a failed =>
      obtain ⟨hheld, hne⟩ := hcase.resolve_left nofun
      have hab : b ≠ a := by
        rintro rfl
        exact hne rfl
      exact ((asyncFinish_marks env s.pool a failed).1 b hab).trans (hmarked b hheld)

/-- A connection that is handed out is not handed out again before it is given back, and maintenance
never re-establishes it, in every history of calls by the holders in which no lazy login takes a
connection from its holder. -/
theorem handouts_exclusive (p : Pool) {ops : List PoolOp}
    (hops : Runs.Along (lentStep w env) (fun s op => op.ByHolder s ∧ LoginSpares w env s op)
      ⟨p, fun _ => false⟩ ops) :
    Runs.Along (lentStep w env) (Exclusive w env) ⟨p, fun _ => false⟩ ops := by
  have hstep : ∀ (s : Lent) (op : PoolOp), s.Marked → (op.ByHolder s ∧ LoginSpares w env s op) →
      (lentStep w env s op).Marked ∧ Exclusive w env s op := fun s op hmarked hcond =>
    ⟨marked_step hmarked hcond.1 hcond.2, exclusive_step hmarked hcond.2⟩
  have hstart : Lent.Marked ⟨p, fun _ => false⟩ := nofun
  exact hops.imp hstep hstart

end

/-! A pool whose connections are all logged in as group `a`, with room for no more. -/

def fullConfig : BackendConfig where
  user := "postgres".toList
  useGroupAsUser := true
  groups := "a".toList
  lazyGroupConnect := true
  poolSize := 64
  autoReconnect := true
  healthCheckOnCheckout := false

theorem poolCreate_full : (poolCreate (answering bareResponse) fullConfig).isSome := by
  decide +kernel

def fullPool : Pool := (poolCreate (answering bareResponse) fullConfig).get poolCreate_full

/-- The first connection is handed out, and once it is marked dead a lazy login hands it out again. -/
theorem fullPool_handouts :
    (checkout pgWire (answering bareResponse) fullPool "a".toList).2 = some 0 ∧
      (checkout pgWire (answering bareResponse)
        (markDead (checkout pgWire (answering bareResponse) fullPool "a".toList).1 0)
        "b".toList).2 = some 0 := by
  decide +kernel

section

variable (w : Pqwire) (env : Env) {p : Pool} {group : Text} {b : Nat}

theorem held_checkout (h : (checkout w env p group).2 = some b) :
    (lentStep w env ⟨p, fun _ => false⟩ (.checkout group)).held b = true := by
  change ((checkout w env p group).2 == some b || _) = true
  rw [h, beq_self_eq_true, Bool.true_or]

theorem held_markDead (s : Lent) : (lentStep w env s (.markDead b)).held b = s.held b :=
  Bool.and_true _

/-- A connection that is handed out again after its holder has marked it dead is handed out twice. -/
theorem handed_out_twice (h : (checkout w env p group).2 = some b) {other : Text}
    (hagain : (checkout w env (markDead (checkout w env p group).1 b) other).2 = some b) :
    Runs.Along (lentStep w env) (fun s op => op.ByHolder s) ⟨p, fun _ => false⟩
        [.checkout group, .markDead b, .checkout other] ∧
      ¬ Runs.Along (lentStep w env) (Exclusive w env) ⟨p, fun _ => false⟩
        [.checkout group, .markDead b, .checkout other] := by
  have hheld := held_checkout w env h
  constructor
  · refine ⟨nofun, ?_, nofun, trivial⟩
    rintro a ⟨⟩
    exact hheld
  · rintro ⟨-, -, hlast, -⟩
    have hfree := hlast.handout b hagain
    rw [held_markDead, hheld] at hfree
    cases hfree

end

/-- A connection that its holder has marked dead is logged in again and handed out to another. -/
theorem lazy_login_takes_held :
    Runs.Along (lentStep pgWire (answering bareResponse)) (fun s op => op.ByHolder s)
        ⟨fullPool, fun _ => false⟩
        [.checkout "a".toList, .markDead 0, .checkout "b".toList] ∧
      ¬ Runs.Along (lentStep pgWire (answering bareResponse))
        (Exclusive pgWire (answering bareResponse)) ⟨fullPool, fun _ => false⟩
        [.checkout "a".toList, .markDead 0, .checkout "b".toList] :=
  handed_out_twice pgWire (answering bareResponse) fullPool_handouts.1 fullPool_handouts.2

/-- While a connection is held and dead, the pool is maintained and another one handed out. -/
def fullOps : List PoolOp :=
  [.checkout "a".toList, .markDead 0, .maintain, .checkout "a".toList, .reconnect 0, .checkin 0,
    .checkin 1]

/-- After `n` of the calls, from a pool of which nothing is held. -/
def fullLent (n : Nat) : Lent :=
  (fullOps.take n).foldl (lentStep pgWire (answering bareResponse)) ⟨fullPool, fun _ => false⟩

theorem fullLent_spares : lazyLogin pgWire (answering bareResponse) (fullLent 3).pool "a".toList = none := by
  rw [← Option.isNone_iff_eq_none]
  decide +kernel

theorem byHolder_full : Runs.Along (lentStep pgWire (answering bareResponse))
    (fun s op => op.ByHolder s ∧ LoginSpares pgWire (answering bareResponse) s op)
    ⟨fullPool, fun _ => false⟩ fullOps := by
  have hheld : (fullLent 1).held 0 = true ∧ (fullLent 4).held 0 = true ∧
      (fullLent 5).held 0 = true ∧ (fullLent 6).held 1 = true := by decide +kernel
  obtain ⟨hdead, hlogin, hfirst, hsecond⟩ := hheld
  refine ⟨⟨nofun, ?_⟩, ⟨?_, nofun⟩, ⟨nofun, nofun⟩, ⟨nofun, ?_⟩, ⟨?_, nofun⟩, ⟨?_, nofun⟩, ⟨?_, nofun⟩,
    trivial⟩
  · rintro group q b hgroup hpick hidle
    cases hidle
  · rintro a ⟨⟩
    exact hdead
  · rintro group q b ⟨⟩ hpick
    cases fullLent_spares.symm.trans hpick
  · rintro a ⟨⟩
    exact hlogin
  · rintro a ⟨⟩
    exact hfirst
  · rintro a ⟨⟩
    exact hsecond

theorem handouts_exclusive_full : Runs.Along (lentStep pgWire (answering bareResponse))
    (Exclusive pgWire (answering bareResponse)) ⟨fullPool, fun _ => false⟩ fullOps :=
  handouts_exclusive fullPool byHolder_full
