import PqProxy.PoolRoles

/-! The name of a slot is the role it is logged in as again after a failure. A login that the server
refuses has written its own name into the slot by then, so the slot keeps the role of its last
session only as long as no login under another name is refused. -/

/-- The name of the slot is as it was, or that of a session that was established since. -/
def NameKept (c c' : BackendConn) : Prop :=
  (c'.loginUser = c.loginUser ∧ c'.role = c.role) ∨ c'.loginUser = c'.role.copyTo 128

theorem NameKept.refl (c : BackendConn) : NameKept c c := .inl ⟨rfl, rfl⟩

theorem NameKept.trans {a b c : BackendConn} (h : NameKept a b) (k : NameKept b c) : NameKept a c := by
  obtain ⟨huser, hrole⟩ | hsession := k
  · obtain ⟨huser', hrole'⟩ | hsession := h
    · exact .inl ⟨huser.trans huser', hrole.trans hrole'⟩
    · exact .inr (by rw [huser, hrole, hsession])
  · exact .inr hsession

/-- The names fit their fields, and what is alive has one. -/
structure Pool.Named (p : Pool) : Prop where
  fits : ∀ b, (p.conns b).loginUser.length < 128
  alive : ∀ b, (p.conns b).alive = true → (p.conns b).loginUser ≠ []
  user_fits : p.user.length < 128
  user_ne : p.user ≠ []

theorem Pool.Named.write {p : Pool} (hp : p.Named) {b : Nat} {c : BackendConn}
    (hfits : c.loginUser.length < 128) (halive : c.alive = true → c.loginUser ≠ []) :
    (p.setConn b c).Named := by
  refine ⟨fun a => ?_, fun a ha => ?_, hp.user_fits, hp.user_ne⟩
  · by_cases hab : a = b
    · rw [hab, Pool.setConn_self]
      exact hfits
    · rw [p.setConn_of_ne hab]
      exact hp.fits a
  · by_cases hab : a = b
    · rw [hab, Pool.setConn_self] at ha ⊢
      exact halive ha
    · rw [p.setConn_of_ne hab] at ha ⊢
      exact hp.alive a ha

theorem Pool.Named.of_conns {p p' : Pool} (hp : p.Named) (hconns : p'.conns = p.conns)
    (huser : p'.user = p.user) : p'.Named := by
  refine ⟨?_, ?_, ?_, ?_⟩
  · rw [hconns]
    exact hp.fits
  · rw [hconns]
    exact hp.alive
  · rw [huser]
    exact hp.user_fits
  · rw [huser]
    exact hp.user_ne

/-- Every slot keeps its name. -/
def KeepsNames (p p' : Pool) : Prop := p.Named → p'.Named ∧ ∀ b, NameKept (p.conns b) (p'.conns b)

namespace KeepsNames

theorem refl (p : Pool) : KeepsNames p p := fun h => ⟨h, fun _ => NameKept.refl _⟩

theorem trans {p q r : Pool} (h : KeepsNames p q) (k : KeepsNames q r) : KeepsNames p r := by
  intro hp
  obtain ⟨hq, hkept⟩ := h hp
  obtain ⟨hr, hkept'⟩ := k hq
  exact ⟨hr, fun b => (hkept b).trans (hkept' b)⟩

theorem of_conns {p p' : Pool} (hconns : p'.conns = p.conns) (huser : p'.user = p.user) :
    KeepsNames p p' := by
  intro hp
  refine ⟨hp.of_conns hconns huser, fun b => ?_⟩
  rw [hconns]
  exact NameKept.refl _

/-- One slot is written with a name that it keeps. -/
theorem write {p : Pool} {b : Nat} {c : BackendConn} (hkept : NameKept (p.conns b) c)
    (hfits : p.Named → c.loginUser.length < 128)
    (halive : p.Named → c.alive = true → c.loginUser ≠ []) : KeepsNames p (p.setConn b c) := by
  intro hp
  refine ⟨hp.write (hfits hp) (halive hp), fun a => ?_⟩
  by_cases hab : a = b
  · rw [hab, Pool.setConn_self]
    exact hkept
  · rw [p.setConn_of_ne hab]
    exact NameKept.refl _

/-- One slot changes, but neither its name nor its session. -/
theorem same {p : Pool} {b : Nat} {c : BackendConn} (huser : c.loginUser = (p.conns b).loginUser)
    (hrole : c.role = (p.conns b).role) (halive : c.alive = true → (p.conns b).alive = true) :
    KeepsNames p (p.setConn b c) := by
  refine write (.inl ⟨huser, hrole⟩) (fun hp => ?_) fun hp hc => ?_
  · rw [huser]
    exact hp.fits b
  · rw [huser]
    exact hp.alive b (halive hc)

end KeepsNames

theorem Text.copyTo_ne_nil {t : Text} (h : t ≠ []) : t.copyTo 128 ≠ [] := by
  cases t with
  | nil => exact absurd rfl h
  | cons c t => simp [Text.copyTo]

section

variable (w : Pqwire) (env : Env)

/-- The server is reached by a login on this slot, and refuses it. -/
def Refuses (p : Pool) (b : Nat) : Prop :=
  (tcpConnect env (p.setConn b (p.conns b).teardownIo)).isSome = true ∧
    env.createWire p.clock = true ∧ env.authenticate p.clock = false

/-- What a login makes of the name of its slot. -/
theorem warmOne_name (p : Pool) (b : Nat) (user : Text) :
    ((warmOne env p b user).2 = true →
        ((warmOne env p b user).1.conns b).loginUser = user.copyTo 128 ∧
          ((warmOne env p b user).1.conns b).role = user) ∧
      ((warmOne env p b user).2 = false →
        ((warmOne env p b user).1.conns b).role = (p.conns b).role ∧
          (Refuses env p b → ((warmOne env p b user).1.conns b).loginUser = user.copyTo 128) ∧
          (¬ Refuses env p b →
            ((warmOne env p b user).1.conns b).loginUser = (p.conns b).loginUser)) := by
  unfold warmOne Refuses
  dsimp only
  cases hconnect : tcpConnect env (p.setConn b (p.conns b).teardownIo) with
  | none =>
      refine ⟨by rintro ⟨⟩, fun _ => ⟨?_, ?_, fun _ => ?_⟩⟩
      · simp [BackendConn.teardownIo, Pool.tick]
      · rintro ⟨hsome, -⟩
        cases hsome
      · simp [BackendConn.teardownIo, Pool.tick]
  | some fd =>
      cases hcreate : env.createWire p.clock with
      | false =>
          refine ⟨by rintro ⟨⟩, fun _ => ⟨?_, ?_, fun _ => ?_⟩⟩
          · simp [BackendConn.teardownIo]
          · rintro ⟨-, htrue, -⟩
            cases htrue
          · simp [BackendConn.teardownIo]
      | true =>
          cases hauth : env.authenticate p.clock with
          | false =>
              refine ⟨by rintro ⟨⟩, fun _ => ⟨?_, fun _ => ?_, fun hnot => ?_⟩⟩
              · simp [BackendConn.teardownIo]
              · simp [BackendConn.teardownIo]
              · exact absurd ⟨rfl, rfl, rfl⟩ hnot
          | true => exact ⟨fun _ => by simp, by rintro ⟨⟩⟩

/-- A failed login leaves the name of its slot alone exactly if the server was not reached, or
refused it under that name. -/
theorem warmOne_failed_iff {p : Pool} {b : Nat} {user : Text}
    (hfailed : (warmOne env p b user).2 = false) :
    ((warmOne env p b user).1.conns b).loginUser = (p.conns b).loginUser ↔
      ¬ (Refuses env p b ∧ user.copyTo 128 ≠ (p.conns b).loginUser) := by
  obtain ⟨-, hrefused, hunreached⟩ := (warmOne_name env p b user).2 hfailed
  by_cases hr : Refuses env p b
  · rw [hrefused hr, not_and, not_not]
    exact ⟨fun h _ => h, fun h => h hr⟩
  · exact ⟨fun _ h => hr h.1, fun _ => hunreached hr⟩

/-- A login writes its own slot only. -/
theorem warmOne_conns (p : Pool) (b : Nat) (user : Text) :
    (warmOne env p b user).1.conns =
        (p.setConn b ((warmOne env p b user).1.conns b)).conns ∧
      (warmOne env p b user).1.user = p.user := by
  constructor
  · funext a
    by_cases hab : a = b
    · rw [hab, Pool.setConn_self]
    · rw [Pool.setConn_of_ne _ hab]
      unfold warmOne
      dsimp only
      split
      · exact Pool.setConn_of_ne _ hab _
      · split
        · exact (Pool.setConn_of_ne _ hab _).trans (Pool.setConn_of_ne _ hab _)
        · split
          · exact (Pool.setConn_of_ne _ hab _).trans (Pool.setConn_of_ne _ hab _)
          · exact (Pool.setConn_of_ne _ hab _).trans (Pool.setConn_of_ne _ hab _)
  · unfold warmOne
    dsimp only
    split
    · rfl
    · split
      · rfl
      · split
        · rfl
        · rfl

theorem keepsNames_warmOne {p : Pool} {b : Nat} {user : Text} (hne : user ≠ [])
    (hown : ¬ (Refuses env p b ∧ user.copyTo 128 ≠ (p.conns b).loginUser)) :
    KeepsNames p (warmOne env p b user).1 := by
  obtain ⟨hconns, huser⟩ := warmOne_conns env p b user
  obtain ⟨hsuccess, hfailure⟩ := warmOne_name env p b user
  have halive := (warmOne_result env p b user).1
  refine KeepsNames.trans (q := p.setConn b ((warmOne env p b user).1.conns b)) ?_
    (.of_conns hconns huser)
  cases hresult : (warmOne env p b user).2 with
  | true =>
      obtain ⟨hname, hrole⟩ := hsuccess hresult
      refine .write (.inr (by rw [hname, hrole])) (fun _ => ?_) fun _ _ => ?_
      · rw [hname]
        exact Text.length_copyTo_lt user (by decide)
      · rw [hname]
        exact Text.copyTo_ne_nil hne
  | false =>
      refine .same ((warmOne_failed_iff env hresult).mpr hown) (hfailure hresult).1 fun h => ?_
      rw [halive, hresult] at h
      cases h

/-- A slot with a name is logged in again under that name. -/
theorem keepsNames_reconnect {p : Pool} {b : Nat}
    (hname : p.Named → (p.conns b).loginUser = [] → ¬ Refuses env p b) :
    KeepsNames p (reconnect env p b).1 := by
  intro hp
  have hwarm : KeepsNames p (warmOne env p b
      ((if (p.conns b).loginUser = [] then p.user else (p.conns b).loginUser).copyTo 128)).1 := by
    apply keepsNames_warmOne
    · apply Text.copyTo_ne_nil
      split
      · exact hp.user_ne
      · assumption
    · rintro ⟨hrefuses, hother⟩
      by_cases hnil : (p.conns b).loginUser = []
      · exact hname hp hnil hrefuses
      · rw [if_neg hnil, Text.copyTo_of_lt (hp.fits b), Text.copyTo_of_lt (hp.fits b)] at hother
        exact hother rfl
  suffices KeepsNames p (reconnect env p b).1 from this hp
  unfold reconnect
  dsimp only
  split
  · rename_i q heq
    rw [heq] at hwarm
    exact hwarm
  · rename_i q heq
    rw [heq] at hwarm
    exact hwarm.trans (.same rfl rfl id)

theorem keepsNames_maintainFrom (bs : List Nat) (p : Pool) : KeepsNames p (maintainFrom env bs p) := by
  induction bs generalizing p with
  | nil => exact .refl p
  | cons b bs ih =>
      rw [maintainFrom]
      split
      · rename_i hdead
        exact (keepsNames_reconnect env fun _ hnil => absurd hnil hdead.2.2).trans (ih _)
      · exact ih p

theorem keepsNames_poolMaintain (p : Pool) : KeepsNames p (poolMaintain env p) := by
  unfold poolMaintain
  split
  · exact keepsNames_maintainFrom env _ p
  · exact .refl p

theorem keepsNames_healthCheck (p : Pool) (b : Nat) : KeepsNames p (healthCheck w env p b).1 := by
  unfold healthCheck
  dsimp only
  split
  · exact .refl p
  · split
    · exact .same rfl rfl nofun
    · rename_i out _
      have hput : KeepsNames p (p.setConn b { p.conns b with wire := some out }) := .same rfl rfl id
      have hflush : ∀ q : Pool, KeepsNames q (flushPipelineEx w env q b 2048 false).1 := by
        intro q
        obtain ⟨huser, hrole, -, halive⟩ := flushConn_session w env q.clock 2048 false (q.conns b)
        exact (KeepsNames.same huser hrole halive).trans (.of_conns rfl rfl)
      split
      · exact (hput.trans (hflush _)).trans (.same rfl rfl id)
      · exact (hput.trans (hflush _)).trans (.same rfl rfl nofun)

/-- A try logs in again under the name that the live slot had. -/
theorem keepsNames_checkoutTry (p : Pool) (b : Nat) : KeepsNames p (checkoutTry w env p b).1 := by
  unfold checkoutTry
  dsimp only
  split
  · exact .refl p
  · rename_i hidle
    rw [not_or, Bool.not_eq_false, Bool.not_eq_true] at hidle
    have hbusy : KeepsNames p (p.setConn b { p.conns b with busy := true }) := .same rfl rfl id
    split
    · exact hbusy
    · have hcheck := hbusy.trans (keepsNames_healthCheck w env _ b)
      have huser := (healthCheck_session w env (p.setConn b { p.conns b with busy := true }) b).1
      rw [Pool.setConn_self] at huser
      split
      · rename_i q heq
        rw [heq] at hcheck
        exact hcheck
      · rename_i q heq
        rw [heq] at hcheck huser
        have hfree := hcheck.trans (.same (b := b) (c := { q.conns b with busy := false }) rfl rfl id)
        split
        · exact hfree
        · intro hp
          have hre := keepsNames_reconnect env (p := q.setConn b { q.conns b with busy := false })
            (b := b) fun _ hnil => by
              rw [Pool.setConn_self] at hnil
              exact absurd (huser.symm.trans hnil) (hp.alive b hidle.1)
          suffices KeepsNames p _ from this hp
          split
          · rename_i r hr
            rw [hr] at hre
            exact (hfree.trans hre).trans (.same rfl rfl id)
          · rename_i r hr
            rw [hr] at hre
            exact hfree.trans hre

/-! ### A checkout -/

theorem keepsNames_checkoutScan (group : Text) (order : List Nat) (fallback : Option Nat) (p : Pool) :
    KeepsNames p (checkoutScan w env group order fallback p).1 := by
  induction order generalizing fallback p with
  | nil => exact .refl p
  | cons idx order ih =>
      rw [checkoutScan]
      split
      · exact ih fallback p
      · split
        · have htry := keepsNames_checkoutTry w env p idx
          split
          · rename_i q heq
            rw [heq] at htry
            exact htry.trans (.of_conns rfl rfl)
          · rename_i q heq
            rw [heq] at htry
            exact htry.trans (ih fallback q)
        · exact ih _ p

theorem keepsNames_checkoutGroup (group : Text) (order : List Nat) (p : Pool) :
    KeepsNames p (checkoutGroup w env group order p).1 := by
  induction order generalizing p with
  | nil => exact .refl p
  | cons idx order ih =>
      rw [checkoutGroup]
      split
      · have htry := keepsNames_checkoutTry w env p idx
        split
        · rename_i q heq
          rw [heq] at htry
          exact htry.trans (.of_conns rfl rfl)
        · rename_i q heq
          rw [heq] at htry
          exact htry.trans (ih q)
      · exact ih p

theorem keepsNames_checkoutLazy {group : Text} (hgroup : group ≠ []) (order : List Nat) (p : Pool)
    (hown : ∀ idx, lazySlot order p = some idx →
      ¬ (Refuses env p idx ∧ group.copyTo 128 ≠ (p.conns idx).loginUser)) :
    KeepsNames p (checkoutLazy env group order p).1 := by
  induction order with
  | nil => exact .refl p
  | cons idx order ih =>
      rw [checkoutLazy]
      split
      · rename_i halive
        apply ih
        intro idx' hidx
        apply hown idx'
        rw [lazySlot, List.find?_cons_of_neg (by simp [halive])]
        exact hidx
      · rename_i hdead
        have hwarm := keepsNames_warmOne env hgroup
          (hown idx (List.find?_cons_of_pos (by simpa using hdead)))
        split
        · rename_i q heq
          rw [heq] at hwarm
          have hbusy : KeepsNames q (q.setConn idx { q.conns idx with busy := true }) :=
            .same rfl rfl id
          exact (hwarm.trans hbusy).trans (.of_conns rfl rfl)
        · rename_i q heq
          rw [heq] at hwarm
          exact hwarm

/-- The lazy login of a checkout is refused, on a slot that had another name. -/
def RefusedLazily (p : Pool) (group : Text) : Prop :=
  ∃ q idx, lazyLogin w env p group = some (q, idx) ∧ Refuses env q idx ∧
    group.copyTo 128 ≠ (q.conns idx).loginUser

theorem keepsNames_checkout {p : Pool} {group : Text} (hown : ¬ RefusedLazily w env p group) :
    KeepsNames p (checkout w env p group).1 := by
  have hlazy : ∀ q idx, lazyLogin w env p group = some (q, idx) →
      ¬ (Refuses env q idx ∧ group.copyTo 128 ≠ (q.conns idx).loginUser) :=
    fun q idx hq hrefused => hown ⟨q, idx, hq, hrefused⟩
  unfold checkout
  unfold lazyLogin at hlazy
  split
  · exact .refl p
  · rename_i hmax
    rw [if_neg hmax] at hlazy
    have hmaintain := keepsNames_poolMaintain env p
    dsimp only at hlazy ⊢
    generalize poolMaintain env p = q at hmaintain hlazy ⊢
    generalize searchOrder q = order at hlazy ⊢
    have hscan := hmaintain.trans (keepsNames_checkoutScan w env group order none q)
    split
    · rename_i r idx _ heq
      rw [heq] at hscan
      exact hscan
    · rename_i r fallback heq
      rw [heq] at hscan hlazy
      dsimp only at hlazy
      by_cases hby : r.useGroupAsUser = true ∧ group ≠ []
      · rw [if_pos hby] at hlazy ⊢
        have hgroup := hscan.trans (keepsNames_checkoutGroup w env group order r)
        split
        · rename_i t idx heq'
          rw [heq'] at hgroup
          exact hgroup
        · rename_i t heq'
          rw [heq'] at hgroup hlazy
          dsimp only at hlazy
          split
          · rename_i hconnect
            rw [if_pos hconnect] at hlazy
            refine hgroup.trans (keepsNames_checkoutLazy env hby.2 order t fun idx hidx => ?_)
            exact hlazy t idx (by rw [hidx, Option.map_some])
          · exact hgroup
      · rw [if_neg hby]
        cases fallback with
        | none => exact hscan
        | some idx =>
            have htry := hscan.trans (keepsNames_checkoutTry w env r idx)
            dsimp only
            split
            · rename_i t heq'
              rw [heq'] at htry
              exact htry.trans (.of_conns rfl rfl)
            · rename_i t heq'
              rw [heq'] at htry
              exact htry

/-! ### Runs -/

/-- A login of the call is refused under another name than that of its slot. -/
def RefusedLogin (p : Pool) : PoolOp → Prop
  | .checkout group => RefusedLazily w env p group
  | .asyncBegin _ _ id => RefusedLazily w env p id.group
  | .reconnect b => (p.conns b).loginUser = [] ∧ Refuses env p b
  | _ => False

theorem keepsNames_asyncBegin {p : Pool} (cache : StmtCache) (bind : PqBind) {id : Identity}
    (hown : ¬ RefusedLazily w env p id.group) : KeepsNames p (asyncBegin w env p cache bind id).1 := by
  have hout := keepsNames_checkout w env hown
  rcases asyncBegin_cases w env p cache bind id with heq | ⟨b, c, -, ⟨wire, buf, len, rfl⟩, heq⟩
  · rw [heq]
    exact hout
  · have hset := hout.trans (.same (b := b) (c := { (checkout w env p id.group).1.conns b with
      wire := wire, sendBuf := buf, sendLen := len, sendOff := 0, recvAccLen := 0,
      skipParseBind := true, pipeSt := .init }) rfl rfl (fun h => h))
    rcases heq with heq | heq
    · rw [heq]
      exact hset.trans (.same rfl rfl (fun h => h))
    · rw [heq]
      exact hset.trans (.of_conns rfl rfl)

theorem keepsNames_asyncFinish (p : Pool) (b : Nat) (failed : Bool) :
    KeepsNames p (asyncFinish env p b failed) := by
  have hlast : ∀ q : Pool, KeepsNames p q → KeepsNames p (checkin
      (q.setConn b { q.conns b with sendLen := 0, sendOff := 0, recvAccLen := 0 }) b) := by
    intro q hq
    have hset := hq.trans (.same (b := b)
      (c := { q.conns b with sendLen := 0, sendOff := 0, recvAccLen := 0 }) rfl rfl id)
    exact hset.trans (.same rfl rfl id)
  unfold asyncFinish
  apply hlast
  split
  · exact .refl p
  · have hdown : KeepsNames p (p.setConn b (p.conns b).teardownIo) := .same rfl rfl nofun
    dsimp only
    split
    · rename_i hnamed
      have hre := hdown.trans (keepsNames_reconnect env fun _ hnil => absurd hnil hnamed.2)
      exact hre.trans (.same rfl rfl id)
    · exact hdown

theorem keepsNames_runOp {p : Pool} {op : PoolOp} (hown : ¬ RefusedLogin w env p op) :
    KeepsNames p (runOp w env p op).1 := by
  cases op with
  | checkout group => exact keepsNames_checkout w env hown
  | checkin b => exact .same rfl rfl id
  | markDead b => exact .same rfl rfl nofun
  | reconnect b => exact keepsNames_reconnect env fun _ hnil hrefuses => hown ⟨hnil, hrefuses⟩
  | maintain => exact keepsNames_poolMaintain env p
  | healthCheck b => exact keepsNames_healthCheck w env p b
  | asyncBegin cache bind id => exact keepsNames_asyncBegin w env cache bind hown
  | asyncFinish b failed => exact keepsNames_asyncFinish env p b failed

/-- A login that fails leaves the name of its slot alone unless it was refused under another one, and
in every run without such a refusal every slot keeps the name it had, or has that of its last
session. -/
theorem names_kept :
    (∀ (p : Pool) (b : Nat) (user : Text), (warmOne env p b user).2 = false →
      (((warmOne env p b user).1.conns b).loginUser = (p.conns b).loginUser ↔
        ¬ (Refuses env p b ∧ user.copyTo 128 ≠ (p.conns b).loginUser))) ∧
      ∀ (p : Pool), p.Named → ∀ ops : List PoolOp,
        Runs.Along (poolStep w env) (fun q op => ¬ RefusedLogin w env q op) p ops →
          ∀ b, NameKept (p.conns b) ((Runs.run (poolStep w env) p ops).conns b) := by
  refine ⟨fun p b user hfailed => warmOne_failed_iff env hfailed, ?_⟩
  intro p hp ops hops
  suffices KeepsNames p (Runs.run (poolStep w env) p ops) from (this hp).2
  refine Runs.Along.invariant (fun q op hq hown => ?_) (.refl p) hops
  exact KeepsNames.trans hq (keepsNames_runOp w env hown)

end

theorem named_warmOne (env : Env) {p : Pool} (hp : p.Named) (b : Nat) {user : Text}
    (hne : user ≠ []) : (warmOne env p b user).1.Named := by
  obtain ⟨hconns, huser⟩ := warmOne_conns env p b user
  obtain ⟨hsuccess, hfailure⟩ := warmOne_name env p b user
  have halive := (warmOne_result env p b user).1
  refine Pool.Named.of_conns (hp.write (b := b) (c := (warmOne env p b user).1.conns b) ?_ ?_)
    hconns huser
  · cases hresult : (warmOne env p b user).2 with
    | true =>
        rw [(hsuccess hresult).1]
        exact Text.length_copyTo_lt user (by decide)
    | false =>
        obtain ⟨-, hrefused, hunreached⟩ := hfailure hresult
        by_cases hr : Refuses env p b
        · rw [hrefused hr]
          exact Text.length_copyTo_lt user (by decide)
        · rw [hunreached hr]
          exact hp.fits b
  · intro h
    rw [(hsuccess (halive.symm.trans h)).1]
    exact Text.copyTo_ne_nil hne

theorem named_warmSlots (env : Env) (plan : List (Nat × Text)) (hplan : ∀ x ∈ plan, x.2 ≠ [])
    {p : Pool} (hp : p.Named) (ok : Nat) : (warmSlots env plan p ok).1.Named := by
  induction plan generalizing p ok with
  | nil => exact hp
  | cons x plan ih =>
      exact ih (fun y hy => hplan y (List.mem_cons_of_mem x hy))
        (named_warmOne env hp x.1 (hplan x List.mem_cons_self)) _

theorem parseGroupsFrom_ne (fuel : Nat) (csv : Text) (n : Nat) :
    ∀ name ∈ parseGroupsFrom fuel csv n, name ≠ [] := by
  induction fuel generalizing csv n with
  | zero => rintro _ ⟨⟩
  | succ fuel ih =>
      rw [parseGroupsFrom]
      split
      · rintro _ ⟨⟩
      · dsimp only
        split
        · rename_i hname
          intro name hmem
          rcases List.mem_cons.mp hmem with rfl | hmem
          · exact hname.1
          · exact ih _ _ name hmem
        · exact ih _ _

/-- A slot is warmed up as one of the groups, or as the user of the pool. -/
theorem warmPlan_mem {groups : List Text} {byGroup : Bool} {user : Text} {n : Nat} :
    ∀ x ∈ warmPlan groups byGroup user n, x.2 ∈ groups ∨ x.2 = user := by
  intro x hx
  unfold warmPlan at hx
  split at hx
  · dsimp only at hx
    obtain ⟨⟨name, b⟩, hname, rfl⟩ := List.mem_map.mp hx
    have htaken := List.mem_of_mem_take (List.fst_mem_of_mem_zipIdx hname)
    obtain ⟨⟨group, g⟩, hgroup, hin⟩ := List.mem_flatMap.mp htaken
    rw [show name = group from (List.mem_replicate.mp hin).2]
    exact .inl (List.fst_mem_of_mem_zipIdx hgroup)
  · obtain ⟨b, -, rfl⟩ := List.mem_map.mp hx
    exact .inr rfl

theorem poolCreate_named {env : Env} {cfg : BackendConfig} {p : Pool}
    (h : poolCreate env cfg = some p) : p.Named := by
  unfold poolCreate at h
  dsimp only at h
  split at h
  · cases h
  · rename_i q n heq
    cases h
    rw [show p = (p, n + 1).1 from rfl, ← heq]
    have huser : (if cfg.user = [] then "postgres".toList else cfg.user) ≠ [] := by
      split
      · decide
      · assumption
    apply named_warmSlots
    · intro x hx
      obtain hgroup | hdefault := warmPlan_mem x hx
      · exact parseGroupsFrom_ne _ _ _ _ hgroup
      · rw [hdefault]
        exact Text.copyTo_ne_nil huser
    · exact ⟨fun _ => Nat.zero_lt_succ _, fun _ => nofun, Text.length_copyTo_lt _ (by decide),
        Text.copyTo_ne_nil huser⟩

/-- Without refusals every slot keeps its name, here after a login for another group. -/
theorem names_kept_calm : NameKept (lazyPool.conns 0)
    ((Runs.run (poolStep pgWire (answering bareResponse)) lazyPool
      [.markDead 0, .checkout "b".toList]).conns 0) := by
  have hcalm : ∀ q b, ¬ Refuses (answering bareResponse) q b := by
    rintro q b ⟨-, -, hrefused⟩
    cases hrefused
  refine (names_kept pgWire (answering bareResponse)).2 lazyPool (poolCreate_named lazyPool_eq)
    [.markDead 0, .checkout "b".toList] ⟨id, ?_, trivial⟩ 0
  rintro ⟨q, idx, -, hrefused, -⟩
  exact hcalm q idx hrefused

/-- The server accepts the first login and no other. -/
def refusing : Env := { answering bareResponse with authenticate := fun now => now == 0 }

/-- A dead connection of group `a`, and a client of group `b`: the slot belongs to `b` now. -/
theorem not_names_kept :
    ∃ p, poolCreate refusing lazyConfig = some p ∧
      ¬ NameKept (p.conns 0) ((Runs.run (poolStep pgWire refusing) p
        [.markDead 0, .checkout "b".toList]).conns 0) := by
  refine ⟨(poolCreate refusing lazyConfig).get rfl, (Option.some_get _).symm, ?_⟩
  rintro (⟨hname, -⟩ | hname)
  · revert hname
    decide +kernel
  · revert hname
    decide +kernel
