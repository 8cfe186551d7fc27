import PqProxy.PoolOps
import PqProxy.WirePg

/-! Pools that log in by group: whatever the operations, every live connection is logged in as the
user its slot names, as long as the names fit the slot. -/

section

variable (w : Pqwire) (env : Env)

/-- In a pool that logs in by group every live connection is logged in as the user its slot names. -/
structure Pool.Roles (p : Pool) : Prop where
  role : ∀ b, (p.conns b).alive = true → (p.conns b).role = (p.conns b).loginUser
  short : ∀ b, (p.conns b).loginUser.length < 128
  user : p.user.length < 128
  byGroup : p.useGroupAsUser = true

theorem Text.copyTo_of_lt {t : Text} {size : Nat} (h : t.length < size) : t.copyTo size = t :=
  List.take_of_length_le (by omega)

theorem Text.length_copyTo_lt (t : Text) {size : Nat} (h : 0 < size) :
    (t.copyTo size).length < size := by
  rw [Text.copyTo, List.length_take]
  omega

/-- One slot is written. -/
theorem Pool.Roles.write {p : Pool} (h : p.Roles) {b : Nat} {c : BackendConn}
    (hshort : c.loginUser.length < 128) (hrole : c.alive = true → c.role = c.loginUser) :
    (p.setConn b c).Roles := by
  refine ⟨fun a ha => ?_, fun a => ?_, h.user, h.byGroup⟩
  · by_cases hab : a = b
    · rw [hab, Pool.setConn_self] at ha ⊢
      exact hrole ha
    · rw [p.setConn_of_ne hab] at ha ⊢
      exact h.role a ha
  · by_cases hab : a = b
    · rw [hab, Pool.setConn_self]
      exact hshort
    · rw [p.setConn_of_ne hab]
      exact h.short a

/-- One slot changes, but neither its user nor its session. -/
theorem Pool.Roles.same {p : Pool} (h : p.Roles) {b : Nat} {c : BackendConn}
    (huser : c.loginUser = (p.conns b).loginUser) (hrole : c.role = (p.conns b).role)
    (halive : c.alive = true → (p.conns b).alive = true) : (p.setConn b c).Roles :=
  h.write (by rw [huser]; exact h.short b) fun hc => by rw [huser, hrole]; exact h.role b (halive hc)

theorem Pool.Roles.of_conns {p p' : Pool} (h : p.Roles) (hconns : p'.conns = p.conns)
    (huser : p'.user = p.user) (hgroup : p'.useGroupAsUser = p.useGroupAsUser) : p'.Roles :=
  ⟨by rw [hconns]; exact h.role, by rw [hconns]; exact h.short, by rw [huser]; exact h.user,
    by rw [hgroup]; exact h.byGroup⟩

/-- A login names the user in the slot, and the slot is alive only when the login was for that
user. -/
theorem roles_warmOne {p : Pool} (h : p.Roles) (b : Nat) {user : Text} (huser : user.length < 128) :
    (warmOne env p b user).1.Roles ∧ ((warmOne env p b user).2 = true →
      ((warmOne env p b user).1.conns b).loginUser = user) := by
  have hcopy : user.copyTo 128 = user := Text.copyTo_of_lt huser
  have hdown : (p.setConn b (p.conns b).teardownIo).Roles := h.same rfl rfl nofun
  unfold warmOne
  dsimp only
  split
  · exact ⟨hdown.of_conns rfl rfl rfl, nofun⟩
  · have hnew : (p.setConn b (p.conns b).teardownIo).tick.newSession.Roles :=
      hdown.of_conns rfl rfl rfl
    split
    · exact ⟨hnew.write (h.short b) nofun, nofun⟩
    · rw [hcopy]
      split
      · exact ⟨hnew.write huser nofun, nofun⟩
      · exact ⟨hnew.write huser fun _ => rfl, fun _ => by simp⟩

theorem roles_reconnect {p : Pool} (h : p.Roles) (b : Nat) :
    (reconnect env p b).1.Roles ∧ ((reconnect env p b).2 = true → (p.conns b).loginUser ≠ [] →
      ((reconnect env p b).1.conns b).loginUser = (p.conns b).loginUser) := by
  obtain ⟨hwarm, hname⟩ := roles_warmOne env h b (Text.length_copyTo_lt
    (if (p.conns b).loginUser = [] then p.user else (p.conns b).loginUser) (by decide : 0 < 128))
  unfold reconnect
  dsimp only
  split
  · rename_i q heq
    rw [heq] at hwarm
    exact ⟨hwarm, nofun⟩
  · rename_i q heq
    rw [heq] at hwarm hname
    refine ⟨hwarm.same rfl rfl id, fun _ hne => ?_⟩
    rw [Pool.setConn_self]
    change (q.conns b).loginUser = _
    rw [hname rfl, if_neg hne, Text.copyTo_of_lt (h.short b)]

theorem roles_maintainFrom (bs : List Nat) {p : Pool} (h : p.Roles) :
    (maintainFrom env bs p).Roles := by
  induction bs generalizing p with
  | nil => exact h
  | cons b bs ih =>
      rw [maintainFrom]
      split
      · exact ih (roles_reconnect env h b).1
      · exact ih h

theorem roles_poolMaintain {p : Pool} (h : p.Roles) : (poolMaintain env p).Roles := by
  unfold poolMaintain
  split
  · exact roles_maintainFrom env _ h
  · exact h

theorem roles_flush {p : Pool} (h : p.Roles) (b cap : Nat) (skip : Bool) :
    (flushPipelineEx w env p b cap skip).1.Roles := by
  obtain ⟨huser, hrole, -, halive⟩ := flushConn_session w env p.clock cap skip (p.conns b)
  exact (h.same huser hrole halive).of_conns rfl rfl rfl

theorem roles_healthCheck {p : Pool} (h : p.Roles) (b : Nat) : (healthCheck w env p b).1.Roles := by
  unfold healthCheck
  dsimp only
  split
  · exact h
  · split
    · exact h.same rfl rfl nofun
    · rename_i out _
      have hput : (p.setConn b { p.conns b with wire := some out }).Roles := h.same rfl rfl id
      have hflush := roles_flush w env hput b 2048 false
      split
      · exact hflush.same rfl rfl id
      · exact hflush.same rfl rfl nofun

/-- A try keeps the user of the slot, also when it has to log in again. -/
theorem roles_checkoutTry {p : Pool} (h : p.Roles) (b : Nat) :
    (checkoutTry w env p b).1.Roles ∧ ((checkoutTry w env p b).2 = true →
      (p.conns b).loginUser ≠ [] →
        ((checkoutTry w env p b).1.conns b).loginUser = (p.conns b).loginUser) := by
  unfold checkoutTry
  dsimp only
  split
  · exact ⟨h, nofun⟩
  · have hbusy : (p.setConn b { p.conns b with busy := true }).Roles := h.same rfl rfl id
    split
    · exact ⟨hbusy, fun _ _ => by rw [Pool.setConn_self]⟩
    · have hcheck := roles_healthCheck w env hbusy b
      have huser := (healthCheck_session w env (p.setConn b { p.conns b with busy := true }) b).1
      rw [Pool.setConn_self] at huser
      split
      · rename_i q heq
        rw [heq] at hcheck huser
        exact ⟨hcheck, fun _ _ => huser⟩
      · rename_i q heq
        rw [heq] at hcheck huser
        have hidle : (q.setConn b { q.conns b with busy := false }).Roles := hcheck.same rfl rfl id
        split
        · exact ⟨hidle, nofun⟩
        · obtain ⟨hre, hname⟩ := roles_reconnect env hidle b
          rw [Pool.setConn_self] at hname
          split
          · rename_i r hr
            rw [hr] at hre hname
            refine ⟨hre.same rfl rfl id, fun _ hne => ?_⟩
            rw [Pool.setConn_self]
            change (r.conns b).loginUser = _
            rw [hname rfl (by rw [show (q.conns b).loginUser = _ from huser]; exact hne)]
            exact huser
          · rename_i r hr
            rw [hr] at hre
            exact ⟨hre, nofun⟩

/-! ### Checkout by role -/

theorem roles_checkoutScan {group : Text} (hgroup : group ≠ []) (order : List Nat)
    (fallback : Option Nat) {p : Pool} (h : p.Roles) :
    (checkoutScan w env group order fallback p).1.Roles ∧
      ∀ b, (checkoutScan w env group order fallback p).2.1 = some b →
        ((checkoutScan w env group order fallback p).1.conns b).loginUser = group := by
  induction order generalizing fallback p with
  | nil => exact ⟨h, nofun⟩
  | cons idx order ih =>
      rw [checkoutScan]
      split
      · exact ih fallback h
      · split
        · rename_i hmatch
          obtain ⟨htry, hname⟩ := roles_checkoutTry w env h idx
          split
          · rename_i q heq
            rw [heq] at htry hname
            refine ⟨htry.of_conns rfl rfl rfl, ?_⟩
            rintro b ⟨⟩
            exact (hname rfl (by rw [hmatch.2]; exact hgroup)).trans hmatch.2
          · rename_i q heq
            rw [heq] at htry
            exact ih fallback htry
        · exact ih _ h

theorem roles_checkoutGroup {group : Text} (hgroup : group ≠ []) (order : List Nat) {p : Pool}
    (h : p.Roles) :
    (checkoutGroup w env group order p).1.Roles ∧
      ∀ b, (checkoutGroup w env group order p).2 = some b →
        ((checkoutGroup w env group order p).1.conns b).loginUser = group := by
  induction order generalizing p with
  | nil => exact ⟨h, nofun⟩
  | cons idx order ih =>
      rw [checkoutGroup]
      split
      · rename_i hmatch
        obtain ⟨htry, hname⟩ := roles_checkoutTry w env h idx
        split
        · rename_i q heq
          rw [heq] at htry hname
          refine ⟨htry.of_conns rfl rfl rfl, ?_⟩
          rintro b ⟨⟩
          exact (hname rfl (by rw [hmatch.2.2]; exact hgroup)).trans hmatch.2.2
        · rename_i q heq
          rw [heq] at htry
          exact ih htry
      · exact ih h

theorem roles_checkoutLazy {group : Text} (hlen : group.length < 128) (order : List Nat) {p : Pool}
    (h : p.Roles) :
    (checkoutLazy env group order p).1.Roles ∧
      ∀ b, (checkoutLazy env group order p).2 = some b →
        ((checkoutLazy env group order p).1.conns b).loginUser = group := by
  induction order with
  | nil => exact ⟨h, by rintro _ ⟨⟩⟩
  | cons idx order ih =>
      rw [checkoutLazy]
      split
      · exact ih
      · obtain ⟨hwarm, hname⟩ := roles_warmOne env h idx hlen
        split
        · rename_i q heq
          rw [heq] at hwarm hname
          have hbusy : (q.setConn idx { q.conns idx with busy := true }).Roles :=
            hwarm.same rfl rfl id
          refine ⟨hbusy.of_conns rfl rfl rfl, ?_⟩
          rintro b ⟨⟩
          simpa [Pool.advanceCursor] using hname rfl
        · rename_i q heq
          rw [heq] at hwarm
          exact ⟨hwarm, by rintro _ ⟨⟩⟩

/-- A checkout keeps the roles, and hands out a connection that is logged in as the group. -/
theorem roles_checkout {p : Pool} (h : p.Roles) {group : Text} (hgroup : group ≠ [])
    (hlen : group.length < 128) :
    (checkout w env p group).1.Roles ∧ ∀ b, (checkout w env p group).2 = some b →
      ((checkout w env p group).1.conns b).loginUser = group := by
  unfold checkout
  split
  · exact ⟨h, nofun⟩
  · have hmaintain := roles_poolMaintain env h
    dsimp only
    generalize poolMaintain env p = q at hmaintain ⊢
    generalize searchOrder q = order
    obtain ⟨hscan, hname⟩ := roles_checkoutScan w env hgroup order none hmaintain
    split
    · rename_i r idx _ heq
      rw [heq] at hscan hname
      exact ⟨hscan, fun b hb => hname b hb⟩
    · rename_i r fallback heq
      rw [heq] at hscan
      rw [if_pos ⟨hscan.byGroup, hgroup⟩]
      obtain ⟨hby, hname'⟩ := roles_checkoutGroup w env hgroup order hscan
      split
      · rename_i t idx heq'
        rw [heq'] at hby hname'
        exact ⟨hby, fun b hb => hname' b hb⟩
      · rename_i t heq'
        rw [heq'] at hby
        split
        · exact roles_checkoutLazy env hlen order hby
        · exact ⟨hby, nofun⟩

/-- Without a group any idle connection is handed out. -/
theorem roles_checkout_nil {p : Pool} (h : p.Roles) : (checkout w env p []).1.Roles := by
  have hscan : ∀ (order : List Nat) (fallback : Option Nat) (q : Pool), q.Roles →
      (checkoutScan w env [] order fallback q).1.Roles := by
    intro order
    induction order with
    | nil => exact fun _ _ hq => hq
    | cons idx order ih =>
        intro fallback q hq
        rw [checkoutScan]
        split
        · exact ih fallback q hq
        · rw [if_neg (by simp)]
          exact ih _ q hq
  unfold checkout
  split
  · exact h
  · have hmaintain := roles_poolMaintain env h
    dsimp only
    generalize poolMaintain env p = q at hmaintain ⊢
    have hq := hscan (searchOrder q) none q hmaintain
    split
    · rename_i r idx _ heq
      rw [heq] at hq
      exact hq
    · rename_i r fallback heq
      rw [heq] at hq
      rw [if_neg (by simp)]
      cases fallback with
      | none => exact hq
      | some idx =>
          have htry := (roles_checkoutTry w env hq idx).1
          dsimp only
          split
          · rename_i t heq'
            rw [heq'] at htry
            exact htry.of_conns rfl rfl rfl
          · rename_i t heq'
            rw [heq'] at htry
            exact htry

theorem roles_asyncBegin {p : Pool} (h : p.Roles) (cache : StmtCache) (bind : PqBind)
    (owner : Identity) (hlen : owner.group.length < 128) :
    (asyncBegin w env p cache bind owner).1.Roles := by
  have hout : (checkout w env p owner.group).1.Roles := by
    by_cases hgroup : owner.group = []
    · rw [hgroup]
      exact roles_checkout_nil w env h
    · exact (roles_checkout w env h hgroup hlen).1
  rcases asyncBegin_cases w env p cache bind owner with heq | ⟨b, c, -, ⟨wire, buf, len, rfl⟩, heq⟩
  · rw [heq]
    exact hout
  · have hset := hout.same (b := b) (c := { (checkout w env p owner.group).1.conns b with
      wire := wire, sendBuf := buf, sendLen := len, sendOff := 0, recvAccLen := 0,
      skipParseBind := true, pipeSt := .init }) rfl rfl id
    rcases heq with heq | heq
    · rw [heq]
      exact hset.same rfl rfl id
    · rw [heq]
      exact hset.of_conns rfl rfl rfl

theorem roles_asyncFinish {p : Pool} (h : p.Roles) (b : Nat) (failed : Bool) :
    (asyncFinish env p b failed).Roles := by
  have hlast : ∀ q : Pool, q.Roles → (checkin
      (q.setConn b { q.conns b with sendLen := 0, sendOff := 0, recvAccLen := 0 }) b).Roles := by
    intro q hq
    have hset := hq.same (b := b)
      (c := { q.conns b with sendLen := 0, sendOff := 0, recvAccLen := 0 }) rfl rfl id
    exact hset.same rfl rfl id
  unfold asyncFinish
  apply hlast
  split
  · exact h
  · have hdown : (p.setConn b (p.conns b).teardownIo).Roles := h.same rfl rfl nofun
    dsimp only
    split
    · exact (roles_reconnect env hdown b).1.same rfl rfl id
    · exact hdown

theorem roles_runOp {p : Pool} (h : p.Roles) (op : PoolOp)
    (hop : ∀ group, op.group = some group → group.length < 128) : (runOp w env p op).1.Roles := by
  cases op with
  | checkout group =>
      by_cases hgroup : group = []
      · rw [hgroup]
        exact roles_checkout_nil w env h
      · exact (roles_checkout w env h hgroup (hop group rfl)).1
  | checkin b => exact h.same rfl rfl id
  | markDead b => exact h.same rfl rfl nofun
  | reconnect b => exact (roles_reconnect env h b).1
  | maintain => exact roles_poolMaintain env h
  | healthCheck b => exact roles_healthCheck w env h b
  | asyncBegin cache bind owner => exact roles_asyncBegin w env h cache bind owner (hop _ rfl)
  | asyncFinish b failed => exact roles_asyncFinish env h b failed

end

theorem parseGroupsFrom_short (fuel : Nat) (csv : Text) (n : Nat) :
    ∀ name ∈ parseGroupsFrom fuel csv n, name.length < maxGroupName := by
  induction fuel generalizing csv n with
  | zero => exact nofun
  | succ fuel ih =>
      rw [parseGroupsFrom]
      split
      · exact nofun
      · dsimp only
        split
        · rename_i hname
          intro name hmem
          rcases List.mem_cons.mp hmem with rfl | hmem
          · exact hname.2
          · exact ih _ _ name hmem
        · exact ih _ _

/-- Every slot is warmed up as a group or as the user of the pool. -/
theorem warmPlan_short {groups : List Text} {byGroup : Bool} {user : Text} {n : Nat}
    (hgroups : ∀ name ∈ groups, name.length < 128) (huser : user.length < 128) :
    ∀ x ∈ warmPlan groups byGroup user n, x.2.length < 128 := by
  intro x hx
  unfold warmPlan at hx
  split at hx
  · obtain ⟨⟨name, b⟩, hname, rfl⟩ := List.mem_map.mp hx
    have htaken := List.mem_of_mem_take (List.fst_mem_of_mem_zipIdx hname)
    obtain ⟨⟨group, g⟩, hgroup, hin⟩ := List.mem_flatMap.mp htaken
    rw [show name = group from (List.mem_replicate.mp hin).2]
    exact hgroups _ (List.fst_mem_of_mem_zipIdx hgroup)
  · obtain ⟨b, -, rfl⟩ := List.mem_map.mp hx
    exact huser

theorem roles_warmSlots (env : Env) (plan : List (Nat × Text))
    (hplan : ∀ x ∈ plan, x.2.length < 128) {p : Pool} (h : p.Roles) (ok : Nat) :
    (warmSlots env plan p ok).1.Roles := by
  induction plan generalizing p ok with
  | nil => exact h
  | cons x plan ih =>
      exact ih (fun y hy => hplan y (List.mem_cons_of_mem x hy))
        (roles_warmOne env h x.1 (hplan x List.mem_cons_self)).1 _

theorem poolCreate_roles {env : Env} {cfg : BackendConfig} {p : Pool}
    (hcfg : cfg.useGroupAsUser = true) (h : poolCreate env cfg = some p) : p.Roles := by
  unfold poolCreate at h
  dsimp only at h
  split at h
  · cases h
  · rename_i q n heq
    cases h
    rw [show p = (p, n + 1).1 from rfl, ← heq]
    have huser := Text.length_copyTo_lt (if cfg.user = [] then "postgres".toList else cfg.user)
      (by decide : 0 < 128)
    apply roles_warmSlots
    · refine warmPlan_short ?_ huser
      intro name hname
      have hlt := parseGroupsFrom_short _ _ _ name hname
      unfold maxGroupName at hlt
      omega
    · exact ⟨fun _ => nofun, fun _ => Nat.zero_lt_succ _, huser, hcfg⟩

/-- The state of the pool after a call. -/
def poolStep (w : Pqwire) (env : Env) (p : Pool) (op : PoolOp) : Pool := (runOp w env p op).1

/-- A checkout for a group hands out a live connection whose session is that of the group. -/
def HandsOutRole (w : Pqwire) (env : Env) (p : Pool) (op : PoolOp) : Prop :=
  ∀ group b, op = .checkout group → group ≠ [] → group.length < 128 →
    (runOp w env p op).2 = some b →
      ((runOp w env p op).1.conns b).alive = true ∧
        ((runOp w env p op).1.conns b).loginUser = group ∧
        ((runOp w env p op).1.conns b).role = group

/-- The name of the group fits the field of the slot. -/
def PoolOp.Short (op : PoolOp) : Prop := ∀ group, op.group = some group → group.length < 128

/-- In a pool that logs in by group every connection handed out for a group runs as that group, as
long as no call names a group that is too long for its slot. -/
theorem checkout_as_role (w : Pqwire) {env : Env} {cfg : BackendConfig} {p : Pool}
    (hcfg : cfg.useGroupAsUser = true) (hp : poolCreate env cfg = some p) {ops : List PoolOp}
    (hshort : ∀ op ∈ ops, op.Short) :
    Runs.Along (poolStep w env) (HandsOutRole w env) p ops := by
  have hroles := poolCreate_roles hcfg hp
  clear hp
  induction ops generalizing p with
  | nil => trivial
  | cons op ops ih =>
      have hop := hshort op List.mem_cons_self
      have hnext : (poolStep w env p op).Roles := roles_runOp w env hroles op hop
      refine ⟨?_, ih (fun o ho => hshort o (List.mem_cons_of_mem op ho)) hnext⟩
      rintro group b rfl hgroup hlen hout
      have hheld := (checkout_spec w env p group).found b hout
      have huser := (roles_checkout w env hroles hgroup hlen).2 b hout
      exact ⟨hheld.1.2, huser, (hnext.role b hheld.1.2).trans huser⟩

/-! One warm connection of group `a`, and room for lazy logins. -/

def lazyConfig : BackendConfig where
  user := "postgres".toList
  useGroupAsUser := true
  groups := "a".toList
  lazyGroupConnect := true
  poolSize := 1
  autoReconnect := true
  healthCheckOnCheckout := false

def lazyPool : Pool := (poolCreate (answering bareResponse) lazyConfig).get rfl

theorem lazyPool_eq : poolCreate (answering bareResponse) lazyConfig = some lazyPool :=
  (Option.some_get _).symm

/-- A name that is one byte longer than what the slot stores, and what the slot stores of it. -/
def longGroup : Text := List.replicate 128 'x'

def cutGroup : Text := List.replicate 127 'x'

/-- The session of the long name is handed out for the name it is cut to. -/
theorem checkout_cut_name : ¬ Runs.Along (poolStep pgWire (answering bareResponse))
    (HandsOutRole pgWire (answering bareResponse)) lazyPool
      [.checkout longGroup, .checkin 1, .checkout cutGroup] := by
  rintro ⟨-, -, hlast, -⟩
  have hrole := (hlast cutGroup 1 rfl (by simp [cutGroup]) (by simp [cutGroup])
    (by decide +kernel)).2.2
  revert hrole
  decide +kernel

theorem checkout_as_role_lazy : Runs.Along (poolStep pgWire (answering bareResponse))
    (HandsOutRole pgWire (answering bareResponse)) lazyPool
      [.checkout "b".toList, .checkin 1, .checkout "b".toList] :=
  checkout_as_role pgWire rfl lazyPool_eq (by
    intro op hop group hgroup
    simp only [List.mem_cons, List.not_mem_nil, or_false] at hop
    rcases hop with rfl | rfl | rfl <;> cases hgroup <;> decide)
