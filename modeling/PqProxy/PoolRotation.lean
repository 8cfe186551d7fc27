import PqProxy.PoolSearch
import PqProxy.Rotation

/-! The rotation of checkouts in a pool that logs in by group and makes no health checks. All groups
share one cursor: the connections of a group are handed out in turn as long as no checkout for
another group moves the cursor past one of them. -/

section

variable (w : Pqwire) (env : Env)

/-- Live connections are as they were, and so is the cursor. -/
structure Steady (p p' : Pool) : Prop where
  cfg : p'.cfg = p.cfg
  maxConns : p'.maxConns = p.maxConns
  byGroup : p'.useGroupAsUser = p.useGroupAsUser
  cursor : p'.rrCursor = p.rrCursor
  alive : ∀ a, (p.conns a).alive = true → p'.conns a = p.conns a

namespace Steady

theorem refl (p : Pool) : Steady p p := ⟨rfl, rfl, rfl, rfl, fun _ _ => rfl⟩

theorem trans {p q r : Pool} (h : Steady p q) (k : Steady q r) : Steady p r where
  cfg := k.cfg.trans h.cfg
  maxConns := k.maxConns.trans h.maxConns
  byGroup := k.byGroup.trans h.byGroup
  cursor := k.cursor.trans h.cursor
  alive a ha := by
    have hq := h.alive a ha
    rw [k.alive a (by rw [hq]; exact ha), hq]

theorem of_slotOnly {b : Nat} {p p' : Pool} (h : SlotOnly b p p') (hdead : (p.conns b).alive = false) :
    Steady p p' := by
  refine ⟨h.cfg, h.maxConns, h.byGroup, h.cursor, fun a ha => h.others a ?_⟩
  rintro rfl
  rw [hdead] at ha
  cases ha

end Steady

theorem steady_poolMaintain (p : Pool) : Steady p (poolMaintain env p) := by
  have hfrom : ∀ (bs : List Nat) (p : Pool), Steady p (maintainFrom env bs p) := by
    intro bs
    induction bs with
    | nil => exact Steady.refl
    | cons b bs ih =>
        intro p
        rw [maintainFrom]
        split
        · rename_i hdead
          exact (Steady.of_slotOnly (slotOnly_reconnect env p b) hdead.2.1).trans (ih _)
        · exact ih p
  unfold poolMaintain
  split
  · exact hfrom _ p
  · exact .refl p

/-- What a checkout without health checks does: it takes an idle connection or a dead slot and moves
the cursor behind it, or leaves the cursor where it is. -/
structure Handed (p p' : Pool) (r : Option Nat) : Prop where
  cfg : p'.cfg = p.cfg
  maxConns : p'.maxConns = p.maxConns
  byGroup : p'.useGroupAsUser = p.useGroupAsUser
  alive : ∀ b, (p.conns b).alive = true → r ≠ some b → p'.conns b = p.conns b
  lt : ∀ b, r = some b → b < p.maxConns
  cursor : ∀ b, r = some b → p'.rrCursor = (b + 1) % p.maxConns
  taken : ∀ b, r = some b → (p.conns b).alive = true →
    (p.conns b).busy = false ∧ p'.conns b = { p.conns b with busy := true }
  missed : r = none → p'.rrCursor = p.rrCursor

namespace Handed

theorem of_steady {p q p' : Pool} {r : Option Nat} (h : Steady p q) (k : Handed q p' r) :
    Handed p p' r where
  cfg := k.cfg.trans h.cfg
  maxConns := k.maxConns.trans h.maxConns
  byGroup := k.byGroup.trans h.byGroup
  alive b hb hr := by
    have hq := h.alive b hb
    rw [k.alive b (by rw [hq]; exact hb) hr, hq]
  lt b hr := h.maxConns ▸ k.lt b hr
  cursor b hr := h.maxConns ▸ k.cursor b hr
  taken b hr hb := by
    have hq := h.alive b hb
    rw [← hq] at hb ⊢
    exact k.taken b hr hb
  missed hr := (k.missed hr).trans h.cursor

theorem missing {p p' : Pool} (h : Steady p p') : Handed p p' none where
  cfg := h.cfg
  maxConns := h.maxConns
  byGroup := h.byGroup
  alive b hb _ := h.alive b hb
  lt _ hr := by cases hr
  cursor _ hr := by cases hr
  taken _ hr := by cases hr
  missed _ := h.cursor

theorem take {p : Pool} {b : Nat} (hlt : b < p.maxConns) (hidle : (p.conns b).busy = false) :
    Handed p ((p.setConn b { p.conns b with busy := true }).advanceCursor b) (some b) where
  cfg := rfl
  maxConns := rfl
  byGroup := rfl
  alive a _ ha := p.setConn_of_ne (fun h => ha (by rw [h])) _
  lt a ha := by
    obtain rfl := Option.some.inj ha
    exact hlt
  cursor a ha := by
    obtain rfl := Option.some.inj ha
    rfl
  taken a ha _ := by
    obtain rfl := Option.some.inj ha
    exact ⟨hidle, Pool.setConn_self ..⟩
  missed h := by cases h

/-- A slot that was dead is taken. -/
theorem login {p q : Pool} {b : Nat} (hlt : b < p.maxConns) (h : SlotOnly b p q)
    (hdead : (p.conns b).alive = false) :
    Handed p ((q.setConn b { q.conns b with busy := true }).advanceCursor b) (some b) where
  cfg := h.cfg
  maxConns := h.maxConns
  byGroup := h.byGroup
  alive a _ ha := by
    have hab : a ≠ b := fun h => ha (by rw [h])
    exact (q.setConn_of_ne hab _).trans (h.others a hab)
  lt a ha := by
    obtain rfl := Option.some.inj ha
    exact hlt
  cursor a ha := by
    obtain rfl := Option.some.inj ha
    rw [← h.maxConns]
    rfl
  taken a ha halive := by
    obtain rfl := Option.some.inj ha
    rw [hdead] at halive
    cases halive
  missed h := by cases h

end Handed

theorem checkoutTry_off {p : Pool} {b : Nat} (hoff : p.cfg.healthCheckOnCheckout = false)
    (halive : (p.conns b).alive = true) (hidle : (p.conns b).busy = false) :
    checkoutTry w env p b = (p.setConn b { p.conns b with busy := true }, true) := by
  unfold checkoutTry
  dsimp only
  rw [if_neg (by simp [halive, hidle])]
  exact if_pos hoff

/-- Without health checks the scan takes the first candidate. -/
theorem checkoutScan_off {p : Pool} (hoff : p.cfg.healthCheckOnCheckout = false) (group : Text)
    (order : List Nat) (fallback : Option Nat) :
    (∀ idx, order.find? (isCandidate p group) = some idx →
        (checkoutScan w env group order fallback p).1 =
            (p.setConn idx { p.conns idx with busy := true }).advanceCursor idx ∧
          (checkoutScan w env group order fallback p).2.1 = some idx) ∧
      (order.find? (isCandidate p group) = none →
        (checkoutScan w env group order fallback p).1 = p ∧
          (checkoutScan w env group order fallback p).2.1 = none) := by
  induction order generalizing fallback with
  | nil => exact ⟨by rintro _ ⟨⟩, fun _ => ⟨rfl, rfl⟩⟩
  | cons b order ih =>
      rw [checkoutScan]
      by_cases hcandidate : isCandidate p group b = true
      · obtain ⟨halive, hidle, hmatch⟩ := isCandidate_iff.mp hcandidate
        have hgroup : group ≠ [] ∧ (p.conns b).loginUser = group := hmatch
        rw [List.find?_cons_of_pos hcandidate, if_neg (by simp [halive, hidle]), if_pos hgroup,
          checkoutTry_off w env hoff halive hidle]
        refine ⟨?_, by rintro ⟨⟩⟩
        rintro idx ⟨⟩
        exact ⟨rfl, rfl⟩
      · rw [List.find?_cons_of_neg hcandidate]
        split
        · exact ih fallback
        · rename_i hskip
          obtain ⟨hlive, hidle⟩ := not_or.mp hskip
          rw [if_neg]
          · exact ih _
          · intro hmatch
            exact hcandidate (isCandidate_iff.mpr
              ⟨(Bool.not_eq_false _).mp hlive, (Bool.not_eq_true _).mp hidle, hmatch⟩)

theorem checkoutGroup_off {p : Pool} {group : Text} {order : List Nat} (hgroup : group ≠ [])
    (hnone : order.find? (isCandidate p group) = none) : checkoutGroup w env group order p = (p, none) := by
  induction order with
  | nil => rfl
  | cons b order ih =>
      rw [List.find?_cons] at hnone
      rw [checkoutGroup, if_neg]
      · refine ih ?_
        split at hnone
        · cases hnone
        · exact hnone
      · rintro ⟨halive, hidle, hmatch⟩
        rw [isCandidate_iff.mpr ⟨halive, hidle, hgroup, hmatch⟩] at hnone
        cases hnone

theorem handed_checkoutLazy (group : Text) (order : List Nat) (p : Pool)
    (horder : ∀ idx ∈ order, idx < p.maxConns) :
    Handed p (checkoutLazy env group order p).1 (checkoutLazy env group order p).2 := by
  induction order with
  | nil => exact .missing (.refl p)
  | cons b order ih =>
      rw [checkoutLazy]
      split
      · exact ih fun idx hidx => horder idx (List.mem_cons_of_mem b hidx)
      · rename_i hdead
        have hslot := slotOnly_warmOne env p b group
        rw [Bool.not_eq_true] at hdead
        split
        · rename_i q heq
          rw [heq] at hslot
          exact .login (horder b List.mem_cons_self) hslot hdead
        · rename_i q heq
          rw [heq] at hslot
          exact .missing (.of_slotOnly hslot hdead)

theorem handed_checkout {p : Pool} (hoff : p.cfg.healthCheckOnCheckout = false) (group : Text) :
    Handed p (checkout w env p group).1 (checkout w env p group).2 := by
  unfold checkout
  split
  · exact .missing (.refl p)
  · have hmaintain := steady_poolMaintain env p
    rw [← hmaintain.cfg] at hoff
    dsimp only
    generalize poolMaintain env p = q at hmaintain hoff ⊢
    refine .of_steady hmaintain ?_
    obtain ⟨hfound, hmissed⟩ := checkoutScan_off w env hoff group (searchOrder q) none
    have hfallback := (checkoutScan_turns w env group (nodup_searchOrder q) []
      (fun _ _ h => by cases h) none (.refl w q)).2
    have horder : ∀ idx ∈ searchOrder q, idx < q.maxConns := fun _ => searchOrder_lt
    generalize searchOrder q = order at hfound hmissed hfallback horder ⊢
    generalize checkoutScan w env group order none q = result at hfound hmissed hfallback ⊢
    obtain ⟨r, found, fallback⟩ := result
    dsimp only at hfound hmissed hfallback
    cases hfind : order.find? (isCandidate q group) with
    | some idx =>
        obtain ⟨rfl, rfl⟩ := hfound idx hfind
        have hcandidate := isCandidate_iff.mp (List.find?_some hfind)
        exact .take (horder idx (List.mem_of_find?_eq_some hfind)) hcandidate.2.1
    | none =>
        obtain ⟨rfl, rfl⟩ := hmissed hfind
        have hslot := (hfallback rfl).2
        dsimp only
        by_cases hby : r.useGroupAsUser = true ∧ group ≠ []
        · rw [if_pos hby, checkoutGroup_off w env hby.2 hfind]
          dsimp only
          split
          · exact handed_checkoutLazy env group order r horder
          · exact .missing (.refl r)
        · rw [if_neg hby]
          cases fallback with
          | none => exact .missing (.refl r)
          | some f =>
              rw [Option.none_or] at hslot
              have hf := List.find?_some hslot.symm
              rw [Bool.and_eq_true, Bool.and_eq_true, Bool.not_eq_true'] at hf
              dsimp only
              rw [checkoutTry_off w env hoff hf.1.1 hf.1.2]
              exact .take (horder f (List.mem_of_find?_eq_some hslot.symm)) hf.1.2

/-! ### Turns -/

/-- A checkout for the group, and the checkin of what it hands out. -/
def turn (p : Pool) (group : Text) : Pool × Option Nat :=
  match checkout w env p group with
  | (p, some b) => (checkin p b, some b)
  | (p, none) => (p, none)

def turnStep (p : Pool) (group : Text) : Pool := (turn w env p group).1

/-- What the turns of one group hand out. -/
def served (group : Text) : Pool → List Text → List (Option Nat)
  | _, [] => []
  | p, g :: turns =>
      if g = group then (turn w env p g).2 :: served group (turnStep w env p g) turns
      else served group (turnStep w env p g) turns

/-- The live connections of a group. -/
def ownConns (p : Pool) (group : Text) : List Nat :=
  (List.range p.maxConns).filter fun b =>
    (p.conns b).alive && decide ((p.conns b).loginUser = group)

/-- A turn of another group does not move the cursor past a connection of this one. -/
def PassesNone (p : Pool) (group other : Text) : Prop :=
  ∀ idx, (checkout w env p other).2 = some idx → ∀ b ∈ ownConns p group,
    Rotation.offset p.maxConns p.rrCursor idx < Rotation.offset p.maxConns p.rrCursor b

/-- The pool logs in by group, makes no health checks, and these are idle connections of the group. -/
structure Rotates (p : Pool) (group : Text) (m : Nat) (members : List Nat) : Prop where
  byGroup : p.useGroupAsUser = true
  off : p.cfg.healthCheckOnCheckout = false
  maxConns : p.maxConns = m
  alive : ∀ b ∈ members, (p.conns b).alive = true
  idle : ∀ b ∈ members, (p.conns b).busy = false
  role : ∀ b ∈ members, (p.conns b).loginUser = group

theorem turn_found (p : Pool) (group : Text) : (turn w env p group).2 = (checkout w env p group).2 := by
  unfold turn
  split
  · rename_i heq
    rw [heq]
  · rename_i heq
    rw [heq]

/-- What a turn does: an idle connection that was taken is idle again. -/
structure Turned (p p' : Pool) (r : Option Nat) : Prop where
  cfg : p'.cfg = p.cfg
  maxConns : p'.maxConns = p.maxConns
  byGroup : p'.useGroupAsUser = p.useGroupAsUser
  idle : ∀ b, (p.conns b).alive = true → (p.conns b).busy = false → p'.conns b = p.conns b
  lt : ∀ b, r = some b → b < p.maxConns
  cursor : ∀ b, r = some b → p'.rrCursor = (b + 1) % p.maxConns
  missed : r = none → p'.rrCursor = p.rrCursor

theorem turned_turn {p : Pool} (hoff : p.cfg.healthCheckOnCheckout = false) (group : Text) :
    Turned p (turn w env p group).1 (turn w env p group).2 := by
  have hhanded := handed_checkout w env hoff group
  unfold turn
  split
  · rename_i q b heq
    rw [heq] at hhanded
    refine ⟨hhanded.cfg, hhanded.maxConns, hhanded.byGroup, fun a ha hidle => ?_, hhanded.lt,
      hhanded.cursor, hhanded.missed⟩
    by_cases hab : a = b
    · subst hab
      have htaken := (hhanded.taken a rfl ha).2
      dsimp only at htaken ⊢
      rw [checkin, Pool.setConn_self, htaken, ← hidle]
    · have hsame := hhanded.alive a ha (fun h => hab (Option.some.inj h).symm)
      exact (q.setConn_of_ne hab _).trans hsame
  · rename_i q heq
    rw [heq] at hhanded
    exact ⟨hhanded.cfg, hhanded.maxConns, hhanded.byGroup, fun a ha _ => hhanded.alive a ha nofun,
      nofun, nofun, hhanded.missed⟩

theorem Rotates.after {p : Pool} {group : Text} {m : Nat} {members : List Nat}
    (h : Rotates p group m members) (other : Text) :
    Rotates (turnStep w env p other) group m members := by
  have hturned := turned_turn w env h.off other
  have hsame : ∀ b ∈ members, (turnStep w env p other).conns b = p.conns b := fun b hb =>
    hturned.idle b (h.alive b hb) (h.idle b hb)
  refine ⟨hturned.byGroup.trans h.byGroup, ?_, hturned.maxConns.trans h.maxConns, ?_, ?_, ?_⟩
  · rw [turnStep, hturned.cfg]
    exact h.off
  · intro b hb
    rw [hsame b hb]
    exact h.alive b hb
  · intro b hb
    rw [hsame b hb]
    exact h.idle b hb
  · intro b hb
    rw [hsame b hb]
    exact h.role b hb

/-- The first slot with a property, in the order of a search. -/
theorem find_searchOrder {p : Pool} {P : Nat → Bool} {b : Nat} (hb : b < p.maxConns)
    (hP : P b = true) : ∃ idx, (searchOrder p).find? P = some idx ∧ idx < p.maxConns ∧
      ∀ s < p.maxConns, P s = true →
        Rotation.offset p.maxConns p.rrCursor idx ≤ Rotation.offset p.maxConns p.rrCursor s := by
  cases hfind : (searchOrder p).find? P with
  | none => exact absurd hP (by simpa using List.find?_eq_none.mp hfind b (mem_searchOrder hb))
  | some idx =>
      have hidx := searchOrder_lt (List.mem_of_find?_eq_some hfind)
      refine ⟨idx, rfl, hidx, fun s hs hPs => ?_⟩
      rw [searchOrder, List.find?_map, Option.map_eq_some_iff] at hfind
      obtain ⟨i, hi, hiidx⟩ := hfind
      obtain ⟨-, hlt, hbefore⟩ := List.find?_range_eq_some.mp hi
      rw [Nat.mod_add_mod] at hiidx
      rw [Rotation.offset_unique (List.mem_range.mp hlt) hiidx]
      by_contra hless
      have hnot := hbefore _ (Nat.lt_of_not_le hless)
      rw [Function.comp_apply, Nat.mod_add_mod, Rotation.add_offset p.rrCursor hs, hPs] at hnot
      cases hnot

/-- A turn of the group takes the first of its connections behind the cursor. -/
theorem Rotates.own {p : Pool} {group : Text} {m : Nat} {members : List Nat}
    (h : Rotates p group m members) (hgroup : group ≠ []) (hmembers : ∀ b ∈ members, b < m)
    (hne : members ≠ []) :
    ∃ idx, (turn w env p group).2 = some idx ∧
      ∀ b ∈ members, Rotation.offset m p.rrCursor idx ≤ Rotation.offset m p.rrCursor b := by
  have hmaintain := steady_poolMaintain env p
  have hcandidate : ∀ b ∈ members, isCandidate (poolMaintain env p) group b = true := by
    intro b hb
    rw [isCandidate_iff, hmaintain.alive b (h.alive b hb)]
    exact ⟨h.alive b hb, h.idle b hb, hgroup, h.role b hb⟩
  have hmax : (poolMaintain env p).maxConns = m := hmaintain.maxConns.trans h.maxConns
  obtain ⟨b, hb⟩ := List.exists_mem_of_ne_nil members hne
  obtain ⟨idx, hfind, hidx, hfirst⟩ := find_searchOrder (p := poolMaintain env p)
    (by rw [hmax]; exact hmembers b hb) (hcandidate b hb)
  rw [hmax, hmaintain.cursor] at hfirst
  refine ⟨idx, ?_, fun s hs => hfirst s (hmembers s hs) (hcandidate s hs)⟩
  have hoff : (poolMaintain env p).cfg.healthCheckOnCheckout = false := by
    rw [hmaintain.cfg]
    exact h.off
  obtain ⟨-, hfound⟩ := (checkoutScan_off w env hoff group (searchOrder (poolMaintain env p)) none).1
    idx hfind
  have hpos : p.maxConns ≠ 0 := by
    have := hmembers b hb
    rw [h.maxConns]
    omega
  cases hscan : checkoutScan w env group (searchOrder (poolMaintain env p)) none (poolMaintain env p) with
  | mk r result =>
      obtain ⟨found, fallback⟩ := result
      rw [hscan] at hfound
      dsimp only at hfound
      subst hfound
      rw [turn_found, checkout_scan w env hpos hscan]

/-! ### The rotation of a group -/

/-- The turns as moves of the cursor. -/
def turnEvents (group : Text) : Pool → List Text → List Rotation.Event
  | _, [] => []
  | p, g :: turns =>
      match (turn w env p g).2 with
      | some idx =>
          (if g = group then .serve idx else .pass idx) ::
            turnEvents group (turnStep w env p g) turns
      | none => turnEvents group (turnStep w env p g) turns

theorem Rotates.fair {p : Pool} {group : Text} {m : Nat} {members : List Nat}
    (h : Rotates p group m members) (hgroup : group ≠ []) (hmembers : ∀ b ∈ members, b < m)
    (hne : members ≠ []) {turns : List Text}
    (hturns : Runs.Along (turnStep w env) (fun q g => g ≠ group → PassesNone w env q group g) p turns) :
    Rotation.Fair m members p.rrCursor (turnEvents w env group p turns) ∧
      served w env group p turns =
        (Rotation.served (turnEvents w env group p turns)).map some := by
  induction turns generalizing p with
  | nil => exact ⟨trivial, rfl⟩
  | cons g turns ih =>
      obtain ⟨hpasses, hrest⟩ := hturns
      obtain ⟨hfair, hserved⟩ := ih (h.after w env g) hrest
      have hturned := turned_turn w env h.off g
      rw [served, turnEvents]
      cases hfound : (turn w env p g).2 with
      | none =>
          have hcursor : (turnStep w env p g).rrCursor = p.rrCursor := hturned.missed hfound
          rw [hcursor] at hfair
          refine ⟨hfair, ?_⟩
          rw [if_neg, hserved]
          rintro rfl
          obtain ⟨idx, hidx, -⟩ := h.own w env hgroup hmembers hne
          rw [hfound] at hidx
          cases hidx
      | some idx =>
          have hcursor : (turnStep w env p g).rrCursor = (idx + 1) % m := by
            rw [← h.maxConns]
            exact hturned.cursor idx hfound
          have hlt : idx < m := by
            rw [← h.maxConns]
            exact hturned.lt idx hfound
          rw [hcursor] at hfair
          by_cases hown : g = group
          · subst hown
            obtain ⟨idx', hidx', hfirst⟩ := h.own w env hgroup hmembers hne
            rw [hfound] at hidx'
            obtain rfl := Option.some.inj hidx'
            dsimp only
            rw [if_pos rfl, if_pos rfl]
            refine ⟨⟨⟨hlt, hfirst⟩, hfair⟩, ?_⟩
            rw [Rotation.served, List.map_cons, hserved]
          · dsimp only
            rw [if_neg hown, if_neg hown]
            refine ⟨⟨⟨hlt, fun b hb => ?_⟩, hfair⟩, ?_⟩
            · rw [turn_found] at hfound
              have hpass := hpasses hown idx hfound b (List.mem_filter.mpr
                ⟨List.mem_range.mpr (by rw [h.maxConns]; exact hmembers b hb),
                  by simp [h.alive b hb, h.role b hb]⟩)
              rw [h.maxConns] at hpass
              exact hpass
            · rw [Rotation.served, hserved]

/-- As long as no turn of another group moves the cursor past a connection of this one, as many
consecutive turns as it has connections get different ones. -/
theorem checkouts_rotate (p : Pool) (group : Text) (hgroup : group ≠ [])
    (hby : p.useGroupAsUser = true) (hoff : p.cfg.healthCheckOnCheckout = false)
    (hidle : ∀ b ∈ ownConns p group, (p.conns b).busy = false) (turns : List Text)
    (hturns : Runs.Along (turnStep w env) (fun q g => g ≠ group → PassesNone w env q group g) p turns)
    (before window after : List (Option Nat))
    (hserved : served w env group p turns = before ++ window ++ after)
    (hlen : window.length = (ownConns p group).length) : window.Nodup ∧ none ∉ window := by
  by_cases hne : ownConns p group = []
  · rw [hne, List.length_nil, List.length_eq_zero_iff] at hlen
    subst hlen
    exact ⟨List.nodup_nil, List.not_mem_nil⟩
  · have hown : ∀ b ∈ ownConns p group, b < p.maxConns ∧ (p.conns b).alive = true ∧
        (p.conns b).loginUser = group := by
      intro b hb
      obtain ⟨hlt, hb⟩ := List.mem_filter.mp hb
      rw [Bool.and_eq_true, decide_eq_true_eq] at hb
      exact ⟨List.mem_range.mp hlt, hb⟩
    have hrotates : Rotates p group p.maxConns (ownConns p group) :=
      ⟨hby, hoff, rfl, fun b hb => (hown b hb).2.1, hidle, fun b hb => (hown b hb).2.2⟩
    obtain ⟨hfair, hmap⟩ := hrotates.fair w env hgroup (fun b hb => (hown b hb).1) hne hturns
    rw [hmap] at hserved
    obtain ⟨front, tail, hsplit, hfront, rfl⟩ := List.map_eq_append_iff.mp hserved
    obtain ⟨start, middle, rfl, rfl, rfl⟩ := List.map_eq_append_iff.mp hfront
    have hmembers : (ownConns p group).Nodup := List.nodup_range.filter _
    have hnodup := Rotation.nodup_of_fair hmembers (fun b hb => (hown b hb).1) hfair hsplit
      (by rw [← hlen, List.length_map])
    exact ⟨hnodup.map (Option.some_injective Nat), by simp⟩

end

/-- Two groups with two connections each. -/
def twoGroupsConfig : BackendConfig where
  user := "postgres".toList
  useGroupAsUser := true
  groups := "g,h".toList
  lazyGroupConnect := false
  poolSize := 4
  autoReconnect := true
  healthCheckOnCheckout := false

def twoGroupsPool : Pool := (poolCreate (answering bareResponse) twoGroupsConfig).get rfl

/-- Two turns of another group bring the cursor back: the same connection is handed out again. -/
theorem not_checkouts_rotate :
    twoGroupsPool.useGroupAsUser = true ∧ twoGroupsPool.cfg.healthCheckOnCheckout = false ∧
      (∀ b ∈ ownConns twoGroupsPool "g".toList, (twoGroupsPool.conns b).busy = false) ∧
      ¬ ∀ turns before window after,
        served pgWire (answering bareResponse) "g".toList twoGroupsPool turns =
            before ++ window ++ after →
          window.length = (ownConns twoGroupsPool "g".toList).length → window.Nodup := by
  refine ⟨by decide +kernel, by decide +kernel, by decide +kernel, fun h => ?_⟩
  have hnodup := h ["g".toList, "h".toList, "h".toList, "g".toList] [] [some 0, some 0] []
    (by decide +kernel) (by decide +kernel)
  revert hnodup
  decide

/-- Turns of the group alone take its connections in turn. -/
theorem checkouts_rotate_alone :
    ([some 1, some 0] : List (Option Nat)).Nodup ∧ none ∉ ([some 1, some 0] : List (Option Nat)) :=
  checkouts_rotate pgWire (answering bareResponse) twoGroupsPool "g".toList (by decide) (by decide +kernel)
    (by decide +kernel) (by decide +kernel) ["g".toList, "g".toList, "g".toList]
    ⟨fun h => absurd rfl h, fun h => absurd rfl h, fun h => absurd rfl h, trivial⟩
    [some 0] [some 1, some 0] [] (by decide +kernel) (by decide +kernel)
