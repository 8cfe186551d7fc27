import Mathlib

/-! A cursor that rotates over slots. A service takes the first member of a set at or behind the
cursor and moves the cursor behind it; between services the cursor may be moved on, but not past a
member. Then any number of consecutive services up to the size of the set goes to different slots. -/

namespace Rotation

/-- How far a slot lies behind the cursor. -/
def offset (m c b : Nat) : Nat := (b + (m - c % m)) % m

/-- The cursor moves behind a slot, which is served or passed over. -/
inductive Event where
  | serve (slot : Nat)
  | pass (slot : Nat)

def Event.slot : Event → Nat
  | .serve slot => slot
  | .pass slot => slot

/-- The slots that are served. -/
def served : List Event → List Nat
  | [] => []
  | .serve slot :: es => slot :: served es
  | .pass _ :: es => served es

/-- No member is passed over: none lies before a slot that is served, and none up to another slot that
the cursor is moved behind. -/
def Fair (m : Nat) (members : List Nat) : Nat → List Event → Prop
  | _, [] => True
  | c, e :: es =>
      (e.slot < m ∧ ∀ s ∈ members, match e with
        | .serve slot => offset m c slot ≤ offset m c s
        | .pass slot => offset m c slot < offset m c s) ∧
      Fair m members ((e.slot + 1) % m) es

/-! ### Offsets -/

theorem offset_lt {m : Nat} (hm : 0 < m) (c b : Nat) : offset m c b < m := Nat.mod_lt _ hm

theorem add_offset {m b : Nat} (c : Nat) (hb : b < m) : (c + offset m c b) % m = b := by
  have hc := Nat.mod_lt c (Nat.zero_lt_of_lt hb)
  calc
    (c + offset m c b) % m = (c % m + (b + (m - c % m))) % m := by
      rw [offset, Nat.add_mod_mod, Nat.mod_add_mod]
    _ = (b + m) % m := by
      congr 1
      omega
    _ = b := by rw [Nat.add_mod_right, Nat.mod_eq_of_lt hb]

theorem offset_unique {m c d b : Nat} (hd : d < m) (h : (c + d) % m = b) : offset m c b = d := by
  have hm := Nat.zero_lt_of_lt hd
  have hb : b < m := h ▸ Nat.mod_lt _ hm
  have hmod : c + offset m c b ≡ c + d [MOD m] := (add_offset c hb).trans h.symm
  have hcancel := Nat.ModEq.add_left_cancel' c hmod
  exact Nat.ModEq.eq_of_lt_of_lt hcancel (offset_lt hm c b) hd

/-- Offsets from a cursor that has moved on by less than the offset. -/
theorem offset_moved {m c₀ c o b : Nat} (hb : b < m) (hc : (c₀ + o) % m = c % m)
    (ho : o ≤ offset m c₀ b) : offset m c b = offset m c₀ b - o := by
  have hlt := offset_lt (Nat.zero_lt_of_lt hb) c₀ b
  apply offset_unique
  · omega
  · calc
      (c + (offset m c₀ b - o)) % m = ((c₀ + o) + (offset m c₀ b - o)) % m := by
        rw [← Nat.mod_add_mod, ← hc, Nat.mod_add_mod]
      _ = (c₀ + offset m c₀ b) % m := by
        congr 1
        omega
      _ = b := add_offset c₀ hb

/-- The offset of what is found from there, as long as one round is not over. -/
theorem offset_found {m c₀ c o b : Nat} (hb : b < m) (hc : (c₀ + o) % m = c % m)
    (ho : o + offset m c b < m) :
    offset m c₀ b = o + offset m c b ∧ (c₀ + (o + offset m c b + 1)) % m = (b + 1) % m % m := by
  have hreach : (c₀ + (o + offset m c b)) % m = b := by
    calc
      (c₀ + (o + offset m c b)) % m = ((c₀ + o) + offset m c b) % m := by rw [Nat.add_assoc]
      _ = (c + offset m c b) % m := by rw [← Nat.mod_add_mod, hc, Nat.mod_add_mod]
      _ = b := add_offset c hb
  refine ⟨offset_unique ho hreach, ?_⟩
  rw [← Nat.add_assoc, ← Nat.mod_add_mod, hreach, Nat.mod_mod]

theorem offset_inj {m c a b : Nat} (ha : a < m) (hb : b < m) (h : offset m c a = offset m c b) :
    a = b := by
  rw [← add_offset c ha, h, add_offset c hb]

/-! ### One round -/

/-- In the round that began at `c₀` the cursor has moved on by `o`, and these slots were served: all
different, all behind the cursor, and all members behind the cursor among them. -/
structure Round (m : Nat) (members : List Nat) (c₀ c o : Nat) (hits : List Nat) : Prop where
  cursor : (c₀ + o) % m = c % m
  nodup : hits.Nodup
  lt : ∀ b ∈ hits, offset m c₀ b < o
  members : ∀ s ∈ members, offset m c₀ s < o → s ∈ hits

theorem Round.start (m : Nat) (members : List Nat) (c : Nat) : Round m members c c 0 [] :=
  ⟨rfl, List.nodup_nil, nofun, fun _ _ h => absurd h (Nat.not_lt_zero _)⟩

/-- As long as fewer slots were served than there are members, one of them lies ahead. -/
theorem Round.ahead {m : Nat} {members hits : List Nat} {c₀ c o : Nat}
    (h : Round m members c₀ c o hits) (hnodup : members.Nodup) (hfew : hits.length < members.length) :
    ∃ s ∈ members, o ≤ offset m c₀ s := by
  by_contra hnone
  have hsub : members ⊆ hits := by
    intro s hs
    apply h.members s hs
    by_contra hle
    exact hnone ⟨s, hs, Nat.not_lt.mp hle⟩
  have hle := hnodup.length_le_of_subset hsub
  omega

/-- The round goes on while a member lies ahead. -/
theorem Round.serve {m : Nat} {members hits : List Nat} {c₀ c o b s : Nat}
    (h : Round m members c₀ c o hits) (hmembers : ∀ s ∈ members, s < m) (hb : b < m)
    (hfirst : ∀ s ∈ members, offset m c b ≤ offset m c s) (hs : s ∈ members)
    (hahead : o ≤ offset m c₀ s) :
    Round m members c₀ ((b + 1) % m) (o + offset m c b + 1) (hits ++ [b]) := by
  have hslt := offset_lt (Nat.zero_lt_of_lt hb) c₀ s
  have hmoved := offset_moved (hmembers s hs) h.cursor hahead
  have hle := hfirst s hs
  obtain ⟨hfound, hcursor⟩ := offset_found hb h.cursor (by omega)
  refine ⟨hcursor, ?_, ?_, ?_⟩
  · refine List.nodup_append.mpr ⟨h.nodup, List.nodup_singleton b, ?_⟩
    rintro a ha b' hb' rfl
    obtain rfl := List.mem_singleton.mp hb'
    have := h.lt a ha
    omega
  · intro a ha
    obtain ha | ha := List.mem_append.mp ha
    · have := h.lt a ha
      omega
    · obtain rfl := List.mem_singleton.mp ha
      omega
  · intro t ht hlt
    by_cases hbefore : offset m c₀ t < o
    · exact List.mem_append_left _ (h.members t ht hbefore)
    · have hmoved' := offset_moved (hmembers t ht) h.cursor (Nat.not_lt.mp hbefore)
      have hle' := hfirst t ht
      have heq : offset m c₀ t = offset m c₀ b := by omega
      rw [offset_inj (hmembers t ht) hb heq]
      exact List.mem_append_right _ (List.mem_singleton.mpr rfl)

theorem Round.pass {m : Nat} {members hits : List Nat} {c₀ c o b s : Nat}
    (h : Round m members c₀ c o hits) (hmembers : ∀ s ∈ members, s < m) (hb : b < m)
    (hnone : ∀ s ∈ members, offset m c b < offset m c s) (hs : s ∈ members)
    (hahead : o ≤ offset m c₀ s) :
    Round m members c₀ ((b + 1) % m) (o + offset m c b + 1) hits := by
  have hslt := offset_lt (Nat.zero_lt_of_lt hb) c₀ s
  have hmoved := offset_moved (hmembers s hs) h.cursor hahead
  have hlt := hnone s hs
  obtain ⟨hfound, hcursor⟩ := offset_found hb h.cursor (by omega)
  refine ⟨hcursor, h.nodup, ?_, ?_⟩
  · intro a ha
    have := h.lt a ha
    omega
  · intro t ht htlt
    apply h.members t ht
    by_contra hge
    have hmoved' := offset_moved (hmembers t ht) h.cursor (Nat.not_lt.mp hge)
    have hlt' := hnone t ht
    omega

theorem Round.nodup_of_fair {m : Nat} {members : List Nat} (hnodup : members.Nodup)
    (hmembers : ∀ s ∈ members, s < m) {c₀ c o : Nat} {hits : List Nat} {es : List Event}
    (h : Round m members c₀ c o hits) (hfair : Fair m members c es) {window rest : List Nat}
    (hserved : served es = window ++ rest) (hlen : hits.length + window.length ≤ members.length) :
    (hits ++ window).Nodup := by
  induction es generalizing c o hits window with
  | nil =>
      obtain ⟨rfl, -⟩ := List.append_eq_nil_iff.mp hserved.symm
      rw [List.append_nil]
      exact h.nodup
  | cons e es ih =>
      cases window with
      | nil =>
          rw [List.append_nil]
          exact h.nodup
      | cons b window =>
          rw [List.length_cons] at hlen
          obtain ⟨s, hs, hahead⟩ := h.ahead hnodup (by omega)
          obtain ⟨⟨hlt, hevent⟩, hrest⟩ := hfair
          cases e with
          | serve slot =>
              obtain ⟨rfl, hserved'⟩ := List.cons.inj hserved
              have hnext := ih (h.serve hmembers hlt hevent hs hahead) hrest hserved'
                (by rw [List.length_append, List.length_singleton]; omega)
              rw [List.append_assoc] at hnext
              exact hnext
          | pass slot => exact ih (h.pass hmembers hlt hevent hs hahead) hrest hserved hlen

/-- Consecutive services up to the number of members go to different slots. -/
theorem nodup_of_fair {m : Nat} {members : List Nat} (hnodup : members.Nodup)
    (hmembers : ∀ s ∈ members, s < m) {c : Nat} {es : List Event} (hfair : Fair m members c es)
    {before window after : List Nat} (hserved : served es = before ++ window ++ after)
    (hlen : window.length ≤ members.length) : window.Nodup := by
  induction es generalizing c before with
  | nil =>
      rw [List.append_assoc] at hserved
      obtain ⟨rfl, -⟩ := List.append_eq_nil_iff.mp (List.append_eq_nil_iff.mp hserved.symm).2
      exact List.nodup_nil
  | cons e es ih =>
      cases before with
      | nil =>
          have hwindow := (Round.start m members c).nodup_of_fair hnodup hmembers hfair hserved
            (by simpa using hlen)
          simpa using hwindow
      | cons b before =>
          cases e with
          | serve slot => exact ih hfair.2 (List.cons.inj hserved).2
          | pass slot => exact ih hfair.2 hserved

end Rotation
