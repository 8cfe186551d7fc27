import Mathlib

/-! Tables of `n` cells that are searched by linear probing and have no tombstones: the search for a
key starts at the cell its hash gives, wraps around, and ends at the first free cell. It finds every
entry as long as no free cell lies between an entry and the start of its search. -/

namespace LinearProbing

variable {K E : Type} (key : E → K) (hash : K → Nat) (n : Nat)

/-- The cell of the `d`-th probe for a key. -/
def cell (k : K) (d : Nat) : Nat := (hash k + d) % n

/-- The probes for a key before the `d`-th one meet entries with other keys. -/
def Passes (t : Nat → Option E) (k : K) (d : Nat) : Prop :=
  ∀ d' < d, ∃ e, t (cell hash n k d') = some e ∧ key e ≠ k

/-- The probes for the key of an entry get to the entry. -/
def Placed (t : Nat → Option E) : Prop :=
  ∀ i < n, ∀ e, t i = some e →
    ∃ d < n, cell hash n (key e) d = i ∧ Passes key hash n t (key e) d

/-- The table has this entry for the key. -/
def Holds (t : Nat → Option E) (k : K) (e : E) : Prop := ∃ i < n, t i = some e ∧ key e = k

/-- The cells in use. -/
def occupied (t : Nat → Option E) : Finset Nat := (Finset.range n).filter fun i => (t i).isSome

/-- The `d`-th probe may store an entry with the key: its cell is free or has that key. -/
structure Ends (t : Nat → Option E) (k : K) (d : Nat) : Prop where
  lt : d < n
  passes : Passes key hash n t k d
  cell : ∀ e, t (cell hash n k d) = some e → key e = k

variable {key hash n} {t : Nat → Option E} {k : K} {d : Nat}

theorem cell_lt (hn : 0 < n) (k : K) (d : Nat) : cell hash n k d < n := Nat.mod_lt _ hn

/-- The probes for a key get to every cell. -/
theorem exists_cell {i : Nat} (hi : i < n) (k : K) : ∃ d < n, cell hash n k d = i := by
  have hr : hash k % n < n := Nat.mod_lt _ (by omega)
  by_cases hle : hash k % n ≤ i
  · refine ⟨i - hash k % n, by omega, ?_⟩
    rw [cell, ← Nat.mod_add_mod, Nat.add_sub_cancel' hle, Nat.mod_eq_of_lt hi]
  · refine ⟨i + n - hash k % n, by omega, ?_⟩
    rw [cell, ← Nat.mod_add_mod, Nat.add_sub_cancel' (by omega), Nat.add_mod_right,
      Nat.mod_eq_of_lt hi]

theorem placed_empty : Placed key hash n fun _ => none := nofun

theorem Passes.succ (h : Passes key hash n t k d) {e : E} (he : t (cell hash n k d) = some e)
    (hne : key e ≠ k) : Passes key hash n t k (d + 1) := by
  intro d' hd'
  rcases Nat.lt_succ_iff_lt_or_eq.mp hd' with hlt | rfl
  · exact h d' hlt
  · exact ⟨e, he, hne⟩

/-- A search that gets around the table has seen every cell in use. -/
theorem Passes.occupied (h : Passes key hash n t k n) :
    occupied n t = Finset.range n := by
  apply Finset.filter_true_of_mem
  intro i hi
  obtain ⟨d, hd, rfl⟩ : ∃ d < n, cell hash n k d = i := exists_cell (Finset.mem_range.mp hi) k
  obtain ⟨e, he, -⟩ := h d hd
  rw [he]
  rfl

/-- An entry with the key lies where the search ends. -/
theorem Placed.eq_cell (hp : Placed key hash n t) (h : Ends key hash n t k d) {i : Nat} (hi : i < n)
    {e : E} (he : t i = some e) (hk : key e = k) : i = cell hash n k d := by
  subst hk
  obtain ⟨d', -, rfl, hpasses⟩ := hp i hi e he
  rcases Nat.lt_trichotomy d' d with hlt | rfl | hgt
  · obtain ⟨e', he', hne⟩ := h.passes d' hlt
    rw [he] at he'
    exact absurd (congrArg key (Option.some.inj he')).symm hne
  · rfl
  · obtain ⟨e', he', hne⟩ := hpasses d hgt
    exact absurd (h.cell e' he') hne

/-- Where a search ends at a free cell, or gets around, there is no entry with the key. -/
theorem Placed.not_holds_of_free (hp : Placed key hash n t) (h : Passes key hash n t k d)
    (hlt : d < n) (hfree : t (cell hash n k d) = none) (e : E) : ¬ Holds key n t k e := by
  rintro ⟨i, hi, he, hk⟩
  have hends : Ends key hash n t k d := ⟨hlt, h, by simp [hfree]⟩
  rw [hp.eq_cell hends hi he hk, hfree] at he
  cases he

theorem Placed.not_holds_of_passes (hp : Placed key hash n t) (h : Passes key hash n t k n)
    (e : E) : ¬ Holds key n t k e := by
  rintro ⟨i, hi, he, rfl⟩
  obtain ⟨d, hd, rfl, -⟩ := hp i hi e he
  obtain ⟨e', he', hne⟩ := h d hd
  rw [he] at he'
  exact hne (congrArg key (Option.some.inj he')).symm

/-- Two entries with one key are in one cell. -/
theorem Placed.cell_inj (hp : Placed key hash n t) {i j : Nat} (hi : i < n) (hj : j < n) {e e' : E}
    (he : t i = some e) (he' : t j = some e') (hk : key e = key e') : i = j := by
  obtain ⟨d, hd, rfl, hpasses⟩ := hp i hi e he
  have hends : Ends key hash n t (key e) d := by
    refine ⟨hd, hpasses, ?_⟩
    intro e₁ h₁
    rw [he] at h₁
    exact congrArg key (Option.some.inj h₁).symm
  exact (hp.eq_cell hends hj he' hk.symm).symm

/-! ### Storing an entry -/

section Store

variable {e : E} (hp : Placed key hash n t) (h : Ends key hash n t k d) (hk : key e = k)
include hp h hk

/-- Storing an entry where the search for its key ends breaks no search. -/
theorem Placed.store : Placed key hash n (Function.update t (cell hash n k d) (some e)) := by
  intro i hi e₁ he₁
  by_cases hcell : i = cell hash n k d
  · subst hcell
    rw [Function.update_self] at he₁
    obtain rfl := Option.some.inj he₁
    rw [hk]
    refine ⟨d, h.lt, rfl, ?_⟩
    intro d' hd'
    obtain ⟨e', he', hne⟩ := h.passes d' hd'
    refine ⟨e', ?_, hne⟩
    rw [Function.update_of_ne]
    · exact he'
    · intro heq
      exact hne (h.cell e' (heq ▸ he'))
  · rw [Function.update_of_ne hcell] at he₁
    obtain ⟨d₁, hd₁, rfl, hpasses⟩ := hp i hi e₁ he₁
    refine ⟨d₁, hd₁, rfl, ?_⟩
    intro d' hd'
    obtain ⟨e', he', hne⟩ := hpasses d' hd'
    by_cases hsame : cell hash n (key e₁) d' = cell hash n k d
    · -- the entry that was there had the same key as the new one
      refine ⟨e, ?_, ?_⟩
      · rw [hsame, Function.update_self]
      · rw [hk, ← h.cell e' (hsame ▸ he')]
        exact hne
    · exact ⟨e', by rw [Function.update_of_ne hsame]; exact he', hne⟩

theorem Placed.holds_store_self (e' : E) :
    Holds key n (Function.update t (cell hash n k d) (some e)) k e' ↔ e' = e := by
  constructor
  · rintro ⟨i, hi, he', hk'⟩
    by_cases hcell : i = cell hash n k d
    · rw [hcell, Function.update_self] at he'
      exact (Option.some.inj he').symm
    · rw [Function.update_of_ne hcell] at he'
      exact absurd (hp.eq_cell h hi he' hk') hcell
  · rintro rfl
    exact ⟨_, cell_lt (by have := h.lt; omega) k d, Function.update_self .., hk⟩

omit hp in
theorem holds_store_of_ne {k' : K} (hne : k' ≠ k) (e' : E) :
    Holds key n (Function.update t (cell hash n k d) (some e)) k' e' ↔ Holds key n t k' e' := by
  constructor
  · rintro ⟨i, hi, he', rfl⟩
    by_cases hcell : i = cell hash n k d
    · rw [hcell, Function.update_self] at he'
      obtain rfl := Option.some.inj he'
      exact absurd hk hne
    · rw [Function.update_of_ne hcell] at he'
      exact ⟨i, hi, he', rfl⟩
  · rintro ⟨i, hi, he', rfl⟩
    refine ⟨i, hi, ?_, rfl⟩
    rw [Function.update_of_ne]
    · exact he'
    · rintro rfl
      exact hne (h.cell e' he')

end Store

theorem occupied_store {i : Nat} (hi : i < n) (e : E) :
    occupied n (Function.update t i (some e)) = insert i (occupied n t) := by
  ext j
  by_cases hj : j = i
  · subst hj
    simp [occupied, hi]
  · simp [occupied, hj]

end LinearProbing
