import Mathlib

/-! A bounded ring of `n` cells with a head, a tail and a count that are updated separately. The
bounds and the relation between the three indices are fields, so a ring whose indices disagree
cannot be built; `toList` is what the ring holds, oldest first, and every operation is a list
operation on it. -/

/-- `count` entries from `head` on, wrapping at `n`; `tail` is the next free cell. -/
structure RingBuffer (α : Type) (n : Nat) where
  cells : Nat → α
  head : Nat
  tail : Nat
  count : Nat
  head_lt : head < n
  count_le : count ≤ n
  tail_eq : tail = (head + count) % n

namespace RingBuffer

variable {α : Type} {n : Nat}

/-- The entries of the ring, oldest first. -/
def toList (r : RingBuffer α n) : List α :=
  (List.range r.count).map fun k => r.cells ((r.head + k) % n)

@[simp] theorem length_toList (r : RingBuffer α n) : r.toList.length = r.count := by
  simp [toList]

theorem count_eq_zero_iff (r : RingBuffer α n) : r.count = 0 ↔ r.toList = [] := by
  rw [← length_toList, List.length_eq_zero_iff]

/-- All indices zero, every cell `d`. -/
def empty (d : α) (hn : 0 < n) : RingBuffer α n where
  cells := fun _ => d
  head := 0
  tail := 0
  count := 0
  head_lt := hn
  count_le := Nat.zero_le n
  tail_eq := by simp

@[simp] theorem toList_empty (d : α) (hn : 0 < n) : (empty d hn : RingBuffer α n).toList = [] := rfl

/-- Store `x` at the tail. -/
def push (r : RingBuffer α n) (x : α) (h : r.count < n) : RingBuffer α n where
  cells := Function.update r.cells r.tail x
  head := r.head
  tail := (r.tail + 1) % n
  count := r.count + 1
  head_lt := r.head_lt
  count_le := h
  tail_eq := by rw [r.tail_eq, Nat.mod_add_mod, Nat.add_assoc]

/-- Drop the oldest entry, leaving its cell as it is. -/
def advance (r : RingBuffer α n) (h : 0 < r.count) : RingBuffer α n where
  cells := r.cells
  head := (r.head + 1) % n
  tail := r.tail
  count := r.count - 1
  head_lt := Nat.mod_lt _ (Nat.lt_of_lt_of_le h r.count_le)
  count_le := (Nat.sub_le _ _).trans r.count_le
  tail_eq := by
    rw [r.tail_eq, Nat.mod_add_mod, Nat.add_assoc, Nat.add_sub_cancel' h]

/-- Overwrite cell `k`. -/
def setCell (r : RingBuffer α n) (k : Nat) (x : α) : RingBuffer α n :=
  { r with cells := Function.update r.cells k x }

/-- Drop the oldest entry and reset its cell to `d`. -/
def pop (r : RingBuffer α n) (d : α) (h : 0 < r.count) : RingBuffer α n :=
  (r.setCell r.head d).advance h

/-- Step the head back and store `x` there. -/
def putBack (r : RingBuffer α n) (x : α) (h : r.count < n) : RingBuffer α n where
  cells := Function.update r.cells ((r.head + n - 1) % n) x
  head := (r.head + n - 1) % n
  tail := r.tail
  count := r.count + 1
  head_lt := Nat.mod_lt _ (by omega)
  count_le := h
  tail_eq := by
    have hn : 0 < n := by omega
    rw [r.tail_eq, Nat.mod_add_mod, show r.head + n - 1 + (r.count + 1) = r.head + r.count + n by
      omega, Nat.add_mod_right]

/-- Write the entries `l` to the start of the cells and let the ring hold exactly these. -/
def compact (r : RingBuffer α n) (l : List α) (h : l.length ≤ n) : RingBuffer α n where
  cells := fun k => (l[k]?).getD (r.cells k)
  head := 0
  tail := l.length % n
  count := l.length
  head_lt := Nat.lt_of_le_of_lt (Nat.zero_le _) r.head_lt
  count_le := h
  tail_eq := by rw [Nat.zero_add]

/-- Two entries of a ring are in the same cell only if they are the same entry. -/
theorem index_inj {head i j : Nat} (hi : i < n) (hj : j < n)
    (h : (head + i) % n = (head + j) % n) : i = j := by
  have hmod : i ≡ j [MOD n] := Nat.ModEq.add_left_cancel' head h
  rwa [Nat.ModEq, Nat.mod_eq_of_lt hi, Nat.mod_eq_of_lt hj] at hmod

@[simp] theorem toList_push (r : RingBuffer α n) (x : α) (h : r.count < n) :
    (r.push x h).toList = r.toList ++ [x] := by
  simp only [toList, push, List.range_succ, List.map_append, List.map_cons, List.map_nil]
  congr 1
  · apply List.map_congr_left
    intro k hk
    rw [List.mem_range] at hk
    rw [Function.update_of_ne]
    intro heq
    rw [r.tail_eq] at heq
    have := index_inj (by omega) h heq
    omega
  · rw [r.tail_eq, Function.update_self]

/-- The oldest entry stands in the cell at the head. -/
theorem toList_eq_cons (r : RingBuffer α n) (h : 0 < r.count) :
    r.toList = r.cells r.head :: (r.advance h).toList := by
  obtain ⟨k, hk⟩ := Nat.exists_eq_succ_of_ne_zero (Nat.ne_of_gt h)
  simp only [toList, advance, hk, Nat.succ_eq_add_one, Nat.add_sub_cancel, List.range_succ_eq_map,
    List.map_cons, List.map_map, Nat.add_zero, Nat.mod_eq_of_lt r.head_lt]
  congr 1
  apply List.map_congr_left
  intro j _
  simp only [Function.comp_apply, Nat.succ_eq_add_one, Nat.mod_add_mod]
  congr 2
  omega

/-- Resetting the dropped cell touches no remaining entry. -/
@[simp] theorem toList_pop (r : RingBuffer α n) (d : α) (h : 0 < r.count) :
    (r.pop d h).toList = (r.advance h).toList := by
  simp only [toList, pop, advance, setCell]
  apply List.map_congr_left
  intro k hk
  rw [List.mem_range] at hk
  rw [Function.update_of_ne]
  intro heq
  have hlt := r.count_le
  rw [Nat.mod_add_mod, Nat.add_assoc] at heq
  have : 1 + k = 0 := @index_inj n r.head (1 + k) 0 (by omega) (by omega)
    (by rw [heq, Nat.add_zero, Nat.mod_eq_of_lt r.head_lt])
  omega

@[simp] theorem toList_putBack (r : RingBuffer α n) (x : α) (h : r.count < n) :
    (r.putBack x h).toList = x :: r.toList := by
  have hn : 0 < n := by omega
  have hhead := r.head_lt
  simp only [toList, putBack, List.range_succ_eq_map, List.map_cons, List.map_map, Nat.add_zero,
    Nat.mod_mod, Function.update_self]
  congr 1
  apply List.map_congr_left
  intro k hk
  rw [List.mem_range] at hk
  simp only [Function.comp_apply, Nat.succ_eq_add_one, Nat.mod_add_mod]
  rw [show r.head + n - 1 + (k + 1) = r.head + k + n by omega, Nat.add_mod_right,
    Function.update_of_ne]
  intro heq
  rw [show (r.head + k) % n = (r.head + n - 1 + (k + 1)) % n by
    rw [show r.head + n - 1 + (k + 1) = r.head + k + n by omega, Nat.add_mod_right]] at heq
  have : k + 1 = 0 := @index_inj n (r.head + n - 1) (k + 1) 0 (by omega) hn
    (by rw [heq, Nat.add_zero])
  omega

@[simp] theorem toList_compact (r : RingBuffer α n) (l : List α) (h : l.length ≤ n) :
    (r.compact l h).toList = l := by
  apply List.ext_getElem
  · simp [compact]
  · intro k hk hl
    simp only [toList, compact, List.getElem_map, List.getElem_range, Nat.zero_add]
    rw [Nat.mod_eq_of_lt (by omega), List.getElem?_eq_getElem hl]
    rfl

end RingBuffer
