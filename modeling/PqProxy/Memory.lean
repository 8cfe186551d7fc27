import Mathlib

/-! Byte memory read and written by offset, as C buffers are by `memcpy`. A buffer is a total
function of the offset: a read names the range it takes, so stale bytes behind the valid range stay
where the last write left them and no length has to be carried along. -/

abbrev Bytes := List UInt8

/-- The contents of a byte buffer, by offset. -/
def Mem := Nat → UInt8

namespace Mem

/-- A freshly zeroed buffer. -/
def zero : Mem := fun _ => 0

/-- `memcpy` of `data` to offset `off`. -/
def write (m : Mem) (off : Nat) (data : Bytes) : Mem := fun i =>
  if off ≤ i then (data[i - off]?).getD (m i) else m i

/-- The `len` bytes from offset `off` on. -/
def read (m : Mem) (off len : Nat) : Bytes := (List.range len).map fun k => m (off + k)

@[simp] theorem read_length (m : Mem) (off len : Nat) : (m.read off len).length = len := by
  simp [read]

@[simp] theorem read_zero (m : Mem) (off : Nat) : m.read off 0 = [] := rfl

theorem read_add (m : Mem) (off a b : Nat) :
    m.read off (a + b) = m.read off a ++ m.read (off + a) b := by
  simp only [read, List.range_add, List.map_append, List.map_map]
  congr 1
  apply List.map_congr_left
  intro k _
  simp [Nat.add_assoc]

theorem take_read (m : Mem) (off : Nat) {k n : Nat} (h : k ≤ n) :
    (m.read off n).take k = m.read off k := by
  obtain ⟨d, rfl⟩ := Nat.exists_eq_add_of_le h
  rw [read_add, List.take_left' (read_length m off k)]

@[simp] theorem write_nil (m : Mem) (off : Nat) : m.write off [] = m := by
  funext i
  simp [write]

theorem read_write_self (m : Mem) (off : Nat) (data : Bytes) :
    (m.write off data).read off data.length = data := by
  apply List.ext_getElem
  · simp
  · intro k hk hd
    simp only [read, List.getElem_map, List.getElem_range, write]
    rw [if_pos (Nat.le_add_right _ _), Nat.add_sub_cancel_left, List.getElem?_eq_getElem hd]
    rfl

/-- A write leaves what lies below it alone. -/
theorem read_write_below (m : Mem) (off len start : Nat) (data : Bytes) (h : off + len ≤ start) :
    (m.write start data).read off len = m.read off len := by
  apply List.map_congr_left
  intro k hk
  rw [List.mem_range] at hk
  rw [write, if_neg (by omega)]

/-- So does it what lies above. -/
theorem read_write_above (m : Mem) (off len start : Nat) (data : Bytes) (h : start + data.length ≤ off) :
    (m.write start data).read off len = m.read off len := by
  apply List.map_congr_left
  intro k _
  rw [write, if_pos (by omega), List.getElem?_eq_none (by omega)]
  rfl

/-- Appending behind the valid bytes of a buffer. -/
theorem read_write_append (m : Mem) (len : Nat) (data : Bytes) :
    (m.write len data).read 0 (len + data.length) = m.read 0 len ++ data := by
  rw [read_add, read_write_below _ _ _ _ _ (by omega), Nat.zero_add, read_write_self]

/-- Appending to the range that starts at `off`. -/
theorem read_write_append_off (m : Mem) (off len : Nat) (data : Bytes) (h : off ≤ len) :
    (m.write len data).read off (len + data.length - off) = m.read off (len - off) ++ data := by
  obtain ⟨k, rfl⟩ := Nat.exists_eq_add_of_le h
  rw [show off + k + data.length - off = k + data.length by omega,
    show off + k - off = k by omega, read_add, read_write_below _ _ _ _ _ (by omega),
    read_write_self]

end Mem
