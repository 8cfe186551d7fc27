import PqProxy.Memory
import Mathlib

/-! Streams of typed, length-prefixed messages: one type byte, then a big-endian 32-bit length that
counts itself and the body but not the type byte. `split` cuts a byte stream into its messages; on a
concatenation of well-formed messages it returns exactly these, so facts about the messages of a
stream can be stated on its bytes. -/

namespace Framing

/-- Big-endian 32-bit number. -/
def be32 (a b c d : UInt8) : Nat :=
  ((a.toNat * 256 + b.toNat) * 256 + c.toNat) * 256 + d.toNat

/-- The bytes of a number below `2 ^ 32`, most significant first. -/
def putBe32 (v : Nat) : Bytes :=
  [UInt8.ofNat (v / 16777216), UInt8.ofNat (v / 65536), UInt8.ofNat (v / 256), UInt8.ofNat v]

/-- The value of the length field, when the header is complete. -/
def lengthField : Bytes → Option Nat
  | _ :: a :: b :: c :: d :: _ => some (be32 a b c d)
  | _ => none

/-- The type byte. -/
def typeOf (m : Bytes) : Option UInt8 := m.head?

/-- One whole message: the length field counts all bytes but the first. -/
def Framed (m : Bytes) : Prop := lengthField m = some (m.length - 1) ∧ 5 ≤ m.length

instance (m : Bytes) : Decidable (Framed m) := inferInstanceAs (Decidable (_ ∧ _))

/-- The size of the first message of a stream: none when its header is incomplete or too small a
length stands in it. -/
def firstSize (bs : Bytes) : Option Nat :=
  match lengthField bs with
  | some len => if len < 4 then none else some (1 + len)
  | none => none

/-- Cut off at most `fuel` messages. -/
def splitFuel : Nat → Bytes → List Bytes
  | 0, _ => []
  | fuel + 1, bs =>
      match firstSize bs with
      | some size => if bs.length < size then [] else bs.take size :: splitFuel fuel (bs.drop size)
      | none => []

/-- The complete messages at the front of a stream. -/
def split (bs : Bytes) : List Bytes := splitFuel bs.length bs

theorem lengthField_append {m : Bytes} (h : 5 ≤ m.length) (rest : Bytes) :
    lengthField (m ++ rest) = lengthField m := by
  match m, h with
  | _ :: _ :: _ :: _ :: _ :: _, _ => rfl

theorem Framed.firstSize {m : Bytes} (h : Framed m) (rest : Bytes) :
    firstSize (m ++ rest) = some m.length := by
  obtain ⟨hlen, hfive⟩ := h
  simp only [Framing.firstSize, lengthField_append hfive, hlen]
  rw [if_neg (by omega), Nat.add_sub_cancel' (by omega)]

theorem Framed.ne_nil {m : Bytes} (h : Framed m) : m ≠ [] := by
  rintro rfl
  exact absurd h.2 (by decide)

theorem splitFuel_flatten : ∀ (ms : List Bytes) (fuel : Nat), (∀ m ∈ ms, Framed m) →
    ms.flatten.length ≤ fuel → splitFuel fuel ms.flatten = ms := by
  intro ms
  induction ms with
  | nil =>
      intro fuel _ _
      cases fuel <;> rfl
  | cons m ms ih =>
      intro fuel hms hfuel
      have hm := hms m List.mem_cons_self
      have hfive := hm.2
      simp only [List.flatten_cons, List.length_append] at hfuel
      cases fuel with
      | zero => omega
      | succ fuel =>
          rw [List.flatten_cons, splitFuel, hm.firstSize]
          simp only [List.length_append]
          rw [if_neg (by omega), List.take_left, List.drop_left,
            ih fuel (fun x hx => hms x (List.mem_cons_of_mem _ hx)) (by omega)]

/-- A concatenation of messages is cut into exactly these messages. -/
theorem split_flatten {ms : List Bytes} (h : ∀ m ∈ ms, Framed m) : split ms.flatten = ms :=
  splitFuel_flatten ms _ h (Nat.le_refl _)

/-- A stream that is a concatenation of whole messages. -/
def Aligned (bs : Bytes) : Prop := ∃ ms : List Bytes, (∀ m ∈ ms, Framed m) ∧ bs = ms.flatten

theorem aligned_flatten {ms : List Bytes} (h : ∀ m ∈ ms, Framed m) : Aligned ms.flatten :=
  ⟨ms, h, rfl⟩

/-! ### Cuts inside a stream -/

/-- Less than one message: more bytes have to come before the first one can be taken. -/
def Unfinished (bs : Bytes) : Prop :=
  bs.length < 5 ∨ ∃ len, lengthField bs = some len ∧ 4 ≤ len ∧ bs.length < 1 + len

theorem Framed.unfinished {m u v : Bytes} (hm : Framed m) (h : u ++ v = m)
    (hlt : u.length < m.length) : Unfinished u := by
  by_cases hshort : u.length < 5
  · exact Or.inl hshort
  · have hfield := lengthField_append (Nat.le_of_not_lt hshort) v
    rw [h, hm.1] at hfield
    have hfive := hm.2
    exact Or.inr ⟨m.length - 1, hfield.symm, by omega, by omega⟩

theorem Unfinished.nil : Unfinished [] := Or.inl (by decide)

theorem length_le_flatten {ms : List Bytes} (h : ∀ m ∈ ms, Framed m) :
    ms.length ≤ ms.flatten.length := by
  induction ms with
  | nil => exact Nat.le_refl _
  | cons m ms ih =>
      have hm := (h m List.mem_cons_self).2
      have hms := ih fun x hx => h x (List.mem_cons_of_mem _ hx)
      rw [List.length_cons, List.flatten_cons, List.length_append]
      omega

/-- Where a cut through a stream of messages falls: behind some of them, and before the end of the
next. -/
theorem exists_cut (ms : List Bytes) {u v : Bytes} (h : u ++ v = ms.flatten) :
    ∃ whole rest part, ms = whole ++ rest ∧ u = whole.flatten ++ part ∧ (rest = [] → part = []) ∧
      ∀ m ∈ rest.head?, part.length < m.length ∧ ∃ left, part ++ left = m := by
  induction ms generalizing u with
  | nil => exact ⟨[], [], u, rfl, rfl, fun _ => (List.append_eq_nil_iff.mp h).1, by simp⟩
  | cons m ms ih =>
      rw [List.flatten_cons] at h
      by_cases hlt : u.length < m.length
      · -- the cut lies in `m`
        refine ⟨[], m :: ms, u, rfl, rfl, by simp, ?_⟩
        obtain ⟨left, hm, -⟩ | ⟨left, hu, -⟩ := List.append_eq_append_iff.mp h
        · simpa using ⟨hlt, left, hm.symm⟩
        · rw [hu, List.length_append] at hlt
          omega
      · have htake := congrArg (List.take m.length) h
        rw [List.take_append_of_le_length (Nat.le_of_not_lt hlt), List.take_left] at htake
        have hu := (List.take_append_drop m.length u).symm
        rw [htake] at hu
        rw [hu, List.append_assoc] at h
        obtain ⟨whole, rest, part, h1, h2, h3, h4⟩ := ih (List.append_cancel_left h)
        refine ⟨m :: whole, rest, part, by rw [h1, List.cons_append], ?_, h3, h4⟩
        rw [hu, h2, List.flatten_cons, List.append_assoc]

/-! ### Messages of one type -/

/-- The messages of type `t` in a stream, in order. -/
def ofType (t : UInt8) (bs : Bytes) : List Bytes := (split bs).filter fun m => typeOf m == some t

/-- How many messages of type `t` a stream has. -/
def countType (t : UInt8) (bs : Bytes) : Nat := (ofType t bs).length

theorem ofType_flatten (t : UInt8) {ms : List Bytes} (h : ∀ m ∈ ms, Framed m) :
    ofType t ms.flatten = ms.filter fun m => typeOf m == some t := by
  rw [ofType, split_flatten h]

end Framing
