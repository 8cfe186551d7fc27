import Mathlib

/-! Base64 as RFC 4648 has it: three bytes are four characters of six bits, and what is missing of
the last three is padded. A decoder that takes whole blocks counts the padding as zeros and leaves
it to its caller to cut them off. -/

namespace Base64

/-- The character of a sextet. -/
def char (v : Nat) : UInt8 :=
  if v < 26 then UInt8.ofNat (65 + v)
  else if v < 52 then UInt8.ofNat (71 + v)
  else if v < 62 then UInt8.ofNat (v - 4)
  else if v = 62 then 43
  else 47

/-- The sextet of a character. -/
def value (c : UInt8) : Option Nat :=
  if 65 ≤ c ∧ c ≤ 90 then some (c.toNat - 65)
  else if 97 ≤ c ∧ c ≤ 122 then some (c.toNat - 71)
  else if 48 ≤ c ∧ c ≤ 57 then some (c.toNat + 4)
  else if c = 43 then some 62
  else if c = 47 then some 63
  else none

/-- The padding character. -/
def pad : UInt8 := 61

/-- The 24 bits of three bytes. -/
def join (a b c : UInt8) : Nat := a.toNat * 65536 + b.toNat * 256 + c.toNat

/-- The four characters of 24 bits. -/
def chars (n : Nat) : List UInt8 :=
  [char (n / 262144), char (n / 4096 % 64), char (n / 64 % 64), char (n % 64)]

/-- The three bytes of 24 bits. -/
def bytes (n : Nat) : List UInt8 :=
  [UInt8.ofNat (n / 65536), UInt8.ofNat (n / 256 % 256), UInt8.ofNat (n % 256)]

def encode : List UInt8 → List UInt8
  | [] => []
  | [a] => (chars (join a 0 0)).take 2 ++ [pad, pad]
  | [a, b] => (chars (join a b 0)).take 3 ++ [pad]
  | a :: b :: c :: d => chars (join a b c) ++ encode d

/-- The sextet of a character, with the padding as zero. -/
def sextet (c : UInt8) : Option Nat := if c = pad then some 0 else value c

/-- The three bytes of four characters. -/
def block (a b c d : UInt8) : Option (List UInt8) := do
  let a ← sextet a
  let b ← sextet b
  let c ← sextet c
  let d ← sextet d
  return bytes (a * 262144 + b * 4096 + c * 64 + d)

/-- The bytes of whole blocks, those of the padding among them. -/
def blocks : List UInt8 → Option (List UInt8)
  | [] => some []
  | a :: b :: c :: d :: s => do
      let front ← block a b c d
      let rest ← blocks s
      return front ++ rest
  | _ => none

/-- The number of padding characters at the end, of which there are two at most. -/
def padding (s : List UInt8) : Nat := ((s.reverse.take 2).takeWhile (· = pad)).length

/-- The bytes that a text stands for. -/
def decode (s : List UInt8) : Option (List UInt8) :=
  if (s.take (s.length - padding s)).all fun c => (value c).isSome then
    (blocks s).map fun d => d.take (d.length - padding s)
  else none

theorem value_char : ∀ v < 64, value (char v) = some v := by decide

theorem char_ne_pad : ∀ v < 64, char v ≠ pad := by decide

theorem sextet_char {v : Nat} (hv : v < 64) : sextet (char v) = some v := by
  rw [sextet, if_neg (char_ne_pad v hv), value_char v hv]

theorem sextet_pad : sextet pad = some 0 := if_pos rfl

theorem join_lt (a b c : UInt8) : join a b c < 16777216 := by
  have ha := a.toNat_lt
  have hb := b.toNat_lt
  have hc := c.toNat_lt
  unfold join
  omega

theorem bytes_join (a b c : UInt8) : bytes (join a b c) = [a, b, c] := by
  have ha := a.toNat_lt
  have hb := b.toNat_lt
  have hc := c.toNat_lt
  have h₁ : join a b c / 65536 = a.toNat := by unfold join; omega
  have h₂ : join a b c / 256 % 256 = b.toNat := by unfold join; omega
  have h₃ : join a b c % 256 = c.toNat := by unfold join; omega
  rw [bytes, h₁, h₂, h₃, UInt8.ofNat_toNat, UInt8.ofNat_toNat, UInt8.ofNat_toNat]

theorem block_chars {n : Nat} (hn : n < 16777216) :
    block (char (n / 262144)) (char (n / 4096 % 64)) (char (n / 64 % 64)) (char (n % 64)) =
      some (bytes n) := by
  rw [block, sextet_char (by omega), sextet_char (by omega), sextet_char (by omega),
    sextet_char (by omega)]
  have hsum : n / 262144 * 262144 + n / 4096 % 64 * 4096 + n / 64 % 64 * 64 + n % 64 = n := by
    omega
  simp only [Option.bind_eq_bind, Option.bind_some, hsum]
  rfl

theorem block_chars_pad {n : Nat} (hn : n < 16777216) (hlow : n % 64 = 0) :
    block (char (n / 262144)) (char (n / 4096 % 64)) (char (n / 64 % 64)) pad = some (bytes n) := by
  rw [block, sextet_char (by omega), sextet_char (by omega), sextet_char (by omega), sextet_pad]
  have hsum : n / 262144 * 262144 + n / 4096 % 64 * 4096 + n / 64 % 64 * 64 + 0 = n := by omega
  simp only [Option.bind_eq_bind, Option.bind_some, hsum]
  rfl

theorem block_chars_pad_pad {n : Nat} (hn : n < 16777216) (hlow : n % 4096 = 0) :
    block (char (n / 262144)) (char (n / 4096 % 64)) pad pad = some (bytes n) := by
  rw [block, sextet_char (by omega), sextet_char (by omega), sextet_pad]
  have hsum : n / 262144 * 262144 + n / 4096 % 64 * 4096 + 0 * 64 + 0 = n := by omega
  simp only [Option.bind_eq_bind, Option.bind_some, hsum]
  rfl

/-! ### Whole texts -/

theorem length_encode (d : List UInt8) : (encode d).length = (d.length + 2) / 3 * 4 := by
  induction d using encode.induct with
  | case1 => simp [encode]
  | case2 a => simp [encode, chars]
  | case3 a b => simp [encode, chars]
  | case4 a b c d ih =>
      rw [encode, List.length_append, ih]
      simp only [chars, List.length_cons, List.length_nil]
      omega

theorem padding_le (s : List UInt8) : padding s ≤ 2 := by
  unfold padding
  calc
    _ ≤ (s.reverse.take 2).length := (List.takeWhile_sublist _).length_le
    _ ≤ 2 := List.length_take_le 2 _

theorem padding_le_length (s : List UInt8) : padding s ≤ s.length := by
  unfold padding
  calc
    _ ≤ (s.reverse.take 2).length := (List.takeWhile_sublist _).length_le
    _ ≤ s.reverse.length := List.length_take_le' 2 _
    _ = s.length := List.length_reverse

theorem padding_append {s t : List UInt8} (ht : 2 ≤ t.length) : padding (s ++ t) = padding t := by
  unfold padding
  rw [List.reverse_append, List.take_append_of_le_length (by rw [List.length_reverse]; exact ht)]

theorem padding_encode (d : List UInt8) : padding (encode d) = (3 - d.length % 3) % 3 := by
  have hchar : ∀ n : Nat, char (n % 64) ≠ pad := fun n => char_ne_pad _ (by omega)
  induction d using encode.induct with
  | case1 => simp [encode, padding]
  | case2 a => simp [encode, padding, chars]
  | case3 a b => simp [encode, padding, chars, hchar]
  | case4 a b c d ih =>
      rw [encode]
      cases d with
      | nil => simp [encode, padding, chars, hchar]
      | cons x d =>
          have hlen := length_encode (x :: d)
          rw [List.length_cons] at hlen
          rw [padding_append (by omega), ih]
          simp only [List.length_cons]
          omega

theorem blocks_encode (d : List UInt8) :
    blocks (encode d) = some (d ++ List.replicate (padding (encode d)) 0) := by
  rw [padding_encode]
  induction d using encode.induct with
  | case1 => simp [encode, blocks]
  | case2 a =>
      have hlow : join a 0 0 % 4096 = 0 := by
        unfold join
        simp
        omega
      have hblock := block_chars_pad_pad (join_lt a 0 0) hlow
      rw [bytes_join] at hblock
      simp [encode, chars, blocks, hblock]
  | case3 a b =>
      have hlow : join a b 0 % 64 = 0 := by
        unfold join
        simp
        omega
      have hblock := block_chars_pad (join_lt a b 0) hlow
      rw [bytes_join] at hblock
      simp [encode, chars, blocks, hblock]
  | case4 a b c d ih =>
      have hblock := block_chars (join_lt a b c)
      rw [bytes_join] at hblock
      have hlen : (a :: b :: c :: d).length % 3 = d.length % 3 := by
        simp only [List.length_cons]
        omega
      rw [hlen]
      simp [encode, chars, blocks, hblock, ih]

theorem length_blocks {s d : List UInt8} (h : blocks s = some d) :
    s.length % 4 = 0 ∧ d.length = s.length / 4 * 3 := by
  induction s using blocks.induct generalizing d with
  | case1 =>
      obtain rfl := Option.some.inj h
      simp
  | case2 a b c d' s ih =>
      simp only [blocks, Option.bind_eq_bind, Option.bind_eq_some_iff, Option.pure_def,
        Option.some.injEq] at h
      obtain ⟨front, hfront, rest, hrest, rfl⟩ := h
      obtain ⟨hmod, hlen⟩ := ih hrest
      have hthree : front.length = 3 := by
        simp only [block, Option.bind_eq_bind, Option.bind_eq_some_iff, Option.pure_def,
          Option.some.injEq] at hfront
        obtain ⟨_, -, _, -, _, -, _, -, rfl⟩ := hfront
        rfl
      simp only [List.length_cons, List.length_append]
      omega
  | case3 s hnil hcons => simp [blocks] at h

/-- What a decoder of whole blocks returns on a text: its bytes, and those of the padding. -/
theorem blocks_of_decode {s d : List UInt8} (h : decode s = some d) :
    ∃ tail, blocks s = some (d ++ tail) ∧ tail.length = padding s := by
  unfold decode at h
  split at h
  · obtain ⟨whole, hwhole, rfl⟩ := Option.map_eq_some_iff.mp h
    obtain ⟨hmod, hlen⟩ := length_blocks hwhole
    have hpad := padding_le s
    have hshort := padding_le_length s
    refine ⟨whole.drop (whole.length - padding s), ?_, ?_⟩
    · rw [List.take_append_drop]
      exact hwhole
    · rw [List.length_drop]
      omega
  · cases h

theorem length_of_decode {s d : List UInt8} (h : decode s = some d) :
    s.length % 4 = 0 ∧ s.length / 4 * 3 = d.length + padding s := by
  obtain ⟨tail, hblocks, htail⟩ := blocks_of_decode h
  obtain ⟨hmod, hlen⟩ := length_blocks hblocks
  rw [List.length_append] at hlen
  exact ⟨hmod, by omega⟩

/-! ### The alphabet -/

theorem sextet_eq_some {c : UInt8} {v : Nat} (h : sextet c = some v) :
    (value c).isSome = true ∨ c = pad := by
  unfold sextet at h
  split at h
  · exact .inr (by assumption)
  · exact .inl (h ▸ rfl)

theorem mem_of_blocks {s d : List UInt8} (h : blocks s = some d) {c : UInt8} (hc : c ∈ s) :
    (value c).isSome = true ∨ c = pad := by
  induction s using blocks.induct generalizing d with
  | case1 => cases hc
  | case2 x y z w s ih =>
      simp only [blocks, block, Option.bind_eq_bind, Option.bind_eq_some_iff, Option.pure_def,
        Option.some.injEq] at h
      obtain ⟨-, ⟨_, hx, _, hy, _, hz, _, hw, -⟩, rest, hrest, -⟩ := h
      simp only [List.mem_cons] at hc
      obtain rfl | rfl | rfl | rfl | hc := hc
      · exact sextet_eq_some hx
      · exact sextet_eq_some hy
      · exact sextet_eq_some hz
      · exact sextet_eq_some hw
      · exact ih hrest hc
  | case3 s hnil hcons => simp [blocks] at h

/-- The characters of a text are those of the alphabet and the padding. -/
theorem mem_of_decode {s d : List UInt8} (h : decode s = some d) {c : UInt8} (hc : c ∈ s) :
    (value c).isSome = true ∨ c = pad := by
  obtain ⟨tail, hblocks, -⟩ := blocks_of_decode h
  exact mem_of_blocks hblocks hc

theorem mem_chars {n : Nat} (hn : n < 16777216) {c : UInt8} (hc : c ∈ chars n) :
    ∃ v < 64, c = char v := by
  simp only [chars, List.mem_cons, List.not_mem_nil, or_false] at hc
  obtain rfl | rfl | rfl | rfl := hc
  · exact ⟨_, by omega, rfl⟩
  · exact ⟨_, by omega, rfl⟩
  · exact ⟨_, by omega, rfl⟩
  · exact ⟨_, by omega, rfl⟩

/-- A text is characters of the alphabet and then its padding; the character before the padding has
its two lowest bits clear. -/
theorem encode_split (d : List UInt8) :
    ∃ body, encode d = body ++ List.replicate (padding (encode d)) pad ∧
      (∀ c ∈ body, ∃ v < 64, c = char v) ∧
      (padding (encode d) ≠ 0 → ∃ front v, v < 64 ∧ v % 4 = 0 ∧ body = front ++ [char v]) := by
  rw [padding_encode]
  induction d using encode.induct with
  | case1 => exact ⟨[], by simp [encode], by simp, by simp⟩
  | case2 a =>
      have hlt := join_lt a 0 0
      refine ⟨(chars (join a 0 0)).take 2, rfl,
        fun c hc => mem_chars hlt (List.mem_of_mem_take hc), fun _ =>
          ⟨[char (join a 0 0 / 262144)], join a 0 0 / 4096 % 64, by omega, ?_, rfl⟩⟩
      unfold join
      simp
      omega
  | case3 a b =>
      have hlt := join_lt a b 0
      refine ⟨(chars (join a b 0)).take 3, rfl,
        fun c hc => mem_chars hlt (List.mem_of_mem_take hc), fun _ =>
          ⟨(chars (join a b 0)).take 2, join a b 0 / 64 % 64, by omega, ?_, rfl⟩⟩
      unfold join
      simp
      omega
  | case4 a b c d ih =>
      obtain ⟨body, hbody, hmem, hlast⟩ := ih
      have hlen : (a :: b :: c :: d).length % 3 = d.length % 3 := by
        simp only [List.length_cons]
        omega
      refine ⟨chars (join a b c) ++ body, ?_, ?_, ?_⟩
      · rw [encode, hbody, hlen, List.append_assoc]
      · intro x hx
        obtain hx | hx := List.mem_append.mp hx
        · exact mem_chars (join_lt a b c) hx
        · exact hmem x hx
      · rw [hlen]
        intro hpad
        obtain ⟨front, v, hv, hlow, rfl⟩ := hlast hpad
        exact ⟨chars (join a b c) ++ front, v, hv, hlow, (List.append_assoc ..).symm⟩

theorem decode_encode (d : List UInt8) : decode (encode d) = some d := by
  have hblocks := blocks_encode d
  obtain ⟨body, hbody, hmem, -⟩ := encode_split d
  have hfront : (encode d).take ((encode d).length - padding (encode d)) = body := by
    generalize padding (encode d) = k at hbody
    rw [hbody, List.length_append, List.length_replicate, Nat.add_sub_cancel, List.take_left']
    rfl
  unfold decode
  rw [if_pos, hblocks, Option.map_some, List.length_append, List.length_replicate,
    Nat.add_sub_cancel, List.take_left']
  · rfl
  · rw [hfront, List.all_eq_true]
    intro c hc
    obtain ⟨v, hv, rfl⟩ := hmem c hc
    rw [value_char v hv]
    rfl

/-- Looking at the last two characters is enough to count the padding. -/
theorem padding_of_decode {s d : List UInt8} (h : decode s = some d) (hne : s ≠ []) :
    padding s = (if s[s.length - 1]? = some pad then 1 else 0) +
      (if 2 ≤ s.length ∧ s[s.length - 2]? = some pad then 1 else 0) := by
  have hmod := (length_of_decode h).1
  have hlen := List.length_pos_of_ne_nil hne
  obtain ⟨x, y, r, rfl⟩ : ∃ x y r, s = r ++ [y, x] := by
    have hsplit := List.take_append_drop (s.length - 2) s
    have htwo : (s.drop (s.length - 2)).length = 2 := by
      rw [List.length_drop]
      omega
    obtain ⟨y, x, hlast⟩ := List.length_eq_two.mp htwo
    exact ⟨x, y, _, by rw [← hlast, hsplit]⟩
  have hall : padding (r ++ [y, x]) = 0 → y ≠ pad := by
    rintro hzero rfl
    unfold decode at h
    split at h
    · rename_i hvalues
      rw [hzero, Nat.sub_zero, List.take_length, List.all_eq_true] at hvalues
      exact absurd (hvalues pad (by simp)) (by decide)
    · cases h
  have hpad : padding (r ++ [y, x]) =
      if x = pad then (if y = pad then 2 else 1) else 0 := by
    by_cases hx : x = pad <;> by_cases hy : y = pad <;> simp [padding, hx, hy]
  have hx : (r ++ [y, x])[(r ++ [y, x]).length - 1]? = some x := by simp
  have hy : (r ++ [y, x])[(r ++ [y, x]).length - 2]? = some y := by simp
  rw [hx, hy, hpad]
  rw [hpad] at hall
  by_cases hxp : x = pad
  · by_cases hyp : y = pad
    · simp [hxp, hyp]
    · simp [hxp, hyp]
  · have hyp := hall (if_neg hxp)
    simp [hxp, hyp]

end Base64
