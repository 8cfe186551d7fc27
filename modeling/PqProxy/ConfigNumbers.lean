import PqProxy.ConfigYaml
import PqProxy.RewriteIndex

/-! Numbers of the configuration file. A number is accepted by its converted value, so that what
follows it is ignored, and a conversion that wraps or saturates goes unnoticed. -/

namespace ConfigYaml

/-- A decimal integer: digits behind an optional sign. -/
inductive Numeral : Text → Int → Prop
  | plain {digits : Text} : digits ≠ [] → (∀ c ∈ digits, c.isDigit = true) →
      Numeral digits (digitsValue 0 digits)
  | plus {digits : Text} : digits ≠ [] → (∀ c ∈ digits, c.isDigit = true) →
      Numeral ('+' :: digits) (digitsValue 0 digits)
  | minus {digits : Text} : digits ≠ [] → (∀ c ∈ digits, c.isDigit = true) →
      Numeral ('-' :: digits) (-(digitsValue 0 digits : Int))

/-- The text of the number that a setting takes from a value, where there is one. -/
def Setting.numberText (val : Text) : Setting → Option Text
  | .listenPort | .identitySlot | .backendPort | .backendPoolSize | .metricsLogMs | .metricsHttpPort
  | .maintainMs => some val
  | .listen | .backend | .metricsHttp => if ':' ∈ val then some (portPart val) else none
  | _ => none

/-- A port with nothing in front of its colon. -/
def Setting.Hostless (val : Text) : Setting → Prop
  | .listen | .backend | .metricsHttp => ':' ∈ val ∧ hostPart val = []
  | _ => False

/-- The numbers a setting is for. -/
def Setting.range : Setting → Int × Int
  | .listenPort | .listen | .backend | .metricsHttp => (1, 65535)
  | .identitySlot => (-1, 32767)
  | .backendPoolSize => (0, 18446744073709551615)
  | .metricsLogMs | .maintainMs => (0, 2147483647)
  | _ => (0, 65535)

def Setting.Admits (s : Setting) (v : Int) : Prop := s.range.1 ≤ v ∧ v ≤ s.range.2

/-- The field of a setting that holds a number. -/
def Setting.stored (c : Config) : Setting → Int
  | .listenPort | .listen => c.listenPort
  | .identitySlot => c.identitySlot
  | .backendPort | .backend => c.backendPort
  | .backendPoolSize => c.backendPoolSize
  | .metricsLogMs => c.metricsLogIntervalMs
  | .metricsHttpPort | .metricsHttp => c.metricsHttpPort
  | .maintainMs => c.maintainIntervalMs
  | _ => 0

/-- What a number has become when its range is checked. -/
def Setting.converted (v : Int) : Setting → Int
  | .listenPort | .backendPort | .metricsHttpPort | .backendPoolSize => clampLong v
  | _ => (clampLong v).bmod 4294967296

/-- A host in front of a port has to fit, and there must be room for its copy. -/
def Setting.Copies (oom : Bool) (b : Bundle) (val : Text) : Setting → Prop
  | .listen | .backend | .metricsHttp =>
      (hostPart val).length < 256 ∧ b.owned.length < cfgOwnedMax ∧ oom = false
  | _ => True

/-- A value is accepted only if its number is a decimal integer in range, and is then stored. -/
def TakenExactly (oom : Bool) (b : Bundle) (key : String) (s : Setting) (val : Text) : Prop :=
  ∀ b', applyScalar oom b key val = .ok b' → ∀ t, s.numberText val = some t →
    ∃ v, Numeral t v ∧ s.Admits v ∧ s.stored b'.cfg = v

/-- A number that passes the check after its conversion is a numeral as a whole, and was not changed
by the conversion. A port without a host is not even looked at, so it has to be there already. -/
structure Exact (oom : Bool) (b : Bundle) (s : Setting) (val : Text) : Prop where
  read : ∀ t v rest, s.numberText val = some t → ¬ s.Hostless val → leadingNumber t = some (v, rest) →
    s.Admits (s.converted v) → s.Copies oom b val → Numeral t v ∧ s.converted v = v
  hostless : s.Hostless val → s.Copies oom b val →
    ∃ v, Numeral (portPart val) v ∧ s.Admits v ∧ s.stored b.cfg = v

/-! ### Reading numbers -/

theorem takeWhile_digits {digits : Text} (h : ∀ c ∈ digits, c.isDigit = true) :
    digits.takeWhile Char.isDigit = digits := List.takeWhile_eq_self_iff.mpr h

theorem dropWhile_digits {digits : Text} (h : ∀ c ∈ digits, c.isDigit = true) :
    digits.dropWhile Char.isDigit = [] := List.dropWhile_eq_nil_iff.mpr h

/-- A text of digits, or behind a sign, is not preceded by white space. -/
theorem dropWhile_space {c : Char} (s : Text) (h : c.isDigit = true ∨ c = '+' ∨ c = '-') :
    ((c :: s).dropWhile fun c => c == ' ' || ('\t' ≤ c && c ≤ '\r')) = c :: s := by
  rw [List.dropWhile_cons_of_neg]
  rcases h with h | rfl | rfl
  · rw [not_isSpace_of_isDigit h]
    exact Bool.false_ne_true
  · decide
  · decide

theorem signed_other {s : Text} (hminus : ∀ r, s ≠ '-' :: r) (hplus : ∀ r, s ≠ '+' :: r) :
    signed s = (false, s) := by
  unfold signed
  split
  · exact absurd rfl (hminus _)
  · exact absurd rfl (hplus _)
  · rfl

theorem signed_digits {c : Char} (s : Text) (h : c.isDigit = true) : signed (c :: s) = (false, c :: s) := by
  apply signed_other
  · rintro r hr
    rw [(List.cons.inj hr).1] at h
    exact absurd h (by decide)
  · rintro r hr
    rw [(List.cons.inj hr).1] at h
    exact absurd h (by decide)

/-- Digits behind a sign are read to their end. -/
theorem leadingNumber_signed {t digits : Text} {minus : Bool} (hne : digits ≠ [])
    (hd : ∀ c ∈ digits, c.isDigit = true)
    (hs : signed (t.dropWhile fun c => c == ' ' || ('\t' ≤ c && c ≤ '\r')) = (minus, digits)) :
    leadingNumber t =
      some (if minus then -(digitsValue 0 digits : Int) else digitsValue 0 digits, []) := by
  unfold leadingNumber
  rw [hs]
  dsimp only
  rw [takeWhile_digits hd, if_neg hne, dropWhile_digits hd]

/-- Of a numeral the whole text is read. -/
theorem Numeral.leadingNumber {t : Text} {v : Int} (h : Numeral t v) :
    leadingNumber t = some (v, []) := by
  cases h with
  | plain hne hd =>
      obtain ⟨c, digits, rfl⟩ := List.exists_cons_of_ne_nil hne
      have hc := hd c List.mem_cons_self
      exact leadingNumber_signed hne hd (by rw [dropWhile_space _ (Or.inl hc), signed_digits _ hc])
  | plus hne hd =>
      exact leadingNumber_signed hne hd (by rw [dropWhile_space _ (Or.inr (Or.inl rfl))]; rfl)
  | minus hne hd =>
      exact leadingNumber_signed hne hd (by rw [dropWhile_space _ (Or.inr (Or.inr rfl))]; rfl)

theorem digitsValue_none {s : Text} (h : s.takeWhile Char.isDigit = []) : digitsValue 0 s = 0 := by
  cases s with
  | nil => rfl
  | cons c s =>
      have hc : ¬ c.isDigit = true := fun hc => by
        rw [List.takeWhile_cons_of_pos hc] at h
        cases h
      rw [digitsValue, if_neg hc]

theorem atoi_signed (t : Text) :
    let r := signed (t.dropWhile fun c => c == ' ' || ('\t' ≤ c && c ≤ '\r'))
    atoi t = (clampLong (if r.1 then -(digitsValue 0 r.2 : Int) else digitsValue 0 r.2)).bmod
      4294967296 := by
  unfold atoi
  generalize (t.dropWhile fun c => c == ' ' || ('\t' ≤ c && c ≤ '\r')) = s
  dsimp only
  congr 1
  split
  · rw [signed, if_pos rfl, clampLong]
    dsimp only
    omega
  · rw [signed, if_neg Bool.false_ne_true, clampLong]
    dsimp only
    omega
  · rename_i hminus hplus
    rw [signed_other (fun r h => hminus r h) fun r h => hplus r h, if_neg Bool.false_ne_true, clampLong]
    dsimp only
    omega

/-- `atoi` reads the same number, or nothing, which is taken for zero. -/
theorem atoi_eq (t : Text) :
    atoi t = ((leadingNumber t).map fun r => (clampLong r.1).bmod 4294967296).getD 0 := by
  rw [atoi_signed]
  unfold leadingNumber
  generalize signed (t.dropWhile fun c => c == ' ' || ('\t' ≤ c && c ≤ '\r')) = r
  obtain ⟨minus, body⟩ := r
  dsimp only
  by_cases hnone : body.takeWhile Char.isDigit = []
  · rw [if_pos hnone, digitsValue_none hnone]
    cases minus <;> rfl
  · rw [if_neg hnone]
    rfl

/-! ### The settings with a number -/

section

variable {t rest : Text} {v : Int}

theorem strtol_eq (h : leadingNumber t = some (v, rest)) : strtol t = some (clampLong v) := by
  rw [strtol, h, Option.map_some]

theorem strtol_none (h : leadingNumber t = none) : strtol t = none := by
  rw [strtol, h, Option.map_none]

theorem parseU16_eq (h : leadingNumber t = some (v, rest)) :
    parseU16 t = if 0 ≤ clampLong v ∧ clampLong v ≤ 65535 then some (clampLong v).toNat else none := by
  rw [parseU16, strtol_eq h]
  dsimp only
  split <;> split <;> first | rfl | omega

theorem parseInt_eq (h : leadingNumber t = some (v, rest)) :
    parseInt t = some ((clampLong v).bmod 4294967296) := by rw [parseInt, strtol_eq h]

theorem parseSize_eq (h : leadingNumber t = some (v, rest)) :
    parseSize t = if 0 ≤ clampLong v then some (clampLong v).toNat else none := by
  rw [parseSize, strtol_eq h]
  dsimp only
  split <;> split <;> first | rfl | omega

end

/-- What becomes of a value whose number is `v`: it is taken, as what the number was converted to, or
there is a complaint. -/
structure Taken (oom : Bool) (b : Bundle) (s : Setting) (val : Text) (v : Int)
    (r : Except String Bundle) : Prop where
  stored : ∀ b', r = .ok b' →
    s.Copies oom b val ∧ s.Admits (s.converted v) ∧ s.stored b'.cfg = s.converted v
  taken : s.Copies oom b val → s.Admits (s.converted v) → ∃ b', r = .ok b'

theorem taken_of_value {α : Type} {oom : Bool} {b : Bundle} {s : Setting} {val : Text} {v : Int}
    {value : Option α} {complaint : String} {f : α → Config → Config} (hcopies : s.Copies oom b val)
    (hsome : ∀ a, value = some a → s.Admits (s.converted v) ∧ s.stored (f a b.cfg) = s.converted v)
    (hnone : value = none → ¬ s.Admits (s.converted v)) :
    Taken oom b s val v (setValue b value complaint f) := by
  cases value with
  | none => exact ⟨fun b' h => (by cases h), fun _ hin => absurd hin (hnone rfl)⟩
  | some a =>
      refine ⟨fun b' h => ?_, fun _ _ => ⟨_, rfl⟩⟩
      cases h
      exact ⟨hcopies, hsome a rfl⟩

theorem int_bounds (v : Int) :
    -2147483648 ≤ v.bmod 4294967296 ∧ v.bmod 4294967296 < 2147483648 := by
  rw [Int.bmod_def]
  split <;> omega

theorem address_text {val t : Text} (h : (if ':' ∈ val then some (portPart val) else none) = some t) :
    ':' ∈ val ∧ portPart val = t := by
  split at h
  · rename_i hcolon
    exact ⟨hcolon, Option.some.inj h⟩
  · cases h

/-- A port is taken where its host can be copied. -/
theorem taken_of_address {oom : Bool} {b : Bundle} {s : Setting} {val t rest : Text} {v : Int}
    {host : Text → Config → Config} {port : Nat → Config → Config}
    (htext : (if ':' ∈ val then some (portPart val) else none) = some t)
    (hhost : ¬ (':' ∈ val ∧ hostPart val = []))
    (hv : leadingNumber t = some (v, rest)) (hrange : s.range = (1, 65535))
    (hconv : s.converted v = (clampLong v).bmod 4294967296)
    (hcopies : s.Copies oom b val ↔
      (hostPart val).length < 256 ∧ b.owned.length < cfgOwnedMax ∧ oom = false)
    (hstored : ∀ p c, s.stored (port p c) = p) :
    Taken oom b s val v (setAddress oom b val host port) := by
  obtain ⟨hcolon, hpart⟩ := address_text htext
  have hform : ¬ (':' ∉ val ∨ hostPart val = []) := by
    rintro (h | h)
    · exact h hcolon
    · exact hhost ⟨hcolon, h⟩
  have hport : atoi (portPart val) = (clampLong v).bmod 4294967296 := by
    rw [hpart, atoi_eq, hv]
    rfl
  have hin : s.Admits (s.converted v) ↔
      ¬ (atoi (portPart val) % 4294967296 = 0 ∨ 65535 < atoi (portPart val) % 4294967296) := by
    unfold Setting.Admits
    rw [hrange, hconv, hport]
    have hbounds := int_bounds (clampLong v)
    dsimp only
    omega
  unfold setAddress setHostport bundleStrdup
  rw [if_neg hform]
  by_cases hlong : 256 ≤ (hostPart val).length
  · rw [if_pos hlong]
    exact ⟨fun b' h => (by cases h), fun hc _ => absurd (hcopies.mp hc).1 (Nat.not_lt.mpr hlong)⟩
  rw [if_neg hlong]
  dsimp only
  by_cases hbad : atoi (portPart val) % 4294967296 = 0 ∨ 65535 < atoi (portPart val) % 4294967296
  · rw [if_pos hbad]
    exact ⟨fun b' h => (by cases h), fun _ h => absurd hbad (hin.mp h)⟩
  rw [if_neg hbad]
  by_cases hroom : cfgOwnedMax ≤ b.owned.length ∨ oom = true
  · rw [if_pos hroom, Option.map_none]
    refine ⟨fun b' h => (by cases h), fun hc _ => ?_⟩
    obtain ⟨-, hlt, hoom⟩ := hcopies.mp hc
    rcases hroom with h | h
    · omega
    · rw [hoom] at h
      cases h
  rw [if_neg hroom, Option.map_some]
  refine ⟨fun b' h => ?_, fun _ _ => ⟨_, rfl⟩⟩
  cases h
  refine ⟨hcopies.mpr ⟨by omega, ?_, ?_⟩, hin.mpr hbad, ?_⟩
  · exact Nat.not_le.mp fun h => hroom (Or.inl h)
  · exact Bool.eq_false_iff.mpr fun h => hroom (Or.inr h)
  · rw [hstored, hconv, hport]
    rw [hport] at hbad
    have hbounds := int_bounds (clampLong v)
    omega

theorem taken_u16 {oom : Bool} {b : Bundle} {s : Setting} {val rest : Text} {v : Int}
    {complaint : String} {f : Nat → Config → Config} (hv : leadingNumber val = some (v, rest))
    (hconv : s.converted v = clampLong v) (hrange : s.range = (0, 65535))
    (hcopies : s.Copies oom b val) (hstored : ∀ a c, s.stored (f a c) = a) :
    Taken oom b s val v (setValue b (parseU16 val) complaint f) := by
  apply taken_of_value hcopies
  · intro a ha
    rw [parseU16_eq hv] at ha
    split at ha
    · cases ha
      rename_i hin
      rw [hstored, Setting.Admits, hrange, hconv]
      exact ⟨hin, Int.toNat_of_nonneg hin.1⟩
    · cases ha
  · intro hnone
    rw [parseU16_eq hv] at hnone
    split at hnone
    · cases hnone
    · rename_i hout
      rw [Setting.Admits, hrange, hconv]
      exact hout

/-- An `int` that passes a check of its own. -/
theorem taken_int {oom : Bool} {b : Bundle} {s : Setting} {val rest : Text} {v : Int}
    {complaint : String} {f : Int → Config → Config} {check : Int → Bool}
    (hv : leadingNumber val = some (v, rest)) (hconv : s.converted v = (clampLong v).bmod 4294967296)
    (hcheck : ∀ x, -2147483648 ≤ x → x < 2147483648 → (check x = true ↔ s.Admits x))
    (hcopies : s.Copies oom b val) (hstored : ∀ a c, s.Admits a → s.stored (f a c) = a) :
    Taken oom b s val v (setValue b ((parseInt val).filter check) complaint f) := by
  have hbounds := int_bounds (clampLong v)
  have hadmits := hcheck _ hbounds.1 hbounds.2
  apply taken_of_value hcopies
  · intro a ha
    rw [parseInt_eq hv, Option.filter_some] at ha
    split at ha
    · cases ha
      rename_i hin
      rw [hconv]
      exact ⟨hadmits.mp hin, hstored _ _ (hadmits.mp hin)⟩
    · cases ha
  · intro hnone hin
    rw [hconv] at hin
    rw [parseInt_eq hv, Option.filter_some, if_pos (hadmits.mpr hin)] at hnone
    cases hnone

theorem taken_listenPort {oom : Bool} {b : Bundle} {val rest : Text} {v : Int}
    (hv : leadingNumber val = some (v, rest)) :
    Taken oom b .listenPort val v (applySetting oom b val .listenPort) := by
  unfold applySetting
  apply taken_of_value (s := .listenPort) trivial
  · intro a ha
    obtain ⟨ha, hne⟩ := Option.filter_eq_some_iff.mp ha
    rw [parseU16_eq hv] at ha
    split at ha
    · cases ha
      rename_i hin
      have hzero : (clampLong v).toNat ≠ 0 := by simpa using hne
      exact ⟨⟨by change 1 ≤ clampLong v; omega, hin.2⟩, Int.toNat_of_nonneg hin.1⟩
    · cases ha
  · rintro hnone ⟨hlow, hhigh⟩
    have hlow' : 1 ≤ clampLong v := hlow
    have hhigh' : clampLong v ≤ 65535 := hhigh
    rw [parseU16_eq hv, if_pos ⟨by omega, hhigh'⟩] at hnone
    have hne : (clampLong v).toNat ≠ 0 := by omega
    simp [hne] at hnone

theorem taken_poolSize {oom : Bool} {b : Bundle} {val rest : Text} {v : Int}
    (hv : leadingNumber val = some (v, rest)) :
    Taken oom b .backendPoolSize val v (applySetting oom b val .backendPoolSize) := by
  have hlong : clampLong v ≤ 9223372036854775807 := by
    unfold clampLong
    omega
  unfold applySetting
  apply taken_of_value (s := .backendPoolSize) trivial
  · intro a ha
    rw [parseSize_eq hv] at ha
    split at ha
    · cases ha
      rename_i hin
      refine ⟨⟨hin, ?_⟩, Int.toNat_of_nonneg hin⟩
      change clampLong v ≤ 18446744073709551615
      omega
    · cases ha
  · rintro hnone ⟨hlow, -⟩
    have hlow' : 0 ≤ clampLong v := hlow
    rw [parseSize_eq hv, if_pos hlow'] at hnone
    cases hnone

/-- An address with a port is none of the words that switch the listener off. -/
theorem not_off {val : Text} (h : ':' ∈ val) : val ∉ ["off".toList, "false".toList, "0".toList] := by
  intro hmem
  have hplain : ∀ x ∈ ["off".toList, "false".toList, "0".toList], ':' ∉ x := by decide
  exact hplain val hmem h

/-- Every setting with a number takes it so. -/
theorem taken_number {oom : Bool} {b : Bundle} {s : Setting} {val t rest : Text} {v : Int}
    (htext : s.numberText val = some t) (hhost : ¬ s.Hostless val)
    (hv : leadingNumber t = some (v, rest)) : Taken oom b s val v (applySetting oom b val s) := by
  unfold applySetting
  cases s with
  | listenPort =>
      cases htext
      exact taken_listenPort hv
  | listen => exact taken_of_address (s := .listen) htext hhost hv rfl rfl Iff.rfl fun _ _ => rfl
  | backend => exact taken_of_address (s := .backend) htext hhost hv rfl rfl Iff.rfl fun _ _ => rfl
  | metricsHttp =>
      dsimp only
      rw [if_neg (not_off (address_text htext).1)]
      exact taken_of_address (s := .metricsHttp) htext hhost hv rfl rfl Iff.rfl fun _ _ => rfl
  | backendPort =>
      cases htext
      exact taken_u16 (s := .backendPort) hv rfl rfl trivial fun _ _ => rfl
  | metricsHttpPort =>
      cases htext
      exact taken_u16 (s := .metricsHttpPort) hv rfl rfl trivial fun _ _ => rfl
  | backendPoolSize =>
      cases htext
      exact taken_poolSize hv
  | identitySlot =>
      cases htext
      refine taken_int (s := .identitySlot) hv rfl (fun x _ _ => ?_) trivial ?_
      · rw [decide_eq_true_iff]
        rfl
      · rintro a c ⟨hlow, hhigh⟩
        have hlow' : -1 ≤ a := hlow
        have hhigh' : a ≤ 32767 := hhigh
        exact Int.bmod_eq_of_le (by omega) (by omega)
  | metricsLogMs =>
      cases htext
      refine taken_int (s := .metricsLogMs) hv rfl (fun x _ hx => ?_) trivial fun _ _ _ => rfl
      rw [decide_eq_true_iff]
      exact (and_iff_left (by change x ≤ 2147483647; omega)).symm
  | maintainMs =>
      cases htext
      refine taken_int (s := .maintainMs) hv rfl (fun x _ hx => ?_) trivial fun _ _ _ => rfl
      rw [decide_eq_true_iff]
      exact (and_iff_left (by change x ≤ 2147483647; omega)).symm
  | _ => cases htext

theorem refused_number {oom : Bool} {b : Bundle} {s : Setting} {val t : Text}
    (htext : s.numberText val = some t) (hhost : ¬ s.Hostless val) (hv : leadingNumber t = none)
    (b' : Bundle) : applySetting oom b val s ≠ .ok b' := by
  have haddress : ∀ host port, (if ':' ∈ val then some (portPart val) else none) = some t →
      ¬ (':' ∈ val ∧ hostPart val = []) → setAddress oom b val host port ≠ .ok b' := by
    intro host port htext hhost
    obtain ⟨hcolon, hpart⟩ := address_text htext
    have hport : atoi (portPart val) = 0 := by
      rw [hpart, atoi_eq, hv]
      rfl
    unfold setAddress setHostport
    rw [if_neg (not_or.mpr ⟨not_not.mpr hcolon, fun h => hhost ⟨hcolon, h⟩⟩), hport]
    dsimp only
    have hzero : (0 : Int) % 4294967296 = 0 ∨ 65535 < (0 : Int) % 4294967296 := Or.inl rfl
    rw [if_pos hzero, ite_self]
    simp
  unfold applySetting
  cases s with
  | listen => exact haddress _ _ htext hhost
  | backend => exact haddress _ _ htext hhost
  | metricsHttp =>
      dsimp only
      rw [if_neg (not_off (address_text htext).1)]
      exact haddress _ _ htext hhost
  | listenPort | backendPort | metricsHttpPort =>
      cases htext
      simp [parseU16, strtol_none hv, setValue]
  | backendPoolSize =>
      cases htext
      simp [parseSize, strtol_none hv, setValue]
  | identitySlot | metricsLogMs | maintainMs =>
      cases htext
      simp [parseInt, strtol_none hv, setValue]
  | _ => cases htext

/-- What becomes of a port without a host: the whole text is the host, the field stays as it was. -/
structure Overlooked (oom : Bool) (b : Bundle) (s : Setting) (val : Text)
    (r : Except String Bundle) : Prop where
  stored : ∀ b', r = .ok b' → s.Copies oom b val ∧ s.stored b'.cfg = s.stored b.cfg
  taken : s.Copies oom b val → ∃ b', r = .ok b'

theorem overlooked_of_address {oom : Bool} {b : Bundle} {s : Setting} {val : Text}
    {host : Text → Config → Config} {port : Nat → Config → Config} (hhost : hostPart val = [])
    (hcopies : s.Copies oom b val ↔
      (hostPart val).length < 256 ∧ b.owned.length < cfgOwnedMax ∧ oom = false)
    (hstored : ∀ t c, s.stored (host t c) = s.stored c) :
    Overlooked oom b s val (setAddress oom b val host port) := by
  have hfits : s.Copies oom b val ↔ b.owned.length < cfgOwnedMax ∧ oom = false := by
    rw [hcopies, hhost]
    exact and_iff_right (by decide)
  unfold setAddress setHostport bundleStrdup
  rw [if_pos (Or.inr hhost)]
  by_cases hroom : cfgOwnedMax ≤ b.owned.length ∨ oom = true
  · rw [if_pos hroom, Option.map_none]
    refine ⟨fun b' h => (by cases h), fun hc => ?_⟩
    obtain ⟨hlt, hoom⟩ := hfits.mp hc
    rcases hroom with h | h
    · omega
    · rw [hoom] at h
      cases h
  rw [if_neg hroom, Option.map_some]
  refine ⟨fun b' h => ?_, fun _ => ⟨_, rfl⟩⟩
  cases h
  refine ⟨hfits.mpr ⟨?_, ?_⟩, hstored _ _⟩
  · exact Nat.not_le.mp fun h => hroom (Or.inl h)
  · exact Bool.eq_false_iff.mpr fun h => hroom (Or.inr h)

/-- No setting looks at a port without a host. -/
theorem overlooked_number {oom : Bool} {b : Bundle} {s : Setting} {val : Text}
    (h : s.Hostless val) : Overlooked oom b s val (applySetting oom b val s) := by
  unfold applySetting
  cases s with
  | listen => exact overlooked_of_address (s := .listen) h.2 Iff.rfl fun _ _ => rfl
  | backend => exact overlooked_of_address (s := .backend) h.2 Iff.rfl fun _ _ => rfl
  | metricsHttp =>
      dsimp only
      rw [if_neg (not_off h.1)]
      exact overlooked_of_address (s := .metricsHttp) h.2 Iff.rfl fun _ _ => rfl
  | _ => exact h.elim

theorem numberText_hostless {s : Setting} {val : Text} (h : s.Hostless val) :
    s.numberText val = some (portPart val) := by
  cases s with
  | listen | backend | metricsHttp => exact if_pos h.1
  | _ => exact h.elim

theorem applyScalar_ok {oom : Bool} {b b' : Bundle} {s : Setting} {key : String} {val : Text}
    (hkey : key ∈ s.names) : applyScalar oom b key val = .ok b' ↔ applySetting oom b val s = .ok b' := by
  unfold applyScalar
  rw [settingOf_name hkey]
  dsimp only
  cases applySetting oom b val s with
  | error complaint => simp
  | ok after => simp

/-- Numbers are taken exactly or rejected exactly where each accepted one is a numeral as a whole
that its conversion leaves alone, or the port that is not looked at happens to be there already. -/
theorem numbers_exact_iff (oom : Bool) (b : Bundle) (s : Setting) (key : String) (val : Text)
    (hkey : key ∈ s.names) : TakenExactly oom b key s val ↔ Exact oom b s val := by
  constructor
  · intro h
    refine ⟨fun t v rest htext hhost hv hin hcopies => ?_, fun hhost hcopies => ?_⟩
    · have htaken : Taken oom b s val v _ := taken_number htext hhost hv
      obtain ⟨b', hb'⟩ := htaken.taken hcopies hin
      obtain ⟨v', hnum, -, hstored⟩ := h b' ((applyScalar_ok hkey).mpr hb') t htext
      have heq := hnum.leadingNumber.symm.trans hv
      cases heq
      exact ⟨hnum, (htaken.stored b' hb').2.2.symm.trans hstored⟩
    · have hover : Overlooked oom b s val _ := overlooked_number hhost
      obtain ⟨b', hb'⟩ := hover.taken hcopies
      obtain ⟨v, hnum, hin, hstored⟩ :=
        h b' ((applyScalar_ok hkey).mpr hb') _ (numberText_hostless hhost)
      exact ⟨v, hnum, hin, (hover.stored b' hb').2.symm.trans hstored⟩
  · intro h b' hb' t htext
    have happly := (applyScalar_ok hkey).mp hb'
    by_cases hhost : s.Hostless val
    · obtain ⟨hcopies, hkept⟩ := (overlooked_number hhost).stored b' happly
      obtain ⟨v, hnum, hin, hstored⟩ := h.hostless hhost hcopies
      rw [numberText_hostless hhost] at htext
      cases htext
      exact ⟨v, hnum, hin, hkept.trans hstored⟩
    cases hv : leadingNumber t with
    | none => exact absurd happly (refused_number htext hhost hv b')
    | some r =>
        have htaken : Taken oom b s val r.1 _ := taken_number htext hhost hv
        obtain ⟨hcopies, hin, hstored⟩ := htaken.stored b' happly
        obtain ⟨hnum, hconv⟩ := h.read t r.1 r.2 htext hhost hv hin hcopies
        rw [hconv] at hin hstored
        exact ⟨r.1, hnum, hin, hstored⟩

theorem numbers_exact_slot : TakenExactly false bundleInit "identity.slot" .identitySlot "2".toList :=
  (numbers_exact_iff false bundleInit .identitySlot "identity.slot" "2".toList (by decide)).mpr (by
    refine ⟨fun t v rest htext _ hv _ _ => ?_, fun h => h.elim⟩
    cases htext
    rw [show leadingNumber "2".toList = some (2, []) by decide] at hv
    cases hv
    exact ⟨.plain (by decide) (forall_mem_of_all (by decide)), by decide⟩)

/-- The slot 4294967296 is taken for the slot 0. -/
theorem slot_wraps : ¬ ∀ (oom : Bool) (b : Bundle) (s : Setting) (key : String) (val : Text),
    key ∈ s.names → TakenExactly oom b key s val := by
  intro h
  have hval : leadingNumber "4294967296".toList = some (4294967296, []) := by decide
  have hread : parseInt "4294967296".toList = some 0 := by decide
  have htaken := h false bundleInit .identitySlot "identity.slot" "4294967296".toList (by decide)
  obtain ⟨v, hnum, -, hstored⟩ := htaken
    { bundleInit with cfg := { bundleInit.cfg with identitySlot := toInt16 0 } }
    ((applyScalar_ok (s := .identitySlot) (by decide)).mpr (by
      unfold applySetting
      rw [hread]
      rfl)) _ rfl
  have hv := hnum.leadingNumber.symm.trans hval
  cases hv
  exact absurd hstored (by decide)

end ConfigYaml
