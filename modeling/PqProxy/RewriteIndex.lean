import PqProxy.RewriteSlot

/-! Identity parameters that are given by their index, `3` or `$4`. The numeral goes through `long`,
`int` and twice through `int16_t`, and only the sign of what is left decides whether it is used. -/

/-- The parameter name for a numeral, written with a dollar sign or without. -/
def indexName (dollar : Bool) (digits : Text) : Text := if dollar then '$' :: digits else digits

/-- The index it stands for: placeholders count from one. -/
def namedIndex (dollar : Bool) (digits : Text) : Int :=
  digitsValue 0 digits - if dollar then 1 else 0

/-- The slot to be used for an index. -/
def usableSlot (index fallback : Int) : Int :=
  if 0 ≤ index ∧ index ≤ 32767 then index else fallback

/-! ### Reading a numeral -/

theorem not_isSpace_of_isDigit {c : Char} (h : c.isDigit = true) :
    (c == ' ' || ('\t' ≤ c && c ≤ '\r')) = false := by
  have hrange : 48 ≤ c.toNat := by
    simp only [Char.isDigit, Bool.and_eq_true, decide_eq_true_eq] at h
    exact h.1
  have hspace : c ≠ ' ' := by
    rintro rfl
    exact absurd hrange (by decide)
  have hreturn : ¬ c ≤ '\r' := fun hle => by
    have hcode : c.toNat ≤ 13 := hle
    omega
  simp [hspace, hreturn]

/-- A numeral of any length is read as its value, as far as a `long` goes. -/
theorem atoi_digits {digits : Text} (hdigits : ∀ c ∈ digits, c.isDigit = true) :
    atoi digits = (min (digitsValue 0 digits : Int) 9223372036854775807).bmod 4294967296 := by
  have hdrop : (digits.dropWhile fun c => c == ' ' || ('\t' ≤ c && c ≤ '\r')) = digits := by
    cases digits with
    | nil => rfl
    | cons c digits =>
        rw [List.dropWhile_cons_of_neg]
        rw [not_isSpace_of_isDigit (hdigits c List.mem_cons_self)]
        simp
  unfold atoi
  rw [hdrop]
  dsimp only
  split
  · exact absurd (hdigits '-' List.mem_cons_self) (by decide)
  · exact absurd (hdigits '+' List.mem_cons_self) (by decide)
  · rfl

/-- What is left of the numeral after the conversion to `int16_t`. -/
theorem toInt16_atoi {digits : Text} (hdigits : ∀ c ∈ digits, c.isDigit = true) :
    toInt16 (atoi digits) =
      if digitsValue 0 digits < 9223372036854775808 then (digitsValue 0 digits : Int).bmod 65536
      else -1 := by
  rw [atoi_digits hdigits, toInt16, Int.bmod_bmod_of_dvd (by decide)]
  split
  · rw [min_eq_left (by omega)]
  · rw [min_eq_right (by omega)]
    decide

/-- The slot a numeral resolves to is its index where that wraps to one that is not negative. -/
theorem resolve_index (dollar : Bool) {digits : Text} (hne : digits ≠ [])
    (hdigits : ∀ c ∈ digits, c.isDigit = true) (query : Text) (fallback : Int) :
    resolveIdentitySlot query (some (indexName dollar digits)) fallback =
      if digitsValue 0 digits < 9223372036854775808 then (namedIndex dollar digits).bmod 65536
      else if dollar then -2 else -1 := by
  have hread := toInt16_atoi hdigits
  unfold indexName namedIndex
  cases dollar with
  | true =>
      change toInt16 (toInt16 (atoi digits) - 1) = _
      rw [hread]
      split
      · rw [toInt16, Int.bmod_sub_bmod]
        rfl
      · decide
  | false =>
      obtain ⟨c, digits, rfl⟩ := List.exists_cons_of_ne_nil hne
      have hc : c ≠ '$' := by
        rintro rfl
        exact absurd (hdigits '$' List.mem_cons_self) (by decide)
      have hall : (c :: digits).all Char.isDigit = true := List.all_eq_true.mpr hdigits
      have hplain : resolveIdentitySlot query (some (c :: digits)) fallback =
          toInt16 (atoi (c :: digits)) := by
        unfold resolveIdentitySlot
        split
        · rename_i h
          cases h
        · rename_i h
          cases h
        · rename_i h
          cases h
          exact absurd rfl hc
        · rename_i h
          cases h
          exact if_pos hall
      change resolveIdentitySlot query (some (c :: digits)) fallback = _
      rw [hplain, hread]
      simp

/-- The slot that is cached for a numeral. -/
theorem parseSlot_index (dollar : Bool) {digits : Text} (hne : digits ≠ [])
    (hdigits : ∀ c ∈ digits, c.isDigit = true) (query : Text) (fallback : Int) :
    parseSlot query fallback (some (indexName dollar digits)) =
      if digitsValue 0 digits < 9223372036854775808 ∧ namedIndex dollar digits % 65536 < 32768 ∧
        0 ≤ namedIndex dollar digits
      then namedIndex dollar digits % 65536 else fallback := by
  have hname : indexName dollar digits ≠ [] := by
    cases dollar with
    | true => exact List.cons_ne_nil _ _
    | false => exact hne
  rw [parseSlot, Option.getD_some, if_neg hname, resolve_index dollar hne hdigits]
  have hlow : -1 ≤ namedIndex dollar digits := by
    unfold namedIndex
    split <;> omega
  by_cases hlong : digitsValue 0 digits < 9223372036854775808
  · rw [if_pos hlong, Int.bmod_def]
    split <;> split <;> split <;> omega
  · have hno : ¬ (digitsValue 0 digits < 9223372036854775808 ∧
        namedIndex dollar digits % 65536 < 32768 ∧ 0 ≤ namedIndex dollar digits) := fun h => hlong h.1
    rw [if_neg hlong, if_neg hno]
    cases dollar with
    | true => rfl
    | false => rfl

/-- A numeral selects its own index, or none, exactly unless it wraps to a small one. -/
theorem index_cached_iff {w : Pqwire} (hw : w.PreparesCopies) (frontend : Bytes) (cache : StmtCache)
    (parse : PqParse) (dollar : Bool) {digits : Text} (hne : digits ≠ [])
    (hdigits : ∀ c ∈ digits, c.isDigit = true) (fallback : Int)
    (hput : (stmtCachePut w cache parse
      (parseSlot parse.query fallback (some (indexName dollar digits)))).2 = true) :
    (stmtCacheGet (onParseEx w frontend cache parse fallback
        (some (indexName dollar digits))).2.1 parse.statement).map PreparedStmt.identityParamSlot =
      some (usableSlot (namedIndex dollar digits) fallback) ↔
    namedIndex dollar digits ≤ 32767 ∨ 9223372036854775808 ≤ digitsValue 0 digits ∨
      32768 ≤ namedIndex dollar digits % 65536 ∨ namedIndex dollar digits % 65536 = fallback := by
  rw [onParseEx_cache, stmtCacheGet_put_self hw cache parse _ hput, Option.map_some,
    Option.some.injEq]
  dsimp only
  rw [parseSlot_index dollar hne hdigits, usableSlot]
  unfold namedIndex
  split <;> split <;> omega

/-- The index 65537 is out of range, and selects the second parameter instead. -/
theorem index_wraps : ¬ ∀ (w : Pqwire) (frontend : Bytes) (cache : StmtCache) (parse : PqParse)
    (dollar : Bool) (digits : Text) (fallback : Int), w.PreparesCopies → digits ≠ [] →
    (∀ c ∈ digits, c.isDigit = true) → (stmtCachePut w cache parse
      (parseSlot parse.query fallback (some (indexName dollar digits)))).2 = true →
    (stmtCacheGet (onParseEx w frontend cache parse fallback
        (some (indexName dollar digits))).2.1 parse.statement).map PreparedStmt.identityParamSlot =
      some (usableSlot (namedIndex dollar digits) fallback) := by
  intro h
  have hdigits : ∀ c ∈ "65537".toList, c.isDigit = true := forall_mem_of_all (by decide)
  have hstored := h pgWire [] stmtCacheInit insertParse false "65537".toList 0 WirePg.preparesCopies
    (by decide) hdigits (by decide +kernel)
  have hsecond : (stmtCacheGet (onParseEx pgWire [] stmtCacheInit insertParse 0
      (some (indexName false "65537".toList))).2.1 insertParse.statement).map
        PreparedStmt.identityParamSlot = some 1 := by decide +kernel
  exact absurd (hsecond.symm.trans hstored) (by decide)

theorem index_cached_second : (stmtCacheGet (onParseEx pgWire [] stmtCacheInit insertParse 0
    (some "$2".toList)).2.1 insertParse.statement).map PreparedStmt.identityParamSlot = some 1 :=
  (index_cached_iff WirePg.preparesCopies [] stmtCacheInit insertParse true
    (show "2".toList ≠ [] by decide) (forall_mem_of_all (by decide)) 0 (by decide +kernel)).mpr (Or.inl (by decide))
