import PqProxy.RewriteSlot
import Mathlib

/-! Which column the identity reaches. The resolver returns the position of the identity column in
the column list of an INSERT; the statement stores in that column whatever parameter the client
wrote at the same place of the VALUES list. -/

/-- The letters of VALUES, in any case, stand somewhere in `s`. -/
def HasValues (s : Text) : Prop := ∃ k, ((s.drop k).take 6).map lowerAscii = "values".toList

/-- An unquoted identifier that does not contain the letters of VALUES. -/
structure PlainName (s : Text) : Prop where
  nonempty : s ≠ []
  ident : ∀ c ∈ s, isIdentChar c = true ∧ c ≠ '"'
  head : ∀ c, s.head? = some c → c.isDigit = false
  noValues : ¬ HasValues s

def joinComma : List Text → Text
  | [] => []
  | [c] => c
  | c :: c' :: cols => c ++ ", ".toList ++ joinComma (c' :: cols)

/-- `$p`. -/
def placeholder (p : Nat) : Text := '$' :: Nat.toDigits 10 p

/-- The statement `INSERT INTO t (c_0, ..., c_n) VALUES ($p_0, ..., $p_n)`. -/
def insertQuery (t : Text) (cols : List Text) (ps : List Nat) : Text :=
  "INSERT INTO ".toList ++ t ++ " (".toList ++ joinComma cols ++ ") ".toList ++
    ("VALUES (".toList ++ joinComma (ps.map placeholder) ++ ")".toList)

theorem lowerAscii_eq_of {c v : Char} (h : (c == v || c == Char.ofNat (v.toNat - 32)) = true)
    (hv : v ∈ "values".toList) : lowerAscii c = v := by
  rw [Bool.or_eq_true, beq_iff_eq, beq_iff_eq] at h
  rcases h with rfl | rfl
  · exact forall_mem_of_all (p := fun v => lowerAscii v = v) (by decide +kernel) c hv
  · exact forall_mem_of_all (p := fun v => lowerAscii (Char.ofNat (v.toNat - 32)) = v)
      (by decide +kernel) v hv

theorem atValues_letters {s : Text} (h : atValues s = true) :
    (s.take 6).map lowerAscii = "values".toList := by
  match s, h with
  | v :: a :: l :: u :: e :: x :: rest, h =>
      simp only [atValues, Bool.and_eq_true] at h
      obtain ⟨⟨⟨⟨⟨⟨hv, ha⟩, hl⟩, hu⟩, he⟩, hx⟩, _⟩ := h
      have h1 : lowerAscii v = 'v' := lowerAscii_eq_of hv (by decide)
      have h2 : lowerAscii a = 'a' := lowerAscii_eq_of ha (by decide)
      have h3 : lowerAscii l = 'l' := lowerAscii_eq_of hl (by decide)
      have h4 : lowerAscii u = 'u' := lowerAscii_eq_of hu (by decide)
      have h5 : lowerAscii e = 'e' := lowerAscii_eq_of he (by decide)
      have h6 : lowerAscii x = 's' := lowerAscii_eq_of hx (by decide)
      simp [h1, h2, h3, h4, h5, h6]

/-- A word without VALUES does not start one, whatever follows its end. -/
theorem atValues_word {x r : Text} {d : Char} (hx : ¬ HasValues x)
    (hd : lowerAscii d ∉ "values".toList) : atValues (x ++ d :: r) = false := by
  by_contra h
  rw [Bool.not_eq_false] at h
  have hletters := atValues_letters h
  by_cases hlen : 6 ≤ x.length
  · rw [List.take_append_of_le_length hlen] at hletters
    exact hx ⟨0, hletters⟩
  · apply hd
    rw [← hletters]
    apply List.mem_map_of_mem
    have hmem : d ∈ (x ++ d :: r).take (x.length + 1) := by
      rw [List.take_append, List.take_of_length_le (Nat.le_succ _), Nat.add_sub_cancel_left]
      exact List.mem_append_right _ List.mem_cons_self
    exact (List.take_subset_take_left _ (by omega)) hmem

/-- The scan passes over text in which no VALUES starts and no parenthesis opens. -/
theorem columnList_append (x rest : Text) (acc : Option Text)
    (hx : ∀ k < x.length, atValues (x.drop k ++ rest) = false) (hparen : '(' ∉ x) :
    columnList (x ++ rest) acc = columnList rest (acc.map (· ++ x)) := by
  induction x generalizing acc with
  | nil => simp
  | cons c x ih =>
      have h0 : atValues (c :: (x ++ rest)) = false := hx 0 (by simp)
      have hc : c ≠ '(' := fun h => hparen (h ▸ List.mem_cons_self)
      rw [List.cons_append, columnList, h0, if_neg (by decide), if_neg hc, ih]
      · simp [Option.map_map, Function.comp_def]
      · intro k hk
        exact hx (k + 1) (by simpa using hk)
      · exact fun h => hparen (List.mem_cons_of_mem _ h)

theorem columnList_skip (x rest : Text) (acc : Option Text)
    (hx : ∀ c ∈ x, lowerAscii c ≠ 'v' ∧ c ≠ '(') :
    columnList (x ++ rest) acc = columnList rest (acc.map (· ++ x)) := by
  apply columnList_append
  · intro k hk
    obtain ⟨c, y, hcy⟩ : ∃ c y, x.drop k = c :: y := by
      cases h : x.drop k with
      | nil => simp at h; omega
      | cons c y => exact ⟨c, y, rfl⟩
    have hc : c ∈ x := List.mem_of_mem_drop (hcy ▸ List.mem_cons_self)
    rw [hcy]
    by_contra h
    rw [Bool.not_eq_false] at h
    have hletters := atValues_letters h
    simp only [List.cons_append, List.take_succ_cons, List.map_cons] at hletters
    exact (hx c hc).1 (List.cons.inj hletters).1
  · exact fun h => (hx _ h).2 rfl

theorem PlainName.noValues_drop {x : Text} (h : PlainName x) (k : Nat) : ¬ HasValues (x.drop k) := by
  rintro ⟨j, hj⟩
  exact h.noValues ⟨k + j, by rwa [List.drop_drop] at hj⟩

theorem PlainName.no_paren {x : Text} (h : PlainName x) : '(' ∉ x := by
  intro hmem
  exact absurd (h.ident _ hmem).1 (by decide)

theorem columnList_word {x : Text} (h : PlainName x) (d : Char) (r : Text) (acc : Option Text)
    (hd : lowerAscii d ∉ "values".toList) :
    columnList (x ++ d :: r) acc = columnList (d :: r) (acc.map (· ++ x)) :=
  columnList_append x _ acc (fun k _ => atValues_word (h.noValues_drop k) hd) h.no_paren

theorem columnList_joinComma (cols : List Text) (hcols : ∀ c ∈ cols, PlainName c) (r : Text)
    (acc : Text) :
    columnList (joinComma cols ++ (')' :: r)) (some acc) =
      columnList (')' :: r) (some (acc ++ joinComma cols)) := by
  induction cols generalizing acc with
  | nil => simp [joinComma]
  | cons c cols ih =>
      have hc := hcols c List.mem_cons_self
      cases cols with
      | nil => simpa [joinComma] using columnList_word hc ')' r (some acc) (by decide)
      | cons c' cols =>
          rw [joinComma, List.append_assoc, List.append_assoc]
          have hcomma : ", ".toList = [',', ' '] := rfl
          rw [hcomma, List.cons_append, columnList_word hc ',' _ _ (by decide)]
          have hskip := columnList_skip [',', ' '] (joinComma (c' :: cols) ++ (')' :: r))
            (some (acc ++ c)) (forall_mem_of_all (by decide))
          simp only [List.cons_append, List.nil_append, Option.map_some] at hskip ⊢
          rw [hskip, ih (fun x hx => hcols x (List.mem_cons_of_mem _ hx))]
          simp

theorem columnList_values (r : Text) (acc : Option Text) :
    columnList ("VALUES (".toList ++ r) acc = acc := by
  have hletters : "VALUES (".toList = ['V', 'A', 'L', 'U', 'E', 'S', ' ', '('] := rfl
  have hat : atValues ("VALUES (".toList ++ r) = true := by
    rw [hletters]
    rfl
  rw [hletters] at hat ⊢
  simp only [List.cons_append] at hat ⊢
  rw [columnList, if_pos hat]

theorem insertQuery_eq (t : Text) (cols : List Text) (ps : List Nat) :
    insertQuery t cols ps = "INSERT INTO ".toList ++ (t ++ ' ' :: '(' :: (joinComma cols ++
      ')' :: ' ' :: ("VALUES (".toList ++ (joinComma (ps.map placeholder) ++ ")".toList)))) := by
  unfold insertQuery
  generalize joinComma (ps.map placeholder) = values
  generalize joinComma cols = columns
  simp

/-- The column list of the statement is found. -/
theorem columnList_insertQuery {t : Text} (ht : PlainName t) (cols : List Text)
    (hcols : ∀ c ∈ cols, PlainName c) (ps : List Nat) :
    columnList (insertQuery t cols ps) none = some (joinComma cols ++ ") ".toList) := by
  have hblank : ∀ s acc, columnList (' ' :: s) acc = columnList s (acc.map (· ++ [' '])) :=
    fun s acc => columnList_skip [' '] s acc (forall_mem_of_all (by decide))
  have hclose : ∀ s acc, columnList (')' :: s) acc = columnList s (acc.map (· ++ [')'])) :=
    fun s acc => columnList_skip [')'] s acc (forall_mem_of_all (by decide))
  have hopen : ∀ s acc, columnList ('(' :: s) acc = columnList s (some []) := by
    intro s acc
    have hat : atValues ('(' :: s) = false := by
      by_contra h
      rw [Bool.not_eq_false] at h
      exact absurd (List.cons.inj (atValues_letters h)).1 (by decide)
    rw [columnList, hat, if_neg (by decide), if_pos rfl]
  rw [insertQuery_eq, columnList_skip "INSERT INTO ".toList _ _ (forall_mem_of_all (by decide)),
    columnList_word ht ' ' _ _ (by decide), hblank, hopen, columnList_joinComma cols hcols, hclose,
    hblank, columnList_values]
  simp

theorem columnName_plain {c : Text} (hc : PlainName c) {d : Char} (hd : isIdentChar d = false)
    (r : Text) : columnName (c ++ d :: r) = (c.take 63, c.drop 63 ++ d :: r) := by
  have hname : (c ++ d :: r).takeWhile (fun x => isIdentChar x && x != '"') = c := by
    rw [List.takeWhile_append_of_pos (by simpa using hc.ident), List.takeWhile_cons, hd]
    simp
  have hrest : (c ++ d :: r).drop (c.take 63).length = c.drop 63 ++ d :: r := by
    rw [List.length_take, List.drop_append_of_le_length (Nat.min_le_right _ _)]
    congr 1
    rcases Nat.le_total 63 c.length with h | h
    · rw [Nat.min_eq_left h]
    · rw [Nat.min_eq_right h, List.drop_of_length_le (Nat.le_refl _), List.drop_of_length_le h]
  unfold columnName
  split
  · rename_i q heq
    obtain ⟨x, y, rfl⟩ := List.exists_cons_of_ne_nil hc.nonempty
    cases heq
    exact absurd rfl (hc.ident _ List.mem_cons_self).2
  · simp only [hname, hrest]

theorem skip_plain {c : Text} (hc : ∀ x ∈ c, isIdentChar x = true) {d : Char}
    (hd : d = ',' ∨ d = ')') (r : Text) :
    (c ++ d :: r).dropWhile (fun x => x != ',' && x != ')') = d :: r := by
  rw [List.dropWhile_append_of_pos, List.dropWhile_cons]
  · rcases hd with rfl | rfl <;> rfl
  · intro x hx
    have hident := hc x hx
    simp only [Bool.and_eq_true, bne_iff_ne]
    constructor
    · rintro rfl
      cases hident
    · rintro rfl
      cases hident

theorem findColumn_plain (name : Text) (rounds : Nat) {c : Text} (hc : PlainName c) {d : Char}
    (hd : d = ',' ∨ d = ')') (r : Text) (idx : Int) :
    findColumn name (rounds + 1) (c ++ d :: r) idx =
      if nameEqCi (c.take 63) name then some (toInt16 idx)
      else if d = ',' then findColumn name rounds r (idx + 1) else none := by
  obtain ⟨x, y, rfl⟩ := List.exists_cons_of_ne_nil hc.nonempty
  have hx := (hc.ident x List.mem_cons_self).1
  have hdrop : ((x :: y) ++ d :: r).dropWhile isBlank = (x :: y) ++ d :: r := by
    rw [List.cons_append, List.dropWhile_cons, if_neg]
    intro hblank
    have : x = ' ' ∨ x = '\t' ∨ x = '\n' ∨ x = '\r' := by simpa [isBlank, or_assoc] using hblank
    rcases this with rfl | rfl | rfl | rfl <;> cases hx
  have hclose : x ≠ ')' := by
    rintro rfl
    cases hx
  have hname : columnName ((x :: y) ++ d :: r) = ((x :: y).take 63, (x :: y).drop 63 ++ d :: r) :=
    columnName_plain hc (by rcases hd with rfl | rfl <;> rfl) r
  have hskip := skip_plain (fun z hz => (hc.ident z (List.mem_of_mem_drop hz)).1) hd r
    (c := (x :: y).drop 63)
  rw [findColumn, hdrop]
  simp only [List.cons_append] at hname ⊢
  split
  · rename_i heq
    cases heq
  · rename_i heq
    cases heq
    exact absurd rfl hclose
  · rw [hname]
    dsimp only
    rw [hskip]
    have hne : (x :: y).take 63 ≠ [] := by simp
    simp only [hne, true_and, ne_eq, not_false_eq_true]
    split
    · rfl
    · rcases hd with rfl | rfl <;> rfl

theorem findColumn_blank (name : Text) (rounds : Nat) (q : Text) (idx : Int) :
    findColumn name rounds (' ' :: q) idx = findColumn name rounds q idx := by
  cases rounds with
  | zero => rfl
  | succ rounds => rw [findColumn, findColumn, List.dropWhile_cons, if_pos (by decide)]

/-- The column the resolver takes for `name`: names are cut to 63 characters and compared without
regard to case. -/
def foundColumn (cols : List Text) (name : Text) : Option Nat :=
  cols.findIdx? fun c => nameEqCi (c.take 63) name

theorem findColumn_joinComma (name : Text) (cols : List Text) (hcols : ∀ c ∈ cols, PlainName c)
    (rounds : Nat) (hrounds : cols.length ≤ rounds) (idx : Int) :
    findColumn name rounds (joinComma cols ++ ") ".toList) idx =
      (foundColumn cols name).map fun j : Nat => toInt16 (idx + (j : Int)) := by
  induction cols generalizing rounds idx with
  | nil =>
      cases rounds with
      | zero => rfl
      | succ rounds => rfl
  | cons c cols ih =>
      have hc := hcols c List.mem_cons_self
      have hcols' : ∀ x ∈ cols, PlainName x := fun x hx => hcols x (List.mem_cons_of_mem _ hx)
      obtain ⟨rounds, rfl⟩ := Nat.exists_eq_succ_of_ne_zero (Nat.ne_of_gt
        (Nat.lt_of_lt_of_le (Nat.succ_pos _) hrounds))
      have hlen : cols.length ≤ rounds := Nat.le_of_succ_le_succ hrounds
      have hnext : findColumn name (rounds + 1) (joinComma (c :: cols) ++ ") ".toList) idx =
          if nameEqCi (c.take 63) name then some (toInt16 idx)
          else findColumn name rounds (joinComma cols ++ ") ".toList) (idx + 1) := by
        cases cols with
        | nil =>
            have := findColumn_plain name rounds hc (Or.inr rfl) [' '] idx
            simp only [joinComma]
            rw [show ") ".toList = [')', ' '] from rfl, this]
            cases rounds <;> rfl
        | cons c' cols =>
            have := findColumn_plain name rounds hc (Or.inl rfl)
              (' ' :: (joinComma (c' :: cols) ++ ") ".toList)) idx
            rw [joinComma, show ", ".toList = [',', ' '] from rfl]
            simp only [List.append_assoc, List.cons_append, List.nil_append]
            rw [this, if_pos rfl, findColumn_blank]
      rw [hnext, ih hcols' rounds hlen, foundColumn, foundColumn, List.findIdx?_cons]
      split
      · simp
      · rw [Option.map_map]
        congr 1
        funext j
        simp only [Function.comp_apply, Int.natCast_add, Int.natCast_one]
        congr 1
        omega

/-! ### The identity column -/

theorem length_le_joinComma (cols : List Text) : cols.length ≤ (joinComma cols).length + 1 := by
  induction cols with
  | nil => simp
  | cons c cols ih =>
      cases cols with
      | nil => simp
      | cons c' cols =>
          simp only [joinComma, List.length_append, List.length_cons] at ih ⊢
          have : (", ".toList).length = 2 := rfl
          omega

/-- The parameter a Bind loses when the column `name` was asked for: the position of the column as
an `int16_t`, and the first parameter where that is negative or no column was found. -/
def identityColumn (cols : List Text) (name : Text) : Nat :=
  (((foundColumn cols name).map fun j : Nat => toInt16 j).getD (-1)).toNat

theorem resolve_insertQuery {t : Text} (ht : PlainName t) (cols : List Text)
    (hcols : ∀ c ∈ cols, PlainName c) (ps : List Nat) {name : Text} (hname : PlainName name)
    (fallback : Int) :
    resolveIdentitySlot (insertQuery t cols ps) (some name) fallback =
      ((foundColumn cols name).map fun j : Nat => toInt16 j).getD fallback := by
  obtain ⟨x, y, rfl⟩ := List.exists_cons_of_ne_nil hname.nonempty
  have hdollar : x ≠ '$' := by
    rintro rfl
    exact absurd (hname.ident _ List.mem_cons_self).1 (by decide)
  have hdigit : (x :: y).all Char.isDigit = false := by
    rw [List.all_cons, hname.head x rfl, Bool.false_and]
  have hlen : cols.length ≤ (joinComma cols ++ ") ".toList).length + 1 := by
    have := length_le_joinComma cols
    rw [List.length_append]
    omega
  unfold resolveIdentitySlot
  split
  · contradiction
  · rename_i heq
    cases heq
  · rename_i heq
    cases heq
    exact absurd rfl hdollar
  · rename_i heq
    cases heq
    rw [hdigit, if_neg (by decide), columnList_insertQuery ht cols hcols ps]
    dsimp only
    rw [findColumn_joinComma _ cols hcols _ hlen]
    simp

theorem bmod_le_self (j m : Nat) : (j : Int).bmod m ≤ j := by
  have hmod : (j : Int) % (m : Int) ≤ j := by exact_mod_cast Nat.mod_le j m
  rw [Int.bmod_def]
  split <;> omega

theorem identityColumn_lt {cols : List Text} {name : Text} (h : cols ≠ []) :
    identityColumn cols name < cols.length := by
  have hpos : 0 < cols.length := List.length_pos_iff.mpr h
  unfold identityColumn
  cases hfound : foundColumn cols name with
  | none => exact hpos
  | some j =>
      have hj : j < cols.length := (List.findIdx?_eq_some_iff_getElem.mp hfound).1
      have hle : toInt16 j ≤ j := bmod_le_self j 65536
      rw [Option.map_some, Option.getD_some]
      generalize toInt16 j = slot at hle ⊢
      omega

theorem stmtCachePut_init {w : Pqwire} (hs : w.Succeeds) (parse : PqParse) (slot : Int) :
    (stmtCachePut w stmtCacheInit parse slot).2 = true := by
  obtain ⟨stmt, hstmt⟩ := hs.prepares parse
  have hprobe : probe stmtCacheInit parse.statement =
      .free (((stmtNameHash parse.statement).toNat + 0) % maxCachedStmts) := rfl
  rw [stmtCachePut, hprobe]
  simp only [hstmt]
  rfl

theorem onBind_succeeds {w : Pqwire} (hs : w.Succeeds) (o : Outbox) {cache : StmtCache}
    {bind : PqBind} {id : Identity} {slot : Nat} (h : overwrittenSlot cache bind id = some slot) :
    ∃ o', onBind w o cache bind id = (o', true) := by
  have hsend : ∀ (o : Outbox) m, ∃ o', o.send w m = some o' := fun o m =>
    ⟨_, if_pos (hs.acceptsClient _ _)⟩
  unfold overwrittenSlot at h
  cases hget : stmtCacheGet cache bind.statement with
  | none => simp [hget] at h
  | some prep =>
      simp only [hget] at h
      split at h
      · cases h
      · rename_i hrange
        obtain ⟨o₁, h₁⟩ := hsend o (.parse [] prep.query prep.paramTypeOids)
        obtain ⟨ps, hps⟩ := hs.rewrites bind (bindSlot id prep) id.routerId (by omega)
        obtain ⟨o₂, h₂⟩ := hsend o₁ (.bind [] [] ps bind.resultFormats)
        obtain ⟨o₃, h₃⟩ := hsend o₂ (.execute [] 0)
        obtain ⟨o₄, h₄⟩ := hsend o₃ .sync
        refine ⟨o₄, ?_⟩
        rw [onBind, hget]
        simp only [h₁, sendBind, hps, Option.bind_some, h₂, h₃, h₄]
        exact if_neg (by omega)

/-- After the statement was parsed, every Bind of `n` parameters sends the identity as parameter
`stored` and the client's value as every other one. -/
def StoresIdentity (w : Pqwire) (query : Text) (n : Nat) (name : Text) (stored : Nat)
    (id : Identity) : Prop :=
  ∀ (frontend : Bytes) (cache : StmtCache) (parse : PqParse) (bind : PqBind) (o o' : Outbox),
    parse.query = query → bind.statement = parse.statement → bind.params.length = n →
    (stmtCachePut w cache parse (parseSlot query (-1) (some name))).2 = true →
    onBind w o (onParseEx w frontend cache parse (-1) (some name)).2.1 bind id = (o', true) →
    ∃ oids params, o'.sent = o.sent ++ [.parse [] query oids,
        .bind [] [] params bind.resultFormats, .execute [] 0, .sync] ∧
      params[stored]? = some ⟨0, some id.routerId.bytes⟩ ∧
      ∀ j, j ≠ stored → params[j]? = bind.params[j]?

theorem overwrittenSlot_insertQuery {w : Pqwire} (hw : w.PreparesCopies) {t : Text}
    (ht : PlainName t) (cols : List Text) (hcols : ∀ c ∈ cols, PlainName c) (hne : cols ≠ [])
    (ps : List Nat) {name : Text} (hname : PlainName name) (frontend : Bytes) (cache : StmtCache)
    (parse : PqParse) (hquery : parse.query = insertQuery t cols ps) (bind : PqBind)
    (hstmt : bind.statement = parse.statement) (hlen : bind.params.length = cols.length)
    (hput : (stmtCachePut w cache parse (parseSlot parse.query (-1) (some name))).2 = true)
    (id : Identity) (hid : id.identitySlot = -1) :
    stmtCacheGet (onParseEx w frontend cache parse (-1) (some name)).2.1 bind.statement =
        some ⟨parse.statement, parse.query, parse.paramTypeOids,
          parseSlot parse.query (-1) (some name)⟩ ∧
      overwrittenSlot (onParseEx w frontend cache parse (-1) (some name)).2.1 bind id =
        some (identityColumn cols name) := by
  have hget := stmtCacheGet_put_self hw cache parse _ hput
  have hslot : (parseSlot parse.query (-1) (some name)).toNat = identityColumn cols name := by
    rw [parseSlot, if_neg (by simpa using hname.nonempty), hquery,
      resolve_insertQuery ht cols hcols ps hname, identityColumn]
    split
    · rfl
    · omega
  have hlt := @identityColumn_lt cols name hne
  rw [onParseEx_cache, hstmt]
  refine ⟨hget, ?_⟩
  have hbind : bindSlot id ⟨parse.statement, parse.query, parse.paramTypeOids,
      parseSlot parse.query (-1) (some name)⟩ = identityColumn cols name := by
    rw [bindSlot, hid]
    exact hslot
  rw [overwrittenSlot, hstmt, hget]
  dsimp only
  rw [hbind, if_neg (by omega)]

/-- The identity is stored in its column exactly when the column's placeholder names the parameter
at the column's own position. -/
theorem storesIdentity_iff {w : Pqwire} (hw : w.PreparesCopies) (hr : w.ReplacesSlot)
    (hs : w.Succeeds) {t : Text} (ht : PlainName t) (cols : List Text)
    (hcols : ∀ c ∈ cols, PlainName c) (ps : List Nat) (hps : ps.Perm (List.range' 1 cols.length))
    (i : Nat) {c : Text} (hc : cols[i]? = some c) {p : Nat} (hp : ps[i]? = some p) (id : Identity)
    (hid : id.identitySlot = -1) :
    StoresIdentity w (insertQuery t cols ps) cols.length c (p - 1) id ↔
      p - 1 = identityColumn cols c := by
  have hcmem : c ∈ cols := List.mem_of_getElem? hc
  have hcplain := hcols c hcmem
  have hne : cols ≠ [] := List.ne_nil_of_mem hcmem
  have hprange : p - 1 < cols.length := by
    have := hps.mem_iff.mp (List.mem_of_getElem? hp)
    rw [List.mem_range'_1] at this
    omega
  constructor
  · intro h
    let parse : PqParse := ⟨[], insertQuery t cols ps, []⟩
    let bind : PqBind := ⟨[], [], List.replicate cols.length ⟨0, none⟩, []⟩
    have hput := stmtCachePut_init hs parse (parseSlot parse.query (-1) (some c))
    obtain ⟨hget, hslot⟩ := overwrittenSlot_insertQuery hw ht cols hcols hne ps hcplain []
      stmtCacheInit parse rfl bind rfl (by simp [bind]) hput id hid
    obtain ⟨o', ho'⟩ := onBind_succeeds hs ⟨[], []⟩ hslot
    obtain ⟨slot, prep, hslot', -, hsent⟩ := onBind_sent hr ho'
    rw [hslot, Option.some.injEq] at hslot'
    subst hslot'
    obtain ⟨oids, params, hsent', hstored, -⟩ := h [] stmtCacheInit parse bind ⟨[], []⟩ o' rfl rfl
      (by simp [bind]) hput ho'
    rw [hsent] at hsent'
    simp only [List.nil_append, List.cons.injEq, ClientMsg.bind.injEq] at hsent'
    obtain ⟨-, ⟨-, -, hparams, -⟩, -⟩ := hsent'
    by_contra hother
    rw [← hparams, List.getElem?_set_ne (Ne.symm hother)] at hstored
    simp [bind, hprange] at hstored
  · intro heq frontend cache parse bind o o' hquery hstmt hlen hput ho'
    rw [← hquery] at hput
    obtain ⟨hget, hslot⟩ := overwrittenSlot_insertQuery hw ht cols hcols hne ps hcplain frontend
      cache parse hquery bind hstmt hlen hput id hid
    obtain ⟨slot, prep, hslot', hprep, hsent⟩ := onBind_sent hr ho'
    rw [hslot, Option.some.injEq] at hslot'
    rw [hget, Option.some.injEq] at hprep
    subst hslot' hprep
    refine ⟨_, _, by rw [hsent, hquery], ?_, ?_⟩
    · rw [heq, List.getElem?_set_self (by omega)]
    · intro j hj
      rw [List.getElem?_set_ne (by omega)]

/-! A connection without a configured slot, and a client that numbers its placeholders backwards. -/

def unslottedIdentity : Identity := ⟨"router-7".toList, "region_east".toList, -1⟩

def insertColumns : List Text := ["payload".toList, "router_id".toList]

def swappedParse : PqParse where
  statement := "ins".toList
  query := insertQuery "t".toList insertColumns [2, 1]
  paramTypeOids := []

/-- The identity column is filled from `$1`, where the client's own value stays. -/
theorem not_storesIdentity_swapped :
    ¬ StoresIdentity pgWire (insertQuery "t".toList insertColumns [2, 1]) 2 "router_id".toList
      (1 - 1) unslottedIdentity := by
  intro h
  let cache := (onParseEx pgWire [] stmtCacheInit swappedParse (-1) (some "router_id".toList)).2.1
  have hsent : (onBind pgWire ⟨[], []⟩ cache forgedBind unslottedIdentity).1.sent =
      [.parse [] swappedParse.query [], .bind [] [] [⟨0, some [120]⟩,
        ⟨0, some (Text.bytes "router-7".toList)⟩] [], .execute [] 0, .sync] := by
    decide +kernel
  have hok : (onBind pgWire ⟨[], []⟩ cache forgedBind unslottedIdentity).2 = true := by
    decide +kernel
  obtain ⟨oids, params, hparams, hstored, -⟩ := h [] stmtCacheInit swappedParse forgedBind ⟨[], []⟩
    (onBind pgWire ⟨[], []⟩ cache forgedBind unslottedIdentity).1 rfl rfl rfl (by decide +kernel)
    (Prod.ext rfl hok)
  rw [hsent] at hparams
  simp only [List.nil_append, List.cons.injEq, ClientMsg.bind.injEq] at hparams
  obtain ⟨-, ⟨-, -, rfl, -⟩, -⟩ := hparams
  revert hstored
  decide

theorem plainName_of_no_v {s : Text} (hne : s ≠ []) (hident : ∀ c ∈ s, isIdentChar c = true ∧ c ≠ '"')
    (hhead : ∀ c ∈ s.head?, c.isDigit = false) (hv : 'v' ∉ s.map lowerAscii) : PlainName s where
  nonempty := hne
  ident := hident
  head := hhead
  noValues := by
    rintro ⟨k, hk⟩
    have hmem : 'v' ∈ ((s.drop k).take 6).map lowerAscii := hk ▸ List.mem_cons_self
    obtain ⟨c, hc, hcv⟩ := List.mem_map.mp hmem
    exact hv (List.mem_map.mpr ⟨c, List.mem_of_mem_drop (List.mem_of_mem_take hc), hcv⟩)

theorem plainName_of_all {s : Text} (h : s.all (fun c => isIdentChar c && c != '"') = true)
    (hhead : s.head?.any (fun c => !c.isDigit) = true) (hv : 'v' ∉ s.map lowerAscii) : PlainName s := by
  obtain ⟨c, hc, hdigit⟩ := (Option.any_eq_true _ _).mp hhead
  refine plainName_of_no_v ?_ (fun d hd => ?_) (fun d hd => ?_) hv
  · rintro rfl
    cases hc
  · simpa using List.all_eq_true.mp h d hd
  · obtain rfl : c = d := Option.some.inj (hc.symm.trans hd)
    simpa using hdigit

theorem storesIdentity_in_order :
    StoresIdentity pgWire (insertQuery "t".toList insertColumns [1, 2]) insertColumns.length
      "router_id".toList (2 - 1) unslottedIdentity := by
  have htable : PlainName "t".toList := plainName_of_all (by decide) (by decide) (by decide)
  have hcolumns : ∀ c ∈ insertColumns, PlainName c :=
    List.forall_mem_cons.mpr ⟨plainName_of_all (by decide) (by decide) (by decide),
      List.forall_mem_cons.mpr ⟨plainName_of_all (by decide) (by decide) (by decide),
        List.forall_mem_nil _⟩⟩
  exact (storesIdentity_iff WirePg.preparesCopies WirePg.replacesSlot WirePg.succeeds htable insertColumns
    hcolumns [1, 2] (by decide) 1 rfl rfl unslottedIdentity rfl).mpr (by decide +kernel)
