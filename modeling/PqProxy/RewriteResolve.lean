import PqProxy.RewriteColumns
import Mathlib

/-! Which INSERT statements the resolver reads rightly. It looks for the word VALUES and for the
last parenthesis before it character by character, with a word boundary behind VALUES only, and
knows of quotes only inside the column list. -/

/-- A column as it is written. -/
inductive Column where
  | plain (name : Text)
  | quoted (name : Text)

def Column.name : Column → Text
  | .plain name => name
  | .quoted name => name

def Column.text : Column → Text
  | .plain name => name
  | .quoted name => '"' :: name ++ ['"']

/-- A column with the blanks around it. -/
structure ListedColumn where
  before : Text
  column : Column
  after : Text

def ListedColumn.text (c : ListedColumn) : Text := c.before ++ (c.column.text ++ c.after)

/-- The columns of a list, between commas. -/
def columnsText : List ListedColumn → Text
  | [] => []
  | [c] => c.text
  | c :: c' :: cols => c.text ++ ',' :: columnsText (c' :: cols)

/-- `INSERT INTO t (c_0, ..., c_n) VALUES ...`, with the blanks between its tokens. `rest` is what
follows the word VALUES. -/
structure InsertStmt where
  gap₁ : Text
  gap₂ : Text
  schema : Option Text
  table : Text
  gap₃ : Text
  columns : List ListedColumn
  gap₄ : Text
  values : Text
  rest : Text

/-- The table with its schema. -/
def InsertStmt.tableText (s : InsertStmt) : Text :=
  match s.schema with
  | none => s.table
  | some schema => schema ++ '.' :: s.table

def InsertStmt.query (s : InsertStmt) : Text :=
  "INSERT".toList ++ (s.gap₁ ++ ("INTO".toList ++ (s.gap₂ ++ (s.tableText ++ (s.gap₃ ++
    '(' :: (columnsText s.columns ++ ')' :: (s.gap₄ ++ (s.values ++ s.rest))))))))

abbrev IsBlank (x : Text) : Prop := ∀ c ∈ x, isBlank c = true

/-- Letters, digits and underscores. -/
structure IsIdent (x : Text) : Prop where
  nonempty : x ≠ []
  ident : ∀ c ∈ x, isIdentChar c = true ∧ c ≠ '"'

structure Column.WellFormed (c : Column) : Prop where
  length : c.name.length ≤ 63
  nonempty : c.name ≠ []
  plain : ∀ x, c = .plain x → IsIdent x
  quoted : ∀ x, c = .quoted x → '"' ∉ x

structure InsertStmt.WellFormed (s : InsertStmt) : Prop where
  gap₁ : IsBlank s.gap₁ ∧ s.gap₁ ≠ []
  gap₂ : IsBlank s.gap₂ ∧ s.gap₂ ≠ []
  schema : ∀ x, s.schema = some x → IsIdent x
  table : IsIdent s.table
  gap₃ : IsBlank s.gap₃
  columns : ∀ c ∈ s.columns, IsBlank c.before ∧ c.column.WellFormed ∧ IsBlank c.after
  nonempty : s.columns ≠ []
  gap₄ : IsBlank s.gap₄
  values : s.values.map lowerAscii = "values".toList
  /-- The tuple, after some blanks. -/
  rest : ∃ gap tuple, IsBlank gap ∧ s.rest = gap ++ '(' :: tuple

/-- A name that is looked for in the column list. -/
structure ParamName (name : Text) : Prop where
  dollar : name.head? ≠ some '$'
  numeric : name.all Char.isDigit = true → name = []

/-- The first column with this name, in any case. -/
def InsertStmt.position (s : InsertStmt) (name : Text) : Option Nat :=
  s.columns.findIdx? fun c => c.column.name.map lowerAscii = name.map lowerAscii

/-- Every name is resolved to the position of its column. -/
def InsertStmt.Resolves (s : InsertStmt) : Prop :=
  ∀ name fallback, ParamName name → resolveIdentitySlot s.query (some name) fallback =
    ((s.position name).map fun i : Nat => (i : Int)).getD fallback

/-- The name ends in VALUES. -/
def EndsInValues (x : Text) : Prop := ∃ y v, x = y ++ v ∧ v.map lowerAscii = "values".toList

/-- VALUES, followed by another character than a letter, a digit or an underscore. -/
def HasValuesWord (x : Text) : Prop :=
  ∃ y v c z, x = y ++ (v ++ c :: z) ∧ v.map lowerAscii = "values".toList ∧ isIdentChar c = false

/-- The scanner takes this column for the end of the column list, or its name for the start. -/
def Column.Misread : Column → Prop
  | .plain x => EndsInValues x
  | .quoted x => '(' ∈ x ∨ HasValuesWord x

/-- Nothing before the word VALUES looks like it, no name holds a parenthesis, and the positions fit
an `int16_t`. -/
structure InsertStmt.Readable (s : InsertStmt) : Prop where
  schema : ∀ x, s.schema = some x → ¬ EndsInValues x
  table : ¬ EndsInValues s.table
  columns : ∀ c ∈ s.columns, ¬ c.column.Misread
  length : s.columns.length ≤ 32768

/-- A letter of VALUES is the lower case letter or the upper case one. -/
theorem letter_cases {c l : Char} (h : lowerAscii c = l) (hl : l ∈ "values".toList) :
    (c == l || c == Char.ofNat (l.toNat - 32)) = true := by
  by_cases hupper : ('A' ≤ c && c ≤ 'Z') = true
  · have hlt : c.toNat < 128 := by
      rw [Bool.and_eq_true, decide_eq_true_eq, decide_eq_true_eq, Char.le_def,
        UInt32.le_iff_toNat_le] at hupper
      have h2 : c.toNat ≤ 90 := hupper.2
      omega
    have hall : ∀ n ∈ List.range 128, ∀ l ∈ "values".toList, lowerAscii (Char.ofNat n) = l →
        (Char.ofNat n == l || Char.ofNat n == Char.ofNat (l.toNat - 32)) = true := fun n hn =>
      forall_mem_of_all (forall_mem_of_all (p := fun n => ("values".toList.all fun l =>
        decide (lowerAscii (Char.ofNat n) = l →
          (Char.ofNat n == l || Char.ofNat n == Char.ofNat (l.toNat - 32)) = true)) = true)
        (by decide +kernel) n hn)
    have := hall c.toNat (List.mem_range.mpr hlt) l hl
    rw [Char.ofNat_toNat] at this
    exact this h
  · rw [lowerAscii, if_neg hupper] at h
    rw [h, beq_self_eq_true, Bool.true_or]

theorem isIdentChar_of_letter {c : Char} (h : lowerAscii c ∈ "values".toList) :
    isIdentChar c = true ∧ c ≠ '"' ∧ c ≠ '(' := by
  have hlower : ∀ l ∈ "values".toList, isIdentChar l = true ∧ l ≠ '"' ∧ l ≠ '(' :=
    forall_mem_of_all (by decide +kernel)
  have hupper : ∀ l ∈ "values".toList, isIdentChar (Char.ofNat (l.toNat - 32)) = true ∧
      Char.ofNat (l.toNat - 32) ≠ '"' ∧ Char.ofNat (l.toNat - 32) ≠ '(' :=
    forall_mem_of_all (by decide +kernel)
  have hletter := letter_cases rfl h
  rw [Bool.or_eq_true, beq_iff_eq, beq_iff_eq] at hletter
  rcases hletter with heq | heq
  · rw [heq]
    exact hlower _ h
  · rw [heq]
    exact hupper _ h

theorem atValues_append {v : Text} (hv : v.map lowerAscii = "values".toList) {r : Text}
    (hr : ∀ c, r.head? = some c → isIdentChar c = false) : atValues (v ++ r) = true := by
  have hlen : v.length = 6 := by simpa using congrArg List.length hv
  match v, hlen with
  | [a, b, c, d, e, f], _ =>
      simp only [List.map_cons, List.map_nil] at hv
      have hletters : "values".toList = ['v', 'a', 'l', 'u', 'e', 's'] := rfl
      rw [hletters] at hv
      simp only [List.cons.injEq, and_true] at hv
      obtain ⟨ha, hb, hc, hd, he, hf⟩ := hv
      have h1 : (a == 'v' || a == 'V') = true := letter_cases ha (by decide)
      have h2 : (b == 'a' || b == 'A') = true := letter_cases hb (by decide)
      have h3 : (c == 'l' || c == 'L') = true := letter_cases hc (by decide)
      have h4 : (d == 'u' || d == 'U') = true := letter_cases hd (by decide)
      have h5 : (e == 'e' || e == 'E') = true := letter_cases he (by decide)
      have h6 : (f == 's' || f == 'S') = true := letter_cases hf (by decide)
      simp only [List.cons_append, List.nil_append, atValues, h1, h2, h3, h4, h5, h6,
        Bool.true_and, Bool.not_eq_true']
      cases r with
      | nil => rfl
      | cons x r => exact hr x rfl

theorem atValues_split {s : Text} (h : atValues s = true) : ∃ v r, s = v ++ r ∧
    v.map lowerAscii = "values".toList ∧ ∀ c, r.head? = some c → isIdentChar c = false := by
  refine ⟨s.take 6, s.drop 6, (List.take_append_drop 6 s).symm, atValues_letters h, ?_⟩
  match s, h with
  | v :: a :: l :: u :: e :: x :: rest, h =>
      intro c hc
      obtain ⟨c', rest', rfl⟩ : ∃ c' rest', rest = c' :: rest' := by
        cases rest with
        | nil => cases hc
        | cons c' rest' => exact ⟨c', rest', rfl⟩
      cases hc
      simp only [atValues, Bool.and_eq_true, Bool.not_eq_true'] at h
      exact h.2

/-- No text without a VALUES in it, up to where `r` goes on, stops the scan. -/
def NoStop (x r : Text) : Prop := ∀ k < x.length, atValues (x.drop k ++ r) = false

/-- The text goes on with something that is no part of a name. -/
def NameEnds (r : Text) : Prop := ∀ c, r.head? = some c → isIdentChar c = false

/-- A name stops the scan where its rest is VALUES. -/
theorem atValues_ident {z r : Text} (hz : ∀ c ∈ z, isIdentChar c = true) (hr : NameEnds r) :
    atValues (z ++ r) = true ↔ z.map lowerAscii = "values".toList := by
  refine ⟨fun h => ?_, fun h => atValues_append h hr⟩
  obtain ⟨v, r', heq, hv, hr'⟩ := atValues_split h
  rcases List.append_eq_append_iff.mp heq with ⟨m, rfl, rfl⟩ | ⟨m, rfl, rfl⟩
  · -- the letters go on behind the name
    cases m with
    | nil => simpa using hv
    | cons c m =>
        have hc : lowerAscii c ∈ "values".toList := by
          rw [← hv]
          simp
        exact absurd (hr c rfl) (by simp [(isIdentChar_of_letter hc).1])
  · cases m with
    | nil => simpa using hv
    | cons c m => exact absurd (hr' c rfl) (by simp [hz c (by simp)])

theorem noStop_ident {x r : Text} (hx : ∀ c ∈ x, isIdentChar c = true) (hr : NameEnds r) :
    NoStop x r ↔ ¬ EndsInValues x := by
  constructor
  · rintro h ⟨y, v, rfl, hv⟩
    have hpos : v ≠ [] := by
      rintro rfl
      cases hv
    have hlt : y.length < (y ++ v).length := by
      rw [List.length_append]
      have := List.length_pos_iff.mpr hpos
      omega
    have hstop := h y.length hlt
    rw [List.drop_left, atValues_append hv hr] at hstop
    cases hstop
  · intro h k hk
    rw [← Bool.not_eq_true, atValues_ident (fun c hc => hx c (List.mem_of_mem_drop hc)) hr]
    intro hv
    exact h ⟨x.take k, x.drop k, (List.take_append_drop k x).symm, hv⟩

/-- Inside quotes the scan stops at a VALUES with another character than one of a name behind it;
the closing quote counts as one of a name. -/
theorem noStop_quoted {x : Text} (hx : '"' ∉ x) (r : Text) :
    NoStop ('"' :: x ++ ['"']) r ↔ ¬ HasValuesWord x := by
  constructor
  · rintro h ⟨y, v, c, z, rfl, hv, hc⟩
    have hstop := h (y.length + 1) (by simp; omega)
    rw [List.cons_append, List.drop_succ_cons, List.append_assoc, List.drop_left, List.append_assoc,
      List.append_assoc, atValues_append hv] at hstop
    · cases hstop
    · rintro d ⟨⟩
      exact hc
  · intro h k hk
    rw [← Bool.not_eq_true]
    intro hstop
    obtain ⟨v, r', heq, hv, hnext⟩ := atValues_split hstop
    have hletter : ∀ c ∈ v, isIdentChar c = true ∧ c ≠ '"' ∧ c ≠ '(' := fun c hc =>
      isIdentChar_of_letter (hv ▸ List.mem_map_of_mem hc)
    have hquote : ∀ q, r' ≠ '"' :: q := by
      rintro q rfl
      exact absurd (hnext '"' rfl) (by decide)
    cases k with
    | zero =>
        cases v with
        | nil => cases hv
        | cons c v =>
            obtain rfl := (List.cons.inj heq).1
            exact (hletter '"' (by simp)).2.1 rfl
    | succ k =>
        have hlen : k ≤ x.length := Nat.le_of_lt_succ (by simpa using hk)
        rw [List.cons_append, List.drop_succ_cons, List.drop_append_of_le_length hlen,
          List.append_assoc, List.singleton_append] at heq
        rcases List.append_eq_append_iff.mp heq with ⟨m, rfl, hm⟩ | ⟨m, hm, rfl⟩
        · cases m with
          | nil => exact hquote r hm.symm
          | cons c m =>
              obtain rfl := (List.cons.inj hm).1
              exact (hletter '"' (by simp)).2.1 rfl
        · cases m with
          | nil => exact hquote r rfl
          | cons c m =>
              refine h ⟨x.take k, v, c, m, ?_, hv, hnext c rfl⟩
              rw [← hm, List.take_append_drop]

theorem columnList_noStop {x r : Text} {acc : Option Text} (h : NoStop x r) (hparen : '(' ∉ x) :
    columnList (x ++ r) acc = columnList r (acc.map (· ++ x)) :=
  columnList_append x r acc h hparen

theorem isBlank_cases {c : Char} (h : isBlank c = true) :
    c = ' ' ∨ c = '\t' ∨ c = '\n' ∨ c = '\r' := by
  simpa [isBlank, or_assoc] using h

theorem columnList_blank {x : Text} (h : IsBlank x) (r : Text) (acc : Option Text) :
    columnList (x ++ r) acc = columnList r (acc.map (· ++ x)) := by
  apply columnList_skip
  intro c hc
  rcases isBlank_cases (h c hc) with rfl | rfl | rfl | rfl <;> decide

theorem nameEnds_blank {x r : Text} (h : IsBlank x) (hr : NameEnds r) : NameEnds (x ++ r) := by
  cases x with
  | nil => exact hr
  | cons c x =>
      rintro d ⟨⟩
      rcases isBlank_cases (h c (by simp)) with rfl | rfl | rfl | rfl <;> rfl

theorem nameEnds_cons {c : Char} (h : isIdentChar c = false) (r : Text) : NameEnds (c :: r) := by
  rintro d ⟨⟩
  exact h

theorem IsIdent.no_paren {x : Text} (h : IsIdent x) : '(' ∉ x := fun hmem =>
  absurd (h.ident _ hmem).1 (by decide)

theorem columnList_ident {x r : Text} (h : IsIdent x) (hend : ¬ EndsInValues x) (hr : NameEnds r)
    (acc : Option Text) : columnList (x ++ r) acc = columnList r (acc.map (· ++ x)) :=
  columnList_noStop ((noStop_ident (fun c hc => (h.ident c hc).1) hr).mpr hend) h.no_paren

/-- A column that is not misread is passed over as a whole. -/
theorem columnList_column {c : Column} (h : c.WellFormed) (hread : ¬ c.Misread) {r : Text}
    (hr : NameEnds r) (acc : Option Text) :
    columnList (c.text ++ r) acc = columnList r (acc.map (· ++ c.text)) := by
  cases c with
  | plain x => exact columnList_ident (h.plain x rfl) hread hr acc
  | quoted x =>
      have hquote := h.quoted x rfl
      obtain ⟨hparen, hword⟩ := not_or.mp hread
      apply columnList_noStop ((noStop_quoted hquote r).mpr hword)
      simpa [Column.text] using hparen

theorem columnList_listed {c : ListedColumn} (hb : IsBlank c.before) (hc : c.column.WellFormed)
    (ha : IsBlank c.after) (hread : ¬ c.column.Misread) {r : Text} (hr : NameEnds r)
    (acc : Option Text) : columnList (c.text ++ r) acc = columnList r (acc.map (· ++ c.text)) := by
  rw [ListedColumn.text, List.append_assoc, List.append_assoc, columnList_blank hb,
    columnList_column hc hread (nameEnds_blank ha hr), columnList_blank ha]
  simp [Option.map_map, Function.comp_def]

theorem columnList_comma (r : Text) (acc : Option Text) :
    columnList (',' :: r) acc = columnList r (acc.map (· ++ [','])) :=
  columnList_skip [','] r acc (forall_mem_of_all (by decide))

/-- A column list without misread columns is passed over. -/
theorem columnList_columns {cols : List ListedColumn}
    (h : ∀ c ∈ cols, IsBlank c.before ∧ c.column.WellFormed ∧ IsBlank c.after)
    (hread : ∀ c ∈ cols, ¬ c.column.Misread) {r : Text} (hr : NameEnds r) (acc : Option Text) :
    columnList (columnsText cols ++ r) acc = columnList r (acc.map (· ++ columnsText cols)) := by
  induction cols generalizing acc with
  | nil => simp [columnsText]
  | cons c cols ih =>
      obtain ⟨hb, hc, ha⟩ := h c (by simp)
      have hread' := hread c (by simp)
      cases cols with
      | nil => exact columnList_listed hb hc ha hread' hr acc
      | cons c' cols =>
          have ih := ih (fun x hx => h x (List.mem_cons_of_mem _ hx))
            (fun x hx => hread x (List.mem_cons_of_mem _ hx))
          rw [columnsText, List.append_assoc, List.cons_append,
            columnList_listed hb hc ha hread' (nameEnds_cons rfl _), columnList_comma, ih]
          simp [Option.map_map, Function.comp_def]

theorem columnList_open (r : Text) (acc : Option Text) :
    columnList ('(' :: r) acc = columnList r (some []) := by
  have hat : atValues ('(' :: r) = false := by
    rw [← Bool.not_eq_true]
    intro h
    exact absurd (List.cons.inj (atValues_letters h)).1 (by decide)
  rw [columnList, hat, if_neg (by decide), if_pos rfl]

/-- The scan stops at the word VALUES. -/
theorem columnList_stop {v r : Text} (hv : v.map lowerAscii = "values".toList) (hr : NameEnds r)
    (acc : Option Text) : columnList (v ++ r) acc = acc := by
  have hat := atValues_append hv hr
  cases v with
  | nil => cases hv
  | cons c v =>
      rw [List.cons_append] at hat ⊢
      rw [columnList, if_pos hat]

namespace InsertStmt

variable {s : InsertStmt} (h : s.WellFormed)
include h

/-- What follows the column list. -/
theorem columnList_end (acc : Option Text) :
    columnList (')' :: (s.gap₄ ++ (s.values ++ s.rest))) acc = acc.map (· ++ ')' :: s.gap₄) := by
  have hrest : NameEnds s.rest := by
    obtain ⟨gap, tuple, hgap, hrest⟩ := h.rest
    rw [hrest]
    exact nameEnds_blank hgap (nameEnds_cons rfl _)
  have hclose := columnList_skip [')'] (s.gap₄ ++ (s.values ++ s.rest)) acc
    (forall_mem_of_all (by decide))
  rw [List.singleton_append] at hclose
  rw [hclose, columnList_blank h.gap₄, columnList_stop h.values hrest, Option.map_map]
  congr 1
  funext x
  simp

/-- The scan gets to the table. -/
theorem columnList_query : columnList s.query none = columnList (s.tableText ++ (s.gap₃ ++
    '(' :: (columnsText s.columns ++ ')' :: (s.gap₄ ++ (s.values ++ s.rest))))) none := by
  unfold query
  rw [columnList_skip "INSERT".toList _ _ (forall_mem_of_all (by decide)),
    columnList_blank h.gap₁.1,
    columnList_skip "INTO".toList _ _ (forall_mem_of_all (by decide)),
    columnList_blank h.gap₂.1]
  rfl

theorem nameEnds_columns (r : Text) : NameEnds (s.gap₃ ++ '(' :: r) :=
  nameEnds_blank h.gap₃ (nameEnds_cons rfl r)

/-- The scan gets past the table. -/
theorem columnList_table (hschema : ∀ x, s.schema = some x → ¬ EndsInValues x)
    (htable : ¬ EndsInValues s.table) (r : Text) :
    columnList (s.tableText ++ (s.gap₃ ++ '(' :: r)) none = columnList r (some []) := by
  have hname := columnList_ident h.table htable (nameEnds_columns h r) none
  have hopen : columnList (s.gap₃ ++ '(' :: r) none = columnList r (some []) := by
    rw [columnList_blank h.gap₃, columnList_open]
  rw [tableText]
  cases hs : s.schema with
  | none => rw [hname, Option.map_none, hopen]
  | some x =>
      have hdot := columnList_skip ['.'] (s.table ++ (s.gap₃ ++ '(' :: r)) none
        (forall_mem_of_all (by decide))
      rw [List.singleton_append] at hdot
      dsimp only
      rw [List.append_assoc, List.cons_append, columnList_ident (h.schema x hs) (hschema x hs)
        (nameEnds_cons rfl _), Option.map_none, hdot, Option.map_none, hname, Option.map_none,
        hopen]

/-- The column list is found when nothing before it and in it is misread. -/
theorem columnList_readable (hschema : ∀ x, s.schema = some x → ¬ EndsInValues x)
    (htable : ¬ EndsInValues s.table) (hcols : ∀ c ∈ s.columns, ¬ c.column.Misread) :
    columnList s.query none = some (columnsText s.columns ++ ')' :: s.gap₄) := by
  rw [columnList_query h, columnList_table h hschema htable,
    columnList_columns h.columns hcols (nameEnds_cons rfl _), columnList_end h]
  simp

end InsertStmt

theorem columnName_column {c : Column} (h : c.WellFormed) {r : Text} (hr : NameEnds r) :
    columnName (c.text ++ r) = (c.name, r) := by
  cases c with
  | plain x =>
      have hx := h.plain x rfl
      have hlen : x.length ≤ 63 := h.length
      have hstop : (r.takeWhile fun d => isIdentChar d && d != '"') = [] := by
        cases r with
        | nil => rfl
        | cons d r => simp [hr d rfl]
      have hname : (x ++ r).takeWhile (fun d => isIdentChar d && d != '"') = x := by
        rw [List.takeWhile_append_of_pos (by simpa using hx.ident), hstop, List.append_nil]
      change columnName (x ++ r) = (x, r)
      unfold columnName
      split
      · rename_i q heq
        obtain ⟨d, y, rfl⟩ := List.exists_cons_of_ne_nil hx.nonempty
        cases heq
        exact absurd rfl (hx.ident _ List.mem_cons_self).2
      · simp only [hname, List.take_of_length_le hlen, List.drop_left]
  | quoted x =>
      have hquote := h.quoted x rfl
      have hlen : x.length ≤ 63 := h.length
      have hname : (x ++ '"' :: r).takeWhile (· != '"') = x := by
        rw [List.takeWhile_append_of_pos]
        · simp
        · intro d hd
          have : d ≠ '"' := fun hq => hquote (hq ▸ hd)
          simpa using this
      change columnName ('"' :: (x ++ ['"']) ++ r) = (x, r)
      rw [List.cons_append, List.append_assoc, List.singleton_append, columnName]
      simp only [hname, List.take_of_length_le hlen, List.drop_left]

/-- A column starts with another character than a blank or a closing parenthesis. -/
theorem Column.WellFormed.text_head {c : Column} (h : c.WellFormed) : ∃ d x, c.text = d :: x ∧
    isBlank d = false ∧ d ≠ ')' := by
  cases c with
  | plain x =>
      have hx := h.plain x rfl
      obtain ⟨d, y, rfl⟩ := List.exists_cons_of_ne_nil hx.nonempty
      have hd := (hx.ident d (by simp)).1
      refine ⟨d, y, rfl, ?_, ?_⟩
      · rw [← Bool.not_eq_true]
        intro hblank
        rcases isBlank_cases hblank with rfl | rfl | rfl | rfl <;> cases hd
      · rintro rfl
        cases hd
  | quoted x => exact ⟨'"', x ++ ['"'], rfl, rfl, by decide⟩

theorem dropWhile_blank {x : Text} (h : IsBlank x) {d : Char} (hd : isBlank d = false) (r : Text) :
    (x ++ d :: r).dropWhile isBlank = d :: r := by
  rw [List.dropWhile_append_of_pos h, List.dropWhile_cons, if_neg (by simp [hd])]

theorem dropWhile_separator {x : Text} (h : IsBlank x) {d : Char} (hd : d = ',' ∨ d = ')')
    (r : Text) : (x ++ d :: r).dropWhile (fun x => x != ',' && x != ')') = d :: r := by
  rw [List.dropWhile_append_of_pos, List.dropWhile_cons]
  · rcases hd with rfl | rfl <;> rfl
  · intro c hc
    rcases isBlank_cases (h c hc) with rfl | rfl | rfl | rfl <;> rfl

/-- One round of the search, on a column that ends at a comma or at the end of the list. -/
theorem findColumn_listed (name : Text) (rounds : Nat) {c : ListedColumn} (hb : IsBlank c.before)
    (hc : c.column.WellFormed) (ha : IsBlank c.after) {d : Char} (hd : d = ',' ∨ d = ')') (r : Text)
    (idx : Int) : findColumn name (rounds + 1) (c.text ++ d :: r) idx =
      if nameEqCi c.column.name name then some (toInt16 idx)
      else if d = ',' then findColumn name rounds r (idx + 1) else none := by
  obtain ⟨e, x, htext, hblank, hclose⟩ := hc.text_head
  have hends : NameEnds (c.after ++ d :: r) :=
    nameEnds_blank ha (nameEnds_cons (by rcases hd with rfl | rfl <;> rfl) r)
  have hname := columnName_column hc hends
  rw [htext, List.cons_append] at hname
  have hdrop : (c.text ++ d :: r).dropWhile isBlank = e :: (x ++ (c.after ++ d :: r)) := by
    rw [ListedColumn.text, htext]
    simp only [List.append_assoc, List.cons_append]
    exact dropWhile_blank hb hblank _
  rw [findColumn, hdrop]
  split
  · rename_i heq
    cases heq
  · rename_i heq
    cases heq
    exact absurd rfl hclose
  · rw [hname]
    dsimp only
    rw [dropWhile_separator ha hd]
    simp only [ne_eq, hc.nonempty, not_false_eq_true, true_and]
    split
    · rfl
    · rcases hd with rfl | rfl <;> rfl

/-- The first column with a name, as the search compares it. -/
def columnPosition (cols : List ListedColumn) (name : Text) : Option Nat :=
  cols.findIdx? fun c => nameEqCi c.column.name name

theorem InsertStmt.position_eq (s : InsertStmt) (name : Text) :
    s.position name = columnPosition s.columns name := by
  apply congrArg (fun p => s.columns.findIdx? p)
  funext c
  exact (beq_eq_decide ..).symm

theorem findColumn_columns (name : Text) {cols : List ListedColumn}
    (h : ∀ c ∈ cols, IsBlank c.before ∧ c.column.WellFormed ∧ IsBlank c.after) (hne : cols ≠ [])
    {rounds : Nat} (hrounds : cols.length ≤ rounds) (r : Text) (idx : Int) :
    findColumn name rounds (columnsText cols ++ ')' :: r) idx =
      (columnPosition cols name).map fun j : Nat => toInt16 (idx + (j : Int)) := by
  induction cols generalizing rounds idx with
  | nil => exact absurd rfl hne
  | cons c cols ih =>
      obtain ⟨hb, hc, ha⟩ := h c (by simp)
      obtain ⟨rounds, rfl⟩ := Nat.exists_eq_succ_of_ne_zero (Nat.ne_of_gt
        (Nat.lt_of_lt_of_le (Nat.succ_pos _) hrounds))
      rw [columnPosition, List.findIdx?_cons]
      cases cols with
      | nil =>
          rw [columnsText, findColumn_listed name rounds hb hc ha (Or.inr rfl)]
          split
          · simp
          · rfl
      | cons c' cols =>
          have ih := ih (fun x hx => h x (List.mem_cons_of_mem _ hx)) (by simp)
            (Nat.le_of_succ_le_succ hrounds) (idx + 1)
          rw [columnsText, List.append_assoc, List.cons_append,
            findColumn_listed name rounds hb hc ha (Or.inl rfl), if_pos rfl, ih, columnPosition]
          split
          · simp
          · rw [Option.map_map]
            congr 1
            funext j
            simp only [Function.comp_apply, Int.natCast_add, Int.natCast_one]
            congr 1
            omega

theorem length_le_columnsText (cols : List ListedColumn) :
    cols.length ≤ (columnsText cols).length + 1 := by
  induction cols with
  | nil => simp
  | cons c cols ih =>
      cases cols with
      | nil => simp
      | cons c' cols =>
          simp only [columnsText, List.length_append, List.length_cons] at ih ⊢
          omega

/-- A name is looked up in the column list, if there is one. -/
theorem resolve_eq {name : Text} (hname : ParamName name) (hne : name ≠ []) (query : Text)
    (fallback : Int) : resolveIdentitySlot query (some name) fallback =
      ((columnList query none).bind fun cols =>
        findColumn name (cols.length + 1) cols 0).getD fallback := by
  have hdigit : name.all Char.isDigit = false := by
    rw [← Bool.not_eq_true]
    exact fun h => hne (hname.numeric h)
  unfold resolveIdentitySlot
  split
  · contradiction
  · rename_i heq
    cases heq
    exact absurd rfl hne
  · rename_i heq
    cases heq
    exact absurd rfl hname.dollar
  · rename_i heq
    cases heq
    rw [hdigit, if_neg (by decide)]
    cases columnList query none <;> rfl

theorem toInt16_eq {j : Nat} (h : j < 32768) : toInt16 (0 + (j : Int)) = j := by
  rw [toInt16, Int.bmod_def]
  split <;> omega

/-- Every name is resolved in a readable statement. -/
theorem InsertStmt.Readable.resolves {s : InsertStmt} (hread : s.Readable) (h : s.WellFormed) :
    s.Resolves := by
  intro name fallback hname
  by_cases hne : name = []
  · -- the empty name is no column's, and is not looked for
    subst hne
    have hnone : s.position [] = none := by
      rw [position, List.findIdx?_eq_none_iff]
      intro c hc
      simpa using (h.columns c hc).2.1.nonempty
    rw [hnone, Option.map_none, Option.getD_none]
    generalize s.query = query
    rfl
  · have hlen : s.columns.length ≤ (columnsText s.columns ++ ')' :: s.gap₄).length + 1 := by
      have := length_le_columnsText s.columns
      rw [List.length_append]
      omega
    rw [resolve_eq hname hne, columnList_readable h hread.schema hread.table hread.columns,
      Option.bind_some,
      findColumn_columns name h.columns h.nonempty hlen, position_eq]
    cases hpos : columnPosition s.columns name with
    | none => rw [Option.map_none, Option.map_none]
    | some j =>
        have hj : j < s.columns.length := (List.findIdx?_eq_some_iff_getElem.mp hpos).1
        rw [Option.map_some, Option.map_some, toInt16_eq (Nat.lt_of_lt_of_le hj hread.length)]

/-- No two columns have one name, and each of them can be asked for. -/
structure InsertStmt.Addressable (s : InsertStmt) : Prop where
  distinct : s.columns.Pairwise fun c c' =>
    c.column.name.map lowerAscii ≠ c'.column.name.map lowerAscii
  names : ∀ c ∈ s.columns, ParamName c.column.name

theorem nameEqCi_iff (a b : Text) : nameEqCi a b = true ↔ a.map lowerAscii = b.map lowerAscii :=
  beq_iff_eq

theorem lowerAscii_paren {c : Char} (h : lowerAscii c = '(') : c = '(' := by
  by_cases hupper : ('A' ≤ c && c ≤ 'Z') = true
  · have hlt : c.toNat < 128 := by
      rw [Bool.and_eq_true, decide_eq_true_eq, decide_eq_true_eq, Char.le_def,
        UInt32.le_iff_toNat_le] at hupper
      have h2 : c.toNat ≤ 90 := hupper.2
      omega
    have hall : ∀ n < 128, lowerAscii (Char.ofNat n) = '(' → Char.ofNat n = '(' := by decide
    have := hall c.toNat hlt
    rw [Char.ofNat_toNat] at this
    exact this h
  · rwa [lowerAscii, if_neg hupper] at h

/-! No column list has a parenthesis in it, so no name with one is found. -/

theorem columnList_no_paren {p t : Text} {acc : Option Text} (h : columnList p acc = some t)
    (hacc : ∀ a, acc = some a → '(' ∉ a) : '(' ∉ t := by
  induction p generalizing acc with
  | nil => exact hacc t h
  | cons c p ih =>
      rw [columnList] at h
      split at h
      · exact hacc t h
      · apply ih h
        intro a ha
        by_cases hc : c = '('
        · rw [if_pos hc] at ha
          cases ha
          simp
        · rw [if_neg hc] at ha
          obtain ⟨a', ha', rfl⟩ := Option.map_eq_some_iff.mp ha
          have hne : '(' ≠ c := fun heq => hc heq.symm
          simp [hacc a' ha', hne]

theorem columnName_subset (q : Text) : (columnName q).1 ⊆ q ∧ (columnName q).2 ⊆ q := by
  unfold columnName
  split
  · rename_i q
    have hname : (q.takeWhile (· != '"')).take 63 ⊆ '"' :: q := fun c hc =>
      List.mem_cons_of_mem _ (List.takeWhile_subset _ (List.mem_of_mem_take hc))
    have hrest : q.drop ((q.takeWhile (· != '"')).take 63).length ⊆ '"' :: q := fun c hc =>
      List.mem_cons_of_mem _ (List.mem_of_mem_drop hc)
    dsimp only
    split
    · rename_i q' heq
      refine ⟨hname, ?_⟩
      intro c hc
      apply hrest
      rw [heq]
      exact List.mem_cons_of_mem _ hc
    · exact ⟨hname, hrest⟩
  · exact ⟨fun c hc => List.takeWhile_subset _ (List.mem_of_mem_take hc),
      fun c hc => List.mem_of_mem_drop hc⟩

theorem findColumn_no_paren {name : Text} {rounds : Nat} {q : Text} {idx i : Int}
    (h : findColumn name rounds q idx = some i) (hq : '(' ∉ q) : '(' ∉ name := by
  induction rounds generalizing q idx with
  | zero => cases h
  | succ rounds ih =>
      rw [findColumn] at h
      have hdrop : '(' ∉ q.dropWhile isBlank := fun hmem => hq ((List.dropWhile_suffix _).subset hmem)
      generalize q.dropWhile isBlank = q' at h hdrop
      split at h
      · cases h
      · cases h
      · obtain ⟨hname, hrest⟩ := columnName_subset q'
        dsimp only at h
        split at h
        · rename_i hfound
          intro hmem
          have heq := (nameEqCi_iff _ _).mp hfound.2
          have hparen : '(' ∈ (columnName q').1.map lowerAscii := by
            rw [heq]
            exact List.mem_map.mpr ⟨'(', hmem, rfl⟩
          obtain ⟨c, hc, hlower⟩ := List.mem_map.mp hparen
          exact hdrop (hname (lowerAscii_paren hlower ▸ hc))
        · split at h
          · rename_i q'' heq
            apply ih h
            intro hmem
            apply hdrop
            apply hrest
            apply (List.dropWhile_suffix _).subset
            rw [heq]
            exact List.mem_cons_of_mem _ hmem
          · cases h

/-! Where the scan stops early, it has seen only what stands before that. -/

theorem noStop_cons {c : Char} {x r : Text} :
    NoStop (c :: x) r ↔ atValues (c :: (x ++ r)) = false ∧ NoStop x r := by
  constructor
  · intro h
    exact ⟨h 0 (by simp), fun k hk => h (k + 1) (by simpa using hk)⟩
  · rintro ⟨h0, h⟩ k hk
    cases k with
    | zero => exact h0
    | succ k => exact h k (by simpa using hk)

theorem columnList_none {x r : Text} (hparen : '(' ∉ x) (h : ¬ NoStop x r) :
    columnList (x ++ r) none = none := by
  induction x with
  | nil => exact absurd (fun k hk => nomatch hk) h
  | cons c x ih =>
      have hc : c ≠ '(' := fun heq => hparen (heq ▸ List.mem_cons_self)
      rw [List.cons_append, columnList]
      by_cases hat : atValues (c :: (x ++ r)) = true
      · rw [if_pos hat]
      · rw [if_neg hat, if_neg hc, Option.map_none]
        apply ih (fun hmem => hparen (List.mem_cons_of_mem _ hmem))
        exact fun hrest => h (noStop_cons.mpr ⟨by simpa using hat, hrest⟩)

theorem columnList_early {x r : Text} (hparen : '(' ∉ x) (h : ¬ NoStop x r) (acc : Text) :
    ∃ k < x.length, atValues (x.drop k ++ r) = true ∧
      columnList (x ++ r) (some acc) = some (acc ++ x.take k) := by
  induction x generalizing acc with
  | nil => exact absurd (fun k hk => nomatch hk) h
  | cons c x ih =>
      have hc : c ≠ '(' := fun heq => hparen (heq ▸ List.mem_cons_self)
      rw [List.cons_append, columnList]
      by_cases hat : atValues (c :: (x ++ r)) = true
      · refine ⟨0, by simp, hat, ?_⟩
        rw [if_pos hat, List.take_zero, List.append_nil]
      · have hrest : ¬ NoStop x r := fun hrest =>
          h (noStop_cons.mpr ⟨by simpa using hat, hrest⟩)
        obtain ⟨k, hk, hstop, hlist⟩ := ih (fun hmem => hparen (List.mem_cons_of_mem _ hmem))
          hrest (acc ++ [c])
        refine ⟨k + 1, by simpa using hk, hstop, ?_⟩
        rw [if_neg hat, if_neg hc, Option.map_some, hlist, List.append_assoc,
          List.singleton_append, List.take_succ_cons]

/-- Columns before the last one, each with its comma. -/
def commaColumns (cols : List ListedColumn) : Text := cols.flatMap fun c => c.text ++ [',']

theorem columnsText_append (before : List ListedColumn) (c : ListedColumn)
    (after : List ListedColumn) : columnsText (before ++ c :: after) =
      commaColumns before ++ columnsText (c :: after) := by
  induction before with
  | nil => rfl
  | cons b before ih =>
      have hne : before ++ c :: after ≠ [] := by simp
      obtain ⟨d, rest, hd⟩ := List.exists_cons_of_ne_nil hne
      rw [commaColumns, List.flatMap_cons, List.cons_append, hd, columnsText, ← hd, ih,
        List.append_assoc, List.append_assoc]
      rfl

theorem columnList_commaColumns {cols : List ListedColumn}
    (h : ∀ c ∈ cols, IsBlank c.before ∧ c.column.WellFormed ∧ IsBlank c.after)
    (hread : ∀ c ∈ cols, ¬ c.column.Misread) (r acc : Text) :
    columnList (commaColumns cols ++ r) (some acc) =
      columnList r (some (acc ++ commaColumns cols)) := by
  induction cols generalizing acc with
  | nil => simp [commaColumns]
  | cons c cols ih =>
      obtain ⟨hb, hc, ha⟩ := h c (by simp)
      have ih := ih (fun x hx => h x (List.mem_cons_of_mem _ hx))
        (fun x hx => hread x (List.mem_cons_of_mem _ hx)) (acc ++ c.text ++ [','])
      rw [commaColumns, List.flatMap_cons, List.append_assoc, List.append_assoc,
        List.singleton_append, columnList_listed hb hc ha (hread c (by simp))
        (nameEnds_cons rfl _), columnList_comma, Option.map_some, Option.map_some]
      rw [commaColumns] at ih
      rw [ih]
      simp

/-- The search passes over columns with other names. -/
theorem findColumn_commaColumns {name : Text} {cols : List ListedColumn}
    (h : ∀ c ∈ cols, IsBlank c.before ∧ c.column.WellFormed ∧ IsBlank c.after)
    (hne : ∀ c ∈ cols, nameEqCi c.column.name name = false) (rounds : Nat) (r : Text) (idx : Int) :
    findColumn name (cols.length + rounds) (commaColumns cols ++ r) idx =
      findColumn name rounds r (idx + cols.length) := by
  induction cols generalizing idx with
  | nil => simp [commaColumns]
  | cons c cols ih =>
      obtain ⟨hb, hc, ha⟩ := h c (by simp)
      have ih := ih (fun x hx => h x (List.mem_cons_of_mem _ hx))
        (fun x hx => hne x (List.mem_cons_of_mem _ hx)) (idx + 1)
      rw [commaColumns] at ih
      rw [commaColumns, List.flatMap_cons, List.append_assoc, List.append_assoc,
        List.singleton_append, List.length_cons, Nat.add_right_comm,
        findColumn_listed name _ hb hc ha (Or.inl rfl), hne c (by simp), if_neg (by decide),
        if_pos rfl, ih]
      congr 1
      rw [Int.natCast_add, Int.natCast_one]
      omega

theorem atValues_quote (r : Text) : atValues ('"' :: r) = false := by
  rw [← Bool.not_eq_true]
  intro h
  exact absurd (List.cons.inj (atValues_letters h)).1 (by decide)

/-- The part of a column before an early stop: nothing, or a shorter name. -/
theorem columnList_misread {c : Column} (h : c.WellFormed) (hparen : '(' ∉ c.name)
    (hmis : c.Misread) {r : Text} (hr : NameEnds r) (acc : Text) :
    ∃ x, columnList (c.text ++ r) (some acc) = some (acc ++ x) ∧
      (x = [] ∨ ∃ d y, x = d :: y ∧ isBlank d = false ∧ d ≠ ')' ∧
        (columnName x).1.length < c.name.length ∧ (columnName x).2 = []) := by
  cases c with
  | plain x =>
      have hx := h.plain x rfl
      have hlen : x.length ≤ 63 := h.length
      have hstop : ¬ NoStop x r := fun hno =>
        (noStop_ident (fun c hc => (hx.ident c hc).1) hr).mp hno hmis
      obtain ⟨k, hk, -, hlist⟩ := columnList_early hparen hstop acc
      refine ⟨x.take k, hlist, ?_⟩
      by_cases hnil : x.take k = []
      · exact Or.inl hnil
      · have hpart : (Column.plain (x.take k)).WellFormed := by
          refine ⟨Nat.le_trans (List.length_take_le' k x) hlen, hnil, ?_, nofun⟩
          rintro y ⟨⟩
          exact ⟨hnil, fun c hc => hx.ident c (List.mem_of_mem_take hc)⟩
        obtain ⟨d, y, htext, hblank, hclose⟩ := hpart.text_head
        have hname : columnName (x.take k ++ []) = (x.take k, []) :=
          columnName_column hpart nofun
        rw [List.append_nil] at hname
        refine Or.inr ⟨d, y, htext, hblank, hclose, ?_, ?_⟩
        · rw [hname]
          exact Nat.lt_of_le_of_lt (List.length_take_le k x) hk
        · rw [hname]
  | quoted x =>
      have hword : HasValuesWord x := hmis.resolve_left hparen
      have hquote := h.quoted x rfl
      have hlen : x.length ≤ 63 := h.length
      have hstop : ¬ NoStop ('"' :: x ++ ['"']) r := fun hno =>
        (noStop_quoted hquote r).mp hno hword
      have hparen' : '(' ∉ '"' :: x ++ ['"'] := by
        have hx : '(' ∉ x := hparen
        simpa using hx
      obtain ⟨k, hk, hat, hlist⟩ := columnList_early hparen' hstop acc
      refine ⟨_, hlist, Or.inr ?_⟩
      cases k with
      | zero =>
          rw [List.drop_zero, List.cons_append, List.cons_append, atValues_quote] at hat
          cases hat
      | succ k =>
          have hkx : k < x.length := by
            by_contra hge
            have hk : k = x.length := by
              simp only [List.length_append, List.length_cons, List.length_nil] at hk
              omega
            rw [List.cons_append, List.drop_succ_cons, hk, List.drop_left, List.singleton_append,
              atValues_quote] at hat
            cases hat
          have hpart : ('"' :: x ++ ['"']).take (k + 1) = '"' :: x.take k := by
            rw [List.cons_append, List.take_succ_cons, List.take_append_of_le_length (Nat.le_of_lt hkx)]
          have hwhile : (x.take k).takeWhile (· != '"') = x.take k := by
            rw [List.takeWhile_eq_self_iff]
            intro d hd
            have : d ≠ '"' := fun hq => hquote (hq ▸ List.mem_of_mem_take hd)
            simpa using this
          have htake : (x.take k).take 63 = x.take k :=
            List.take_of_length_le (Nat.le_trans (List.length_take_le' k x) hlen)
          have hname : columnName ('"' :: x.take k) = (x.take k, []) := by
            rw [columnName]
            simp only [hwhile, htake, List.drop_length]
          refine ⟨'"', x.take k, hpart, rfl, by decide, ?_, ?_⟩
          · rw [hpart, hname]
            exact Nat.lt_of_le_of_lt (List.length_take_le k x) hkx
          · rw [hpart, hname]

/-- A column that the scan stopped in is not found. -/
theorem findColumn_part {name : Text} {b x : Text} (hb : IsBlank b)
    (hx : x = [] ∨ ∃ d y, x = d :: y ∧ isBlank d = false ∧ d ≠ ')' ∧
      (columnName x).1.length < name.length ∧ (columnName x).2 = []) (rounds : Nat) (idx : Int) :
    findColumn name rounds (b ++ x) idx = none := by
  cases rounds with
  | zero => rfl
  | succ rounds =>
      rw [findColumn]
      rcases hx with rfl | ⟨d, y, rfl, hblank, hclose, hlen, hrest⟩
      · have hdrop : (b ++ []).dropWhile isBlank = [] := by
          rw [List.append_nil]
          exact List.dropWhile_eq_nil_iff.mpr hb
        rw [hdrop]
      · rw [dropWhile_blank hb hblank]
        split
        · rename_i heq
          cases heq
        · rename_i heq
          cases heq
          exact absurd rfl hclose
        · have hother : nameEqCi (columnName (d :: y)).1 name = false := by
            rw [← Bool.not_eq_true, nameEqCi_iff]
            intro heq
            have := congrArg List.length heq
            rw [List.length_map, List.length_map] at this
            omega
          simp only [hother, hrest, Bool.false_eq_true, and_false, if_false, List.dropWhile_nil]

theorem length_le_commaColumns (cols : List ListedColumn) :
    cols.length ≤ (commaColumns cols).length := by
  induction cols with
  | nil => simp
  | cons c cols ih =>
      rw [commaColumns] at ih
      simp only [commaColumns, List.flatMap_cons, List.length_append, List.length_cons] at ih ⊢
      omega

/-- What follows the name of a column in its list. -/
theorem columnsText_cons {c : ListedColumn} (ha : IsBlank c.after) (after : List ListedColumn)
    (r : Text) : ∃ r', NameEnds r' ∧
      columnsText (c :: after) ++ ')' :: r = c.before ++ (c.column.text ++ r') := by
  cases after with
  | nil =>
      refine ⟨c.after ++ ')' :: r, nameEnds_blank ha (nameEnds_cons rfl r), ?_⟩
      simp [columnsText, ListedColumn.text]
  | cons c' after =>
      refine ⟨c.after ++ ',' :: (columnsText (c' :: after) ++ ')' :: r),
        nameEnds_blank ha (nameEnds_cons rfl _), ?_⟩
      simp [columnsText, ListedColumn.text]

/-- The first entry with a property. -/
theorem exists_first {α : Type} {p : α → Prop} {l : List α} (h : ∃ x ∈ l, p x) :
    ∃ before x after, l = before ++ x :: after ∧ (∀ y ∈ before, ¬ p y) ∧ p x := by
  classical
  induction l with
  | nil =>
      obtain ⟨x, hx, -⟩ := h
      cases hx
  | cons y l ih =>
      by_cases hy : p y
      · exact ⟨[], y, l, rfl, nofun, hy⟩
      · obtain ⟨x, hx, hpx⟩ := h
        have hrest : x ∈ l := by
          rcases List.mem_cons.mp hx with rfl | hrest
          · exact absurd hpx hy
          · exact hrest
        obtain ⟨before, x, after, rfl, hbefore, hpx⟩ := ih ⟨x, hrest, hpx⟩
        exact ⟨y :: before, x, after, rfl, List.forall_mem_cons.mpr ⟨hy, hbefore⟩, hpx⟩

namespace InsertStmt

variable {s : InsertStmt} (h : s.WellFormed) (ha : s.Addressable) (hr : s.Resolves)
include h ha hr

omit h hr in
/-- The first column with the name of a column is that column. -/
theorem position_of_distinct {i : Nat} {c : ListedColumn} (hc : s.columns[i]? = some c) :
    s.position c.column.name = some i := by
  obtain ⟨hi, rfl⟩ := List.getElem?_eq_some_iff.mp hc
  rw [position, List.findIdx?_eq_some_iff_getElem]
  refine ⟨hi, by simp, ?_⟩
  intro j hj
  have := List.pairwise_iff_getElem.mp ha.distinct j i (by omega) hi hj
  simpa using this

/-- Every column is found by its own name. -/
theorem found_of_resolves {i : Nat} {c : ListedColumn} (hc : s.columns[i]? = some c) :
    ∃ tail, columnList s.query none = some tail ∧
      findColumn c.column.name (tail.length + 1) tail 0 = some (i : Int) := by
  have hmem : c ∈ s.columns := List.mem_of_getElem? hc
  have hne := (h.columns c hmem).2.1.nonempty
  have hname := ha.names c hmem
  have hpos := position_of_distinct ha hc
  -- a fallback that is not the position
  have hfound := hr c.column.name (i + 1) hname
  rw [resolve_eq hname hne, hpos, Option.map_some, Option.getD_some] at hfound
  cases hlist : columnList s.query none with
  | none =>
      rw [hlist] at hfound
      change (i + 1 : Int) = i at hfound
      omega
  | some tail =>
      refine ⟨tail, rfl, ?_⟩
      rw [hlist, Option.bind_some] at hfound
      cases hfind : findColumn c.column.name (tail.length + 1) tail 0 with
      | none =>
          rw [hfind, Option.getD_none] at hfound
          omega
      | some j =>
          rw [hfind, Option.getD_some] at hfound
          rw [hfound]

/-- The list is found, so the table does not stop the scan. -/
theorem table_of_resolves :
    (∀ x, s.schema = some x → ¬ EndsInValues x) ∧ ¬ EndsInValues s.table := by
  obtain ⟨c, cols, hcols⟩ := List.exists_cons_of_ne_nil h.nonempty
  obtain ⟨tail, hlist, -⟩ := found_of_resolves h ha hr (i := 0) (c := c) (by rw [hcols]; rfl)
  rw [columnList_query h, tableText] at hlist
  have hstops : ∀ {x r : Text}, IsIdent x → NameEnds r → EndsInValues x →
      columnList (x ++ r) none = none := fun hx hends hvalues =>
    columnList_none hx.no_paren fun hno =>
      (noStop_ident (fun c hc => (hx.ident c hc).1) hends).mp hno hvalues
  have hschema : ∀ x, s.schema = some x → ¬ EndsInValues x := by
    intro x hs hvalues
    rw [hs] at hlist
    dsimp only at hlist
    rw [List.append_assoc, List.cons_append,
      hstops (h.schema x hs) (nameEnds_cons rfl _) hvalues] at hlist
    cases hlist
  refine ⟨hschema, fun hvalues => ?_⟩
  have htable := fun r => hstops h.table (nameEnds_columns h r) hvalues
  cases hs : s.schema with
  | none =>
      rw [hs, htable] at hlist
      cases hlist
  | some x =>
      rw [hs] at hlist
      dsimp only at hlist
      rw [List.append_assoc, List.cons_append, columnList_ident (h.schema x hs) (hschema x hs)
        (nameEnds_cons rfl _), Option.map_none] at hlist
      have hdot := columnList_skip ['.'] (s.table ++ (s.gap₃ ++ '(' :: (columnsText s.columns ++
        ')' :: (s.gap₄ ++ (s.values ++ s.rest))))) none (forall_mem_of_all (by decide))
      rw [List.singleton_append] at hdot
      rw [hdot, Option.map_none, htable] at hlist
      cases hlist

theorem noParen_of_resolves : ∀ c ∈ s.columns, '(' ∉ c.column.name := by
  intro c hc
  obtain ⟨i, hi⟩ := List.mem_iff_getElem?.mp hc
  obtain ⟨tail, hlist, hfind⟩ := found_of_resolves h ha hr hi
  exact findColumn_no_paren hfind (columnList_no_paren hlist nofun)

/-- No column stops the scan: the first one that did would not be found. -/
theorem columns_of_resolves : ∀ c ∈ s.columns, ¬ c.column.Misread := by
  by_contra hmis
  push Not at hmis
  obtain ⟨before, c, after, hcols, hread, hc⟩ := exists_first hmis
  have hmem : c ∈ s.columns := by
    rw [hcols]
    simp
  have hi : s.columns[before.length]? = some c := by
    rw [hcols]
    simp
  obtain ⟨hb, hwf, hafter⟩ := h.columns c hmem
  have hbefore : ∀ x ∈ before, IsBlank x.before ∧ x.column.WellFormed ∧ IsBlank x.after :=
    fun x hx => h.columns x (by rw [hcols]; exact List.mem_append_left _ hx)
  obtain ⟨tail, hlist, hfind⟩ := found_of_resolves h ha hr hi
  obtain ⟨hschema, htable⟩ := table_of_resolves h ha hr
  obtain ⟨r, hends, hrest⟩ := columnsText_cons hafter after (s.gap₄ ++ (s.values ++ s.rest))
  obtain ⟨x, hpart, hx⟩ := columnList_misread hwf (noParen_of_resolves h ha hr c hmem) hc hends
    (commaColumns before ++ c.before)
  have htail : tail = commaColumns before ++ (c.before ++ x) := by
    rw [columnList_query h, columnList_table h hschema htable, hcols, columnsText_append,
      List.append_assoc, hrest, columnList_commaColumns hbefore hread, columnList_blank hb,
      Option.map_some, List.nil_append, hpart, List.append_assoc] at hlist
    exact (Option.some.inj hlist).symm
  have hother : ∀ y ∈ before, nameEqCi y.column.name c.column.name = false := by
    intro y hy
    have hdistinct := ha.distinct
    rw [hcols, List.pairwise_append] at hdistinct
    rw [← Bool.not_eq_true, nameEqCi_iff]
    exact hdistinct.2.2 y hy c (by simp)
  have hlen : before.length ≤ tail.length := by
    rw [htail, List.length_append]
    exact Nat.le_trans (length_le_commaColumns before) (Nat.le_add_right ..)
  have hrounds : tail.length + 1 = before.length + (tail.length - before.length + 1) := by omega
  rw [hrounds, htail, findColumn_commaColumns hbefore hother, findColumn_part hb hx] at hfind
  cases hfind

/-- The last position fits. -/
theorem length_of_resolves : s.columns.length ≤ 32768 := by
  by_contra hlong
  have hi : s.columns[32768]? = some s.columns[32768] := List.getElem?_eq_getElem (by omega)
  obtain ⟨hschema, htable⟩ := table_of_resolves h ha hr
  obtain ⟨tail, hlist, hfind⟩ := found_of_resolves h ha hr hi
  have hpos := position_of_distinct ha hi
  rw [columnList_readable h hschema htable (columns_of_resolves h ha hr)] at hlist
  obtain rfl := Option.some.inj hlist
  have hlen : s.columns.length ≤ (columnsText s.columns ++ ')' :: s.gap₄).length + 1 := by
    have := length_le_columnsText s.columns
    rw [List.length_append]
    omega
  rw [findColumn_columns _ h.columns h.nonempty hlen, ← position_eq, hpos, Option.map_some] at hfind
  exact absurd hfind (by decide)

theorem readable_of_resolves : s.Readable where
  schema := (table_of_resolves h ha hr).1
  table := (table_of_resolves h ha hr).2
  columns := columns_of_resolves h ha hr
  length := length_of_resolves h ha hr

end InsertStmt

/-- A readable statement resolves every name, and a statement that resolves every name is readable:
that is so as soon as its columns are distinct and can be asked for. -/
theorem resolves_iff {s : InsertStmt} (h : s.WellFormed) :
    (s.Readable → s.Resolves) ∧ (s.Addressable → s.Resolves → s.Readable) :=
  ⟨fun hread => hread.resolves h, fun ha hr => InsertStmt.readable_of_resolves h ha hr⟩

/-- `INSERT INTO t (c, router_id) VALUES ($1, $2)`. -/
def twoColumns (c : Text) : InsertStmt where
  gap₁ := [' ']
  gap₂ := [' ']
  schema := none
  table := ['t']
  gap₃ := [' ']
  columns := [⟨[], .plain c, []⟩, ⟨[' '], .plain "router_id".toList, []⟩]
  gap₄ := [' ']
  values := "VALUES".toList
  rest := " ($1, $2)".toList

theorem isBlank_space : IsBlank [' '] := forall_mem_of_all (by decide)

theorem twoColumns_wellFormed {c : Text} (hc : IsIdent c) (hlen : c.length ≤ 63) :
    (twoColumns c).WellFormed where
  gap₁ := ⟨isBlank_space, nofun⟩
  gap₂ := ⟨isBlank_space, nofun⟩
  schema := nofun
  table := (⟨nofun, forall_mem_of_all (by decide)⟩ : IsIdent ['t'])
  gap₃ := isBlank_space
  columns := by
    intro d hd
    have hrouter : IsIdent "router_id".toList := ⟨by decide, forall_mem_of_all (by decide)⟩
    rcases List.mem_cons.mp hd with rfl | hd
    · exact ⟨nofun, ⟨hlen, hc.nonempty, by rintro x ⟨⟩; exact hc, nofun⟩, nofun⟩
    · obtain rfl := List.mem_singleton.mp hd
      exact ⟨isBlank_space, ⟨by decide, by decide, by rintro x ⟨⟩; exact hrouter, nofun⟩, nofun⟩
  nonempty := nofun
  gap₄ := isBlank_space
  values := (by decide : "VALUES".toList.map lowerAscii = "values".toList)
  rest := ⟨[' '], _, isBlank_space, rfl⟩

theorem not_endsInValues {x : Text} (h : 'v' ∉ x.map lowerAscii) : ¬ EndsInValues x := by
  rintro ⟨y, v, rfl, hv⟩
  apply h
  rw [List.map_append, hv]
  exact List.mem_append_right _ (by decide)

theorem resolves_payload : (twoColumns "payload".toList).Resolves :=
  (resolves_iff (twoColumns_wellFormed ⟨by decide, forall_mem_of_all (by decide)⟩ (by decide))).1
    { schema := nofun
      table := not_endsInValues (by decide)
      columns := by
        intro d hd
        rcases List.mem_cons.mp hd with rfl | hd
        · exact not_endsInValues (by decide)
        · obtain rfl := List.mem_singleton.mp hd
          exact not_endsInValues (by decide)
      length := by decide }

/-- Behind a column `old_values` the identity column is not seen, and the fallback is taken. -/
theorem not_resolves_old_values : ¬ ∀ s : InsertStmt, s.WellFormed → s.Resolves := by
  intro h
  have hresolves := h (twoColumns "old_values".toList)
    (twoColumns_wellFormed ⟨by decide, forall_mem_of_all (by decide)⟩ (by decide)) "router_id".toList 0
    ⟨by decide, by decide⟩
  exact absurd hresolves (by decide +kernel)
