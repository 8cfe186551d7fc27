import PqProxy.Identity

/-! Subjects that are given as text. A subject with slashes is a list of attributes, and the common
name is found behind the slash of its attribute. The organizational unit is found there too, but
where no attribute is one, its name is taken for one wherever it stands. -/

namespace Certificate

theorem strstr_here {pat s : Text} (hne : pat ≠ []) (h : pat <+: s) : strstr pat s = some ([], s) := by
  cases s with
  | nil => exact absurd (List.prefix_nil.mp h) hne
  | cons c s => rw [strstr, if_pos (List.isPrefixOf_iff_prefix.mpr h)]

theorem strstr_later {pat : Text} {c : Char} {s : Text} (h : ¬ pat <+: c :: s) :
    strstr pat (c :: s) = (strstr pat s).map fun r => (c :: r.1, r.2) := by
  rw [strstr, if_neg fun hp => h (List.isPrefixOf_iff_prefix.mp hp)]

/-- What the search passes over. -/
theorem strstr_skip {pat x y : Text} (h : ∀ k < x.length, ¬ pat <+: x.drop k ++ y) :
    strstr pat (x ++ y) = (strstr pat y).map fun r => (x ++ r.1, r.2) := by
  induction x with
  | nil => simp
  | cons c x ih =>
      have hhere : ¬ pat <+: c :: (x ++ y) := h 0 (Nat.succ_pos _)
      have hrest := ih fun k hk => h (k + 1) (Nat.succ_lt_succ hk)
      rw [List.cons_append, strstr_later hhere, hrest, Option.map_map]
      rfl

theorem strstr_eq_some {pat s : Text} {r : Text × Text} (hne : pat ≠ []) (h : strstr pat s = some r) :
    s = r.1 ++ r.2 ∧ pat <+: r.2 := by
  induction s generalizing r with
  | nil => simp [strstr, hne] at h
  | cons c s ih =>
      by_cases hp : pat <+: c :: s
      · rw [strstr_here hne hp] at h
        cases h
        exact ⟨rfl, hp⟩
      · rw [strstr_later hp] at h
        obtain ⟨r', hr', rfl⟩ := Option.map_eq_some_iff.mp h
        obtain ⟨hs, hpre⟩ := ih hr'
        exact ⟨congrArg (c :: ·) hs, hpre⟩

/-- What was found is found as well when more text follows. -/
theorem strstr_append {pat x y : Text} {r : Text × Text} (hne : pat ≠ []) (h : strstr pat x = some r) :
    strstr pat (x ++ y) = some (r.1, r.2 ++ y) := by
  induction x generalizing r with
  | nil => simp [strstr, hne] at h
  | cons c x ih =>
      by_cases hp : pat <+: c :: x
      · rw [strstr_here hne hp] at h
        cases h
        exact strstr_here hne (hp.trans (List.prefix_append ..))
      · rw [strstr_later hp] at h
        obtain ⟨r', hr', rfl⟩ := Option.map_eq_some_iff.mp h
        have hlen : pat.length ≤ x.length := by
          obtain ⟨hx, hpre⟩ := strstr_eq_some hne hr'
          rw [hx, List.length_append]
          exact hpre.length_le.trans (Nat.le_add_left ..)
        have hlater : ¬ pat <+: c :: (x ++ y) := fun hlong => hp
          (List.prefix_of_prefix_length_le hlong (List.prefix_append (c :: x) y) (hlen.trans
            (Nat.le_succ _)))
        rw [List.cons_append, strstr_later hlater, ih hr']
        rfl

theorem strstr_eq_none {pat s : Text} (hne : pat ≠ []) (h : strstr pat s = none) (k : Nat) :
    ¬ pat <+: s.drop k := by
  induction s generalizing k with
  | nil => simpa using hne
  | cons c s ih =>
      by_cases hp : pat <+: c :: s
      · rw [strstr_here hne hp] at h
        cases h
      · rw [strstr_later hp, Option.map_eq_none_iff] at h
        cases k with
        | zero => exact hp
        | succ k => exact ih h k

/-- An attribute of a subject that is given as text. -/
structure Attribute where
  key : Text
  value : Text
  deriving DecidableEq

/-- Names like those of distinguished names, none of which ends in OU but that one itself, and
values without a slash. -/
structure Attribute.WellFormed (a : Attribute) : Prop where
  key : '=' ∉ a.key ∧ '/' ∉ a.key
  unit : ∀ x, a.key = x ++ "OU".toList → x = []
  value : a.value ≠ [] ∧ '/' ∉ a.value

def Attribute.text (a : Attribute) : Text := '/' :: (a.key ++ '=' :: a.value)

/-- The subject `/k1=v1/k2=v2...`. -/
def slashed (attrs : List Attribute) : Text := attrs.flatMap Attribute.text

/-- The value of the first attribute of a name. -/
def firstOf (attrs : List Attribute) (key : Text) : Option Text :=
  (attrs.find? fun a => a.key = key).map Attribute.value

/-- What stands behind the first `OU=` in the values. -/
def strayUnit : List Attribute → Option Text
  | [] => none
  | a :: attrs =>
      match strstr "OU=".toList a.value with
      | some r => some (r.2.drop 3)
      | none => strayUnit attrs

theorem slashed_cons (a : Attribute) (attrs : List Attribute) :
    slashed (a :: attrs) = a.text ++ slashed attrs := List.flatMap_cons

/-- Behind an attribute there is nothing, or a slash. -/
theorem slashed_head (attrs : List Attribute) : ∀ c, (slashed attrs).head? = some c → c = '/' := by
  intro c hc
  cases attrs with
  | nil => cases hc
  | cons a attrs =>
      rw [slashed_cons] at hc
      exact (Option.some.inj hc).symm

/-- A text without a slash does not reach into what follows a slash. -/
theorem prefix_of_no_slash {pat z y : Text} (hpat : '/' ∉ pat) (hy : ∀ c, y.head? = some c → c = '/')
    (h : pat <+: z ++ y) : pat <+: z := by
  rcases Nat.le_total pat.length z.length with hle | hle
  · exact List.prefix_of_prefix_length_le h (List.prefix_append z y) hle
  · obtain ⟨t, rfl⟩ := List.prefix_of_prefix_length_le (List.prefix_append z y) h hle
    cases t with
    | nil => simp
    | cons c t =>
        have htail : c :: t <+: y := (List.prefix_append_right_inj z).mp h
        obtain ⟨u, rfl⟩ := htail
        have hslash : c = '/' := hy c rfl
        rw [hslash] at hpat
        exact absurd (List.mem_append_right z List.mem_cons_self) hpat

theorem takeWhile_value {v y : Text} (hv : '/' ∉ v) (hy : ∀ c, y.head? = some c → c = '/') :
    (v ++ y).takeWhile (· ≠ '/') = v := by
  have hall : ∀ c ∈ v, decide (c ≠ '/') = true := fun c hc =>
    decide_eq_true fun heq => hv (heq ▸ hc)
  rw [List.takeWhile_append_of_pos hall]
  cases y with
  | nil => simp
  | cons c y =>
      rw [hy c rfl]
      simp

/-- The value behind the next equals sign. -/
theorem fieldValue_text {x v y : Text} (size : Nat) (hx : '=' ∉ x) (hv : '/' ∉ v)
    (hy : ∀ c, y.head? = some c → c = '/') :
    fieldValue size (x ++ '=' :: (v ++ y)) = some (copyField size v) := by
  have hall : ∀ c ∈ x, decide (c ≠ '=') = true := fun c hc =>
    decide_eq_true fun heq => hx (heq ▸ hc)
  have hdrop : (x ++ '=' :: (v ++ y)).dropWhile (· ≠ '=') = '=' :: (v ++ y) := by
    rw [List.dropWhile_append_of_pos hall]
    rfl
  rw [fieldValue, hdrop]
  dsimp only
  rw [takeWhile_value hv hy]

theorem prefix_key {k k' : Text} (hk : '=' ∉ k) (hk' : '=' ∉ k') (r : Text) :
    k ++ ['='] <+: k' ++ '=' :: r ↔ k = k' := by
  constructor
  · rintro ⟨t, ht⟩
    induction k generalizing k' with
    | nil =>
        cases k' with
        | nil => rfl
        | cons c k' => exact absurd (List.cons.inj ht).1 fun heq => hk' (heq ▸ List.mem_cons_self)
    | cons c k ih =>
        cases k' with
        | nil => exact absurd (List.cons.inj ht).1 fun heq => hk (heq ▸ List.mem_cons_self)
        | cons c' k' =>
            obtain ⟨rfl, hrest⟩ := List.cons.inj ht
            rw [ih (fun h => hk (List.mem_cons_of_mem _ h)) (fun h => hk' (List.mem_cons_of_mem _ h))
              hrest]
  · rintro rfl
    exact ⟨r, by simp⟩

/-! ### The attributes that are found -/

/-- Behind its first slash an attribute has none. -/
theorem no_slash_drop {a : Attribute} (ha : a.WellFormed) (pat : Text) {k : Nat}
    (hk : k + 1 < a.text.length) (y : Text) : ¬ '/' :: pat <+: a.text.drop (k + 1) ++ y := by
  intro h
  have hlt : k < (a.key ++ '=' :: a.value).length := Nat.lt_of_succ_lt_succ hk
  have hdrop : a.text.drop (k + 1) = (a.key ++ '=' :: a.value)[k] ::
      (a.key ++ '=' :: a.value).drop (k + 1) := List.drop_eq_getElem_cons hlt
  rw [hdrop, List.cons_append, List.cons_prefix_cons] at h
  have hmem : '/' ∈ a.key ++ '=' :: a.value := h.1 ▸ List.getElem_mem hlt
  rcases List.mem_append.mp hmem with hkey | hvalue
  · exact ha.key.2 hkey
  · rcases List.mem_cons.mp hvalue with heq | hvalue
    · exact absurd heq (by decide)
    · exact ha.value.2 hvalue

/-- The search for a name behind a slash stops at an attribute of that name, and passes over every
other one. -/
theorem strstr_attribute {key : Text} (hkey : '=' ∉ key) {a : Attribute} (ha : a.WellFormed) (y : Text) :
    strstr ('/' :: (key ++ ['='])) (a.text ++ y) =
      if a.key = key then some ([], a.text ++ y)
      else (strstr ('/' :: (key ++ ['='])) y).map fun r => (a.text ++ r.1, r.2) := by
  have htext : a.text ++ y = '/' :: (a.key ++ '=' :: (a.value ++ y)) := by simp [Attribute.text]
  have hhere : '/' :: (key ++ ['=']) <+: a.text ++ y ↔ a.key = key := by
    rw [htext, List.cons_prefix_cons, prefix_key hkey ha.key.1, eq_comm (a := a.key)]
    exact and_iff_right rfl
  by_cases heq : a.key = key
  · rw [if_pos heq]
    exact strstr_here (List.cons_ne_nil _ _) (hhere.mpr heq)
  · rw [if_neg heq]
    apply strstr_skip
    intro k hk
    cases k with
    | zero => exact fun h => heq (hhere.mp h)
    | succ k => exact no_slash_drop ha _ hk y

theorem firstOf_cons (a : Attribute) (attrs : List Attribute) (key : Text) :
    firstOf (a :: attrs) key = if a.key = key then some a.value else firstOf attrs key := by
  unfold firstOf
  rw [List.find?_cons]
  split
  · rename_i h
    rw [if_pos (of_decide_eq_true h), Option.map_some]
  · rename_i h
    rw [if_neg (of_decide_eq_false h)]

/-- The value of an attribute, and what follows it. -/
theorem fieldValue_attribute (size : Nat) {a : Attribute} (ha : a.WellFormed) (attrs : List Attribute) :
    fieldValue size (a.text ++ slashed attrs) = some (copyField size a.value) := by
  have htext : a.text ++ slashed attrs = ('/' :: a.key) ++ '=' :: (a.value ++ slashed attrs) := by
    simp [Attribute.text]
  rw [htext]
  refine fieldValue_text size (fun h => ?_) ha.value.2 (slashed_head attrs)
  rcases List.mem_cons.mp h with heq | hmem
  · exact absurd heq (by decide)
  · exact ha.key.1 hmem

theorem find_attribute {key : Text} (hkey : '=' ∉ key) (size : Nat) {attrs : List Attribute}
    (hwf : ∀ a ∈ attrs, a.WellFormed) :
    ((strstr ('/' :: (key ++ ['='])) (slashed attrs)).map Prod.snd).bind (fieldValue size) =
      (firstOf attrs key).map (copyField size) := by
  induction attrs with
  | nil => simp [slashed, strstr, firstOf]
  | cons a attrs ih =>
      have ha := hwf a List.mem_cons_self
      rw [slashed_cons, strstr_attribute hkey ha, firstOf_cons]
      by_cases heq : a.key = key
      · rw [if_pos heq, if_pos heq, Option.map_some, Option.bind_some, fieldValue_attribute size ha,
          Option.map_some]
      · rw [if_neg heq, if_neg heq, Option.map_map]
        exact ih fun b hb => hwf b (List.mem_cons_of_mem _ hb)

theorem find_no_attribute {key : Text} (hkey : '=' ∉ key) {attrs : List Attribute}
    (hwf : ∀ a ∈ attrs, a.WellFormed) (hnone : firstOf attrs key = none) :
    strstr ('/' :: (key ++ ['='])) (slashed attrs) = none := by
  induction attrs with
  | nil => simp [slashed, strstr]
  | cons a attrs ih =>
      rw [firstOf_cons] at hnone
      split at hnone
      · cases hnone
      · rename_i heq
        rw [slashed_cons, strstr_attribute hkey (hwf a List.mem_cons_self), if_neg heq,
          ih (fun b hb => hwf b (List.mem_cons_of_mem _ hb)) hnone, Option.map_none]

theorem unit_eq : "OU=".toList = "OU".toList ++ ['='] := by decide

/-- Without an attribute of that name the search for `OU=` ends in the first value that contains it. -/
theorem strstr_unit {a : Attribute} (ha : a.WellFormed) (hunit : a.key ≠ "OU".toList) {y : Text}
    (hy : ∀ c, y.head? = some c → c = '/') :
    ((strstr "OU=".toList (a.text ++ y)).map Prod.snd) =
      match strstr "OU=".toList a.value with
      | some r => some (r.2 ++ y)
      | none => (strstr "OU=".toList y).map Prod.snd := by
  have hpat : ("OU=".toList : Text) ≠ [] := by decide
  have hslash : '/' ∉ ("OU=".toList : Text) := by decide
  have htext : a.text ++ y = ('/' :: (a.key ++ ['='])) ++ (a.value ++ y) := by simp [Attribute.text]
  have hskip : strstr "OU=".toList (a.text ++ y) = (strstr "OU=".toList (a.value ++ y)).map fun r =>
      ('/' :: (a.key ++ ['=']) ++ r.1, r.2) := by
    rw [htext]
    apply strstr_skip
    intro k hk h
    cases k with
    | zero =>
        have hhead : 'O' = '/' := (List.cons_prefix_cons.mp h).1
        exact absurd hhead (by decide)
    | succ k =>
        have hle : k ≤ a.key.length := by
          simp only [List.length_cons, List.length_append, List.length_nil] at hk
          omega
        rw [List.drop_succ_cons, List.drop_append_of_le_length hle, unit_eq, List.append_assoc] at h
        have hend : "OU".toList = a.key.drop k :=
          (prefix_key (by decide) (fun hm => ha.key.1 (List.mem_of_mem_drop hm)) _).mp h
        have hkey : a.key = a.key.take k ++ "OU".toList := by rw [hend, List.take_append_drop]
        rw [ha.unit _ hkey, List.nil_append] at hkey
        exact hunit hkey
  rw [hskip, Option.map_map]
  cases hvalue : strstr "OU=".toList a.value with
  | some r =>
      rw [strstr_append hpat hvalue]
      rfl
  | none =>
      rw [strstr_skip fun k _ h => strstr_eq_none hpat hvalue k (prefix_of_no_slash hslash hy h),
        Option.map_map]
      rfl

theorem find_unit (size : Nat) {attrs : List Attribute} (hwf : ∀ a ∈ attrs, a.WellFormed)
    (hnone : firstOf attrs "OU".toList = none) :
    ((strstr "OU=".toList (slashed attrs)).map Prod.snd).bind (fieldValue size) =
      (strayUnit attrs).map (copyField size) := by
  induction attrs with
  | nil => rfl
  | cons a attrs ih =>
      rw [firstOf_cons] at hnone
      split at hnone
      · cases hnone
      · rename_i heq
        have ha := hwf a List.mem_cons_self
        rw [slashed_cons, strstr_unit ha heq (slashed_head attrs), strayUnit]
        cases hvalue : strstr "OU=".toList a.value with
        | none => exact ih (fun b hb => hwf b (List.mem_cons_of_mem _ hb)) hnone
        | some r =>
            obtain ⟨hsplit, t, ht⟩ := strstr_eq_some (by decide) hvalue
            have hrest : r.2 = "OU".toList ++ '=' :: t := by
              rw [← ht, unit_eq, List.append_assoc]
              rfl
            have hplain : '/' ∉ t := by
              intro hmem
              refine ha.value.2 ?_
              rw [hsplit, hrest]
              exact List.mem_append_right _ (List.mem_append_right _ (List.mem_cons_of_mem _ hmem))
            have hdrop : r.2.drop 3 = t := by
              rw [hrest]
              rfl
            dsimp only
            rw [Option.bind_some, Option.map_some, hdrop, hrest, List.append_assoc, List.cons_append]
            exact fieldValue_text size (by decide) hplain (slashed_head attrs)

/-! ### What is read from a subject -/

theorem colonForm_slash (s : Text) : colonForm ('/' :: s) = none := by
  have hbefore : ('/' :: s).takeWhile (· ≠ ':') = '/' :: s.takeWhile (· ≠ ':') := by
    rw [List.takeWhile_cons_of_pos (by decide)]
  unfold colonForm
  dsimp only
  rw [hbefore]
  split
  · exact if_neg fun h => h.2.1 List.mem_cons_self
  · rfl

/-- A pair in front of whose colon no separator stands. -/
theorem colonForm_pair {router group : Text} (hrouter : router ≠ [])
    (hplain : ':' ∉ router ∧ '/' ∉ router ∧ '=' ∉ router) (hgroup : group ≠ []) :
    colonForm (router ++ ':' :: group) = some (router, group) := by
  have hall : ∀ c ∈ router, decide (c ≠ ':') = true := fun c hc =>
    decide_eq_true fun heq => hplain.1 (heq ▸ hc)
  have hbefore : (router ++ ':' :: group).takeWhile (· ≠ ':') = router := by
    rw [List.takeWhile_append_of_pos hall, List.takeWhile_cons_of_neg (by decide), List.append_nil]
  obtain ⟨c, group, rfl⟩ := List.exists_cons_of_ne_nil hgroup
  unfold colonForm
  dsimp only
  rw [hbefore, List.drop_left]
  exact if_pos ⟨hrouter, hplain.2⟩

/-- A value that fits is copied as it stands. -/
theorem copyField_fits {size : Nat} {value : Text} (h : value.length < size) :
    copyField size value = value := List.take_of_length_le (by omega)

theorem identity_of_pair {router group : Text} (hrouter : router ≠ [])
    (hplain : ':' ∉ router ∧ '/' ∉ router ∧ '=' ∉ router) (hgroup : group ≠ [])
    (hr : router.length < routerIdSize) (hg : group.length < groupSize) :
    identityFromCertSubject (router ++ ':' :: group) = ⟨router, group, 0⟩ := by
  unfold identityFromCertSubject
  rw [colonForm_pair hrouter hplain hgroup]
  dsimp only
  rw [copyField_fits hr, Text.copyTo, List.take_of_length_le (by omega)]

theorem find_slashed {key : Text} (hkey : '=' ∉ key) (size : Nat) {attrs : List Attribute}
    (hwf : ∀ a ∈ attrs, a.WellFormed) {value : Text} (h : firstOf attrs key = some value) :
    ∃ r, strstr ('/' :: (key ++ ['='])) (slashed attrs) = some r ∧
      fieldValue size r.2 = some (copyField size value) := by
  have hfind := find_attribute hkey size hwf
  rw [h, Option.map_some] at hfind
  cases hs : strstr ('/' :: (key ++ ['='])) (slashed attrs) with
  | none =>
      rw [hs] at hfind
      cases hfind
  | some r =>
      rw [hs] at hfind
      exact ⟨r, rfl, hfind⟩

theorem slashed_of_first {attrs : List Attribute} {key value : Text}
    (h : firstOf attrs key = some value) : ∃ s, slashed attrs = '/' :: s := by
  cases attrs with
  | nil => cases h
  | cons a attrs => exact ⟨_, slashed_cons a attrs⟩

/-- The group that a subject stands for. -/
def unitOf (attrs : List Attribute) : Text := (firstOf attrs "OU".toList).getD "default".toList

/-- No value says `OU=` where no attribute does, unless the default follows it, or nothing. -/
def UnitStands (attrs : List Attribute) : Prop :=
  (firstOf attrs "OU".toList).isSome ∨
    ∀ x, strayUnit attrs = some x → x = [] ∨ x = "default".toList

theorem firstOf_mem {attrs : List Attribute} {key value : Text} (h : firstOf attrs key = some value) :
    ∃ a ∈ attrs, a.key = key ∧ a.value = value := by
  obtain ⟨a, hfind, hvalue⟩ := Option.map_eq_some_iff.mp h
  exact ⟨a, List.mem_of_find?_eq_some hfind, by simpa using List.find?_some hfind, hvalue⟩

/-- A copy is empty, or the default, only for a text that is. -/
theorem copied_default_iff (x : Text) :
    (if copyField groupSize x = [] then "default".toList else copyField groupSize x) =
      "default".toList ↔ x = [] ∨ x = "default".toList := by
  have hnil : copyField groupSize x = [] ↔ x = [] := by
    rw [copyField, List.take_eq_nil_iff]
    exact or_iff_right (by decide)
  have hdefault : copyField groupSize x = "default".toList ↔ x = "default".toList := by
    constructor
    · intro h
      have hlen : (copyField groupSize x).length = 7 := by rw [h]; decide
      rw [copyField, List.length_take] at hlen
      have hfits : x.length < groupSize := by
        have hsize : groupSize = 64 := rfl
        omega
      rwa [copyField_fits hfits] at h
    · rintro rfl
      decide
  by_cases hx : x = []
  · rw [if_pos (hnil.mpr hx)]
    exact iff_of_true rfl (Or.inl hx)
  · rw [if_neg fun h => hx (hnil.mp h), hdefault]
    exact (or_iff_right hx).symm

/-- The group that is read: the unit, or else what a value says behind `OU=`. -/
theorem group_slashed {attrs : List Attribute} (hwf : ∀ a ∈ attrs, a.WellFormed)
    (hlen : ∀ ou, firstOf attrs "OU".toList = some ou → ou.length < groupSize) :
    (let group := ((findOu (slashed attrs)).bind (fieldValue groupSize)).getD []
      if group = [] then "default".toList else group) = unitOf attrs ↔ UnitStands attrs := by
  have hname : "/OU=".toList = '/' :: ("OU".toList ++ ['=']) := by decide
  have hplain : '=' ∉ ("OU".toList : Text) := by decide
  unfold unitOf UnitStands
  cases hou : firstOf attrs "OU".toList with
  | some ou =>
      obtain ⟨a, ha, -, rfl⟩ := firstOf_mem hou
      have hfound : (findOu (slashed attrs)).bind (fieldValue groupSize) = some a.value := by
        obtain ⟨r, hr, hvalue⟩ := find_slashed hplain groupSize hwf hou
        rw [copyField_fits (hlen _ hou)] at hvalue
        unfold findOu
        rw [hname, hr]
        exact hvalue
      rw [hfound]
      simp [(hwf a ha).value.1]
  | none =>
      have hfound : (findOu (slashed attrs)).bind (fieldValue groupSize) =
          (strayUnit attrs).map (copyField groupSize) := by
        unfold findOu
        rw [hname, find_no_attribute hplain hwf hou]
        exact find_unit groupSize hwf hou
      rw [hfound]
      cases hstray : strayUnit attrs with
      | none => simp
      | some x =>
          dsimp only [Option.map_some, Option.getD_some, Option.getD_none]
          simp only [Option.isSome_none, Bool.false_eq_true, false_or, Option.some.injEq,
            forall_eq']
          exact copied_default_iff x

theorem router_slashed {attrs : List Attribute} (hwf : ∀ a ∈ attrs, a.WellFormed) {cn : Text}
    (hcn : firstOf attrs "CN".toList = some cn) (hlen : cn.length < routerIdSize) :
    (findCn (slashed attrs)).bind (fieldValue routerIdSize) = some cn := by
  have hname : "/CN=".toList = '/' :: ("CN".toList ++ ['=']) := by decide
  have hplain : '=' ∉ ("CN".toList : Text) := by decide
  obtain ⟨r, hr, hvalue⟩ := find_slashed hplain routerIdSize hwf hcn
  rw [copyField_fits hlen] at hvalue
  unfold findCn
  rw [hname, hr]
  exact hvalue

/-- Pairs are read exactly. Of a subject with slashes the common name is the router, and the group
is the organizational unit exactly when no value is taken for one. -/
theorem subject_read_iff (attrs : List Attribute) (cn : Text) (hwf : ∀ a ∈ attrs, a.WellFormed)
    (hcn : firstOf attrs "CN".toList = some cn) (hlen : cn.length < routerIdSize)
    (hou : ∀ ou, firstOf attrs "OU".toList = some ou → ou.length < groupSize) :
    (∀ router group : Text, router ≠ [] → (':' ∉ router ∧ '/' ∉ router ∧ '=' ∉ router) →
      group ≠ [] → router.length < routerIdSize → group.length < groupSize →
      identityFromCertSubject (router ++ ':' :: group) = ⟨router, group, 0⟩) ∧
    (identityFromCertSubject (slashed attrs) = ⟨cn, unitOf attrs, 0⟩ ↔ UnitStands attrs) := by
  refine ⟨fun router group hne hplain hgroup hr hg => identity_of_pair hne hplain hgroup hr hg, ?_⟩
  obtain ⟨a, ha, -, hvalue⟩ := firstOf_mem hcn
  have hne : cn ≠ [] := hvalue ▸ (hwf a ha).value.1
  obtain ⟨s, hs⟩ := slashed_of_first hcn
  have hform : colonForm (slashed attrs) = none := by rw [hs, colonForm_slash]
  rw [← group_slashed hwf hou]
  unfold identityFromCertSubject
  rw [hform]
  dsimp only
  rw [router_slashed hwf hcn hlen, Option.getD_some, if_neg hne, Identity.mk.injEq]
  exact ⟨fun h => h.2.1, fun h => ⟨rfl, h, rfl⟩⟩

/-- A key of two letters ends in OU only as that key. -/
theorem wellFormed_of_short {a : Attribute} (hkey : '=' ∉ a.key ∧ '/' ∉ a.key)
    (hlen : a.key.length ≤ 2) (hvalue : a.value ≠ [] ∧ '/' ∉ a.value) : a.WellFormed := by
  refine ⟨hkey, fun x hx => List.eq_nil_of_length_eq_zero ?_, hvalue⟩
  have hsum : x.length + 2 ≤ 2 := by
    calc x.length + 2
      _ = (x ++ "OU".toList).length := by rw [List.length_append]; rfl
      _ = a.key.length := by rw [hx]
      _ ≤ 2 := hlen
  omega

/-- The common name `router-1` in the unit `east`. -/
def routerAttributes : List Attribute :=
  [⟨"CN".toList, "router-1".toList⟩, ⟨"OU".toList, "east".toList⟩]

theorem routerAttributes_wellFormed : ∀ a ∈ routerAttributes, a.WellFormed := by
  intro a ha
  simp only [routerAttributes, List.mem_cons, List.not_mem_nil, or_false] at ha
  rcases ha with rfl | rfl
  · exact wellFormed_of_short (by decide) (by decide) (by decide)
  · exact wellFormed_of_short (by decide) (by decide) (by decide)

theorem routerAttributes_read :
    identityFromCertSubject (slashed routerAttributes) = ⟨"router-1".toList, "east".toList, 0⟩ := by
  have hou : ∀ ou, firstOf routerAttributes "OU".toList = some ou → ou.length < groupSize := by
    intro ou h
    rw [show firstOf routerAttributes "OU".toList = some "east".toList by decide] at h
    cases h
    decide
  exact (subject_read_iff routerAttributes "router-1".toList routerAttributes_wellFormed (by decide)
    (by decide) hou).2.mpr (Or.inl (by decide))

/-- A router whose organization is named `OU=admin`. -/
def strayAttributes : List Attribute :=
  [⟨"CN".toList, "x".toList⟩, ⟨"O".toList, "OU=admin".toList⟩]

theorem strayAttributes_wellFormed : ∀ a ∈ strayAttributes, a.WellFormed := by
  intro a ha
  simp only [strayAttributes, List.mem_cons, List.not_mem_nil, or_false] at ha
  rcases ha with rfl | rfl
  · exact wellFormed_of_short (by decide) (by decide) (by decide)
  · exact wellFormed_of_short (by decide) (by decide) (by decide)

/-- The organization is no unit, and makes its router an administrator. -/
theorem organization_read_as_unit : ¬ ∀ attrs cn, (∀ a ∈ attrs, Attribute.WellFormed a) →
    firstOf attrs "CN".toList = some cn → cn.length < routerIdSize →
    (∀ ou, firstOf attrs "OU".toList = some ou → ou.length < groupSize) →
    identityFromCertSubject (slashed attrs) = ⟨cn, unitOf attrs, 0⟩ := by
  intro h
  have hread := h strayAttributes "x".toList strayAttributes_wellFormed (by decide) (by decide)
    fun ou hou => absurd hou (by rw [show firstOf strayAttributes "OU".toList = none by decide]; simp)
  have hadmin : (identityFromCertSubject (slashed strayAttributes)).group = "admin".toList := by decide
  rw [hread] at hadmin
  exact absurd hadmin (by decide)

end Certificate
