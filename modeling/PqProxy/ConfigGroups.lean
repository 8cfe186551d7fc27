import PqProxy.ConfigYaml

/-! The groups of the configuration. A sequence of names is joined to one text, and the pool takes
such a text apart again. -/

namespace ConfigYaml

def isPad (c : Char) : Bool := c == ' ' || c == '\t'

/-- Blanks and tabs at both ends are no part of a name. -/
def trimmed (t : Text) : Text := ((t.dropWhile isPad).reverse.dropWhile isPad).reverse

/-- The names in a list with commas that can be used. -/
def usableNames (csv : Text) : List Text :=
  ((csv.splitOn ',').map trimmed).filter fun t => t ≠ [] ∧ t.length < maxGroupName

/-- The first item of a list, and those behind its comma. -/
theorem usableNames_eq (p : Text) : usableNames p =
    (if trimmed (p.takeWhile (· != ',')) ≠ [] ∧
        (trimmed (p.takeWhile (· != ','))).length < maxGroupName
      then [trimmed (p.takeWhile (· != ','))] else []) ++
      usableNames ((p.dropWhile (· != ',')).drop 1) := by
  have hfree : ',' ∉ p.takeWhile (· != ',') := fun h => by
    have hne := List.mem_takeWhile_imp h
    simp at hne
  have hsplit : p.takeWhile (· != ',') ++ p.dropWhile (· != ',') = p := List.takeWhile_append_dropWhile
  unfold usableNames
  cases hrest : p.dropWhile (· != ',') with
  | nil =>
      rw [hrest, List.append_nil] at hsplit
      rw [hsplit] at hfree ⊢
      rw [List.splitOn_eq_singleton hfree]
      simp [trimmed, List.filter_cons]
  | cons c rest =>
      have hcomma : c = ',' := by
        have hhead := List.head?_dropWhile_not (· != ',') p
        rw [hrest] at hhead
        simpa using hhead
      subst hcomma
      rw [hrest] at hsplit
      conv_lhs => rw [← hsplit]
      rw [List.splitOn_append_cons_self_of_not_mem hfree, List.map_cons, List.filter_cons]
      split <;> rename_i h <;> simp_all

theorem usableNames_nil : usableNames [] = [] := by simp [usableNames, trimmed]

theorem parseGroupsFrom_eq {fuel : Nat} {p : Text} (hfuel : p.length < fuel) {n : Nat}
    (hn : n ≤ maxBackendGroups) :
    parseGroupsFrom fuel p n = (usableNames p).take (maxBackendGroups - n) := by
  induction fuel generalizing p n with
  | zero => omega
  | succ fuel ih =>
      rw [parseGroupsFrom]
      by_cases hp : p = []
      · subst hp
        rw [if_pos (Or.inl rfl), usableNames_nil, List.take_nil]
      by_cases hfull : maxBackendGroups ≤ n
      · rw [if_pos (Or.inr hfull), Nat.sub_eq_zero_of_le hfull, List.take_zero]
      rw [if_neg fun h => h.elim hp hfull]
      dsimp only
      have hshort : ((p.dropWhile (· != ',')).drop 1).length < fuel := by
        have hle : (p.dropWhile (· != ',')).length ≤ p.length := (List.dropWhile_sublist _).length_le
        have hpos : 0 < p.length := List.length_pos_of_ne_nil hp
        rw [List.length_drop]
        omega
      rw [usableNames_eq p]
      change (if trimmed (p.takeWhile (· != ',')) ≠ [] ∧
        (trimmed (p.takeWhile (· != ','))).length < maxGroupName then _ else _) = _
      split
      · rw [ih hshort (by omega), List.singleton_append,
          show maxBackendGroups - n = (maxBackendGroups - (n + 1)) + 1 by omega, List.take_succ_cons]
        rfl
      · rw [ih hshort hn, List.nil_append]

/-- The pool takes the first usable names of a list. -/
theorem parseGroups_eq (csv : Text) : parseGroups csv = (usableNames csv).take maxBackendGroups :=
  parseGroupsFrom_eq (Nat.lt_succ_self _) (Nat.zero_le _)

/-! ### Joining a sequence -/

/-- A name that survives: it fits its field, and a list does not break it. -/
structure GroupName (name : Text) : Prop where
  nonempty : name ≠ []
  short : name.length < maxGroupName
  comma : ',' ∉ name
  first : ∀ c ∈ name.head?, isPad c = false
  last : ∀ c ∈ name.getLast?, isPad c = false

theorem GroupName.trimmed_eq {name : Text} (h : GroupName name) : trimmed name = name := by
  have hfront : ∀ t : Text, (∀ c ∈ t.head?, isPad c = false) → t.dropWhile isPad = t := by
    intro t ht
    cases t with
    | nil => rfl
    | cons c t => exact List.dropWhile_cons_of_neg (by rw [ht c rfl]; exact Bool.false_ne_true)
  rw [trimmed, hfront name h.first, hfront, List.reverse_reverse]
  rw [List.head?_reverse]
  exact h.last

/-- The text for a sequence of names. -/
def joined (names : List Text) : Text := [','].intercalate names

/-- Names that are joined are the names that are found. -/
theorem usableNames_joined {names : List Text} (h : ∀ name ∈ names, GroupName name) :
    usableNames (joined names) = names := by
  by_cases hne : names = []
  · rw [hne]
    exact usableNames_nil
  have htrim : names.map trimmed = names := by
    calc names.map trimmed
      _ = names.map id := List.map_congr_left fun name hname => (h name hname).trimmed_eq
      _ = names := List.map_id names
  rw [usableNames, joined, List.splitOn_intercalate ',' (fun name hname => (h name hname).comma) hne,
    htrim, List.filter_eq_self]
  intro name hname
  simpa using ⟨(h name hname).nonempty, (h name hname).short⟩

/-- What is joined to the first name is as well joined to the first two. -/
theorem joined_merge (a b : Text) (names : List Text) :
    joined (a :: b :: names) = joined ((a ++ [','] ++ b) :: names) := by
  unfold joined
  cases names with
  | nil => simp [List.intercalate_cons_cons]
  | cons c names => simp [List.intercalate_cons_cons, List.append_assoc]

theorem length_le_joined (a : Text) (names : List Text) : a.length ≤ (joined (a :: names)).length := by
  unfold joined
  cases names with
  | nil => simp
  | cons b names => simp [List.intercalate_cons_cons]

/-- An item behind others: a comma, and the item. -/
theorem joinGroupsFrom_step {buf val : Text} (hbuf : buf ≠ []) (hval : val ≠ [])
    (items : List (Option Text)) :
    joinGroupsFrom buf (some val :: items) =
      if joinCap ≤ buf.length + 1 + val.length then none
      else joinGroupsFrom (buf ++ [','] ++ val) items := by
  have hpos : 0 < val.length := List.length_pos_of_ne_nil hval
  rw [joinGroupsFrom]
  · dsimp only
    by_cases hcomma : joinCap ≤ buf.length + 1
    · rw [if_pos ⟨hbuf, hcomma⟩, if_pos (by omega)]
    · rw [if_neg fun h => hcomma h.2, if_pos hbuf, List.length_append, List.length_singleton]
  · exact hval

theorem joinGroupsFrom_names {names : List Text} (h : ∀ name ∈ names, name ≠ []) {buf : Text}
    (hbuf : buf ≠ []) (hfits : buf.length < joinCap) :
    joinGroupsFrom buf (names.map some) =
      if (joined (buf :: names)).length < joinCap then some (joined (buf :: names)) else none := by
  induction names generalizing buf with
  | nil => simp [joinGroupsFrom, joined, hfits]
  | cons name names ih =>
      have hlen : (buf ++ [','] ++ name).length = buf.length + 1 + name.length := by
        rw [List.length_append, List.length_append, List.length_singleton]
      have hle := length_le_joined (buf ++ [','] ++ name) names
      rw [joined_merge, List.map_cons, joinGroupsFrom_step hbuf (h name List.mem_cons_self)]
      by_cases hfull : joinCap ≤ buf.length + 1 + name.length
      · rw [if_pos hfull, if_neg (by omega)]
      · rw [if_neg hfull]
        exact ih (fun b hb => h b (List.mem_cons_of_mem _ hb)) (by simp) (by omega)

/-- The whole sequence is written, or does not fit. -/
theorem joinGroupsFrom_all {names : List Text} (h : ∀ name ∈ names, name ≠ []) :
    joinGroupsFrom [] (names.map some) =
      if (joined names).length < joinCap then some (joined names) else none := by
  cases names with
  | nil => rfl
  | cons name names =>
      have hname := h name List.mem_cons_self
      have hle := length_le_joined name names
      rw [List.map_cons, joinGroupsFrom]
      · dsimp only
        rw [if_neg (fun h => h.1 rfl), if_neg (show ¬ ([] : Text) ≠ [] from fun h => h rfl),
          List.length_nil, Nat.zero_add, List.nil_append]
        by_cases hfull : joinCap ≤ name.length
        · rw [if_pos hfull, if_neg (by omega)]
        · rw [if_neg hfull]
          exact joinGroupsFrom_names (fun b hb => h b (List.mem_cons_of_mem _ hb)) hname (by omega)
      · exact hname

/-! ### The round trip -/

/-- What the pool makes of the groups of a configuration. -/
def Bundle.groups (b : Bundle) : List Text := parseGroups (b.cfg.backendGroups.getD [])

/-- A sequence that is accepted leads to its own names. -/
def RoundTrips (oom : Bool) (b : Bundle) (names : List Text) : Prop :=
  ∀ b', joinGroupsSequence oom b (names.map some) = some b' → b'.groups = names

theorem joined_eq_nil_iff {names : List Text} (h : ∀ name ∈ names, GroupName name) :
    joined names = [] ↔ names = [] := by
  constructor
  · intro hnil
    rw [← usableNames_joined h, hnil, usableNames_nil]
  · rintro rfl
    rfl

/-- A sequence is refused when its text is too long or cannot be copied. -/
theorem joinGroupsSequence_eq (oom : Bool) (b : Bundle) {names : List Text}
    (h : ∀ name ∈ names, GroupName name) :
    joinGroupsSequence oom b (names.map some) =
      if names = [] then some b
      else if joinCap ≤ (joined names).length ∨ cfgOwnedMax ≤ b.owned.length ∨ oom = true then none
      else some ⟨{ b.cfg with backendGroups := some (cText (joined names)) },
        b.owned ++ [cText (joined names)]⟩ := by
  unfold joinGroupsSequence
  by_cases hnil : names = []
  · rw [if_pos hnil, hnil]
    rfl
  have hmap : names.map some ≠ [] := fun hmap => hnil (List.map_eq_nil_iff.mp hmap)
  rw [if_neg hnil, if_neg hmap, joinGroupsFrom_all fun name hname => (h name hname).nonempty]
  by_cases hfull : joinCap ≤ (joined names).length
  · rw [if_neg (Nat.not_lt.mpr hfull), if_pos (Or.inl hfull)]
  rw [if_pos (Nat.lt_of_not_le hfull)]
  have htext : joined names ≠ [] := fun htext => hnil ((joined_eq_nil_iff h).mp htext)
  generalize joined names = text at hfull htext ⊢
  obtain ⟨c, cs, rfl⟩ := List.exists_cons_of_ne_nil htext
  dsimp only
  unfold bundleStrdup
  by_cases hroom : cfgOwnedMax ≤ b.owned.length ∨ oom = true
  · rw [if_pos hroom, if_pos (Or.inr hroom), Option.map_none]
  · rw [if_neg hroom, if_neg fun hbad => hbad.elim hfull hroom, Option.map_some]

theorem mem_joined {names : List Text} {c : Char} :
    c ∈ joined names ↔ (∃ name ∈ names, c ∈ name) ∨ (c = ',' ∧ 2 ≤ names.length) := by
  unfold joined
  induction names with
  | nil => simp
  | cons name names ih =>
      cases names with
      | nil => simp
      | cons second names =>
          rw [List.intercalate_cons_cons, List.mem_append, List.mem_append, ih]
          simp only [List.mem_cons, List.not_mem_nil, or_false, List.length_cons, exists_eq_or_imp]
          constructor
          · rintro ((h | rfl) | h | ⟨rfl, -⟩)
            · exact Or.inl (Or.inl h)
            · exact Or.inr ⟨rfl, by omega⟩
            · exact Or.inl (Or.inr h)
            · exact Or.inr ⟨rfl, by omega⟩
          · rintro ((h | h) | ⟨rfl, -⟩)
            · exact Or.inl (Or.inl h)
            · exact Or.inr (Or.inl h)
            · exact Or.inl (Or.inr rfl)

/-- Every character of a name that is found stands in the list. -/
theorem mem_of_mem_usableNames {csv name : Text} (h : name ∈ usableNames csv) :
    ∀ c ∈ name, c ∈ csv := by
  intro c hc
  obtain ⟨item, hitem, rfl⟩ := List.mem_map.mp (List.mem_of_mem_filter h)
  have hin : c ∈ item := by
    have hback := (List.dropWhile_sublist _).subset (List.mem_reverse.mp hc)
    exact (List.dropWhile_sublist _).subset (List.mem_reverse.mp hback)
  have hcsv : joined (csv.splitOn ',') = csv := List.intercalate_splitOn ','
  rw [← hcsv]
  exact mem_joined.mpr (Or.inl ⟨item, hitem, hin⟩)

/-- A text without a zero is a C string as a whole. -/
theorem cText_joined {names : List Text} (h : ∀ name ∈ names, '\x00' ∉ name) :
    cText (joined names) = joined names := by
  apply List.takeWhile_eq_self_iff.mpr
  intro c hc
  rw [decide_eq_true_iff]
  rintro rfl
  rcases mem_joined.mp hc with ⟨name, hname, hmem⟩ | ⟨hcomma, -⟩
  · exact h name hname hmem
  · exact absurd hcomma (by decide)

/-- A sequence of names that is accepted comes back as it was exactly when no name has a zero in it,
it is refused exactly when its text is too long or cannot be copied, and of any text the pool takes
the first usable names. -/
theorem groups_roundtrip_iff (oom : Bool) (b : Bundle) (names : List Text)
    (hunset : b.cfg.backendGroups = none) (hmax : names.length ≤ maxBackendGroups)
    (hnames : ∀ name ∈ names, GroupName name) :
    (RoundTrips oom b names ↔ joinGroupsSequence oom b (names.map some) = none ∨
      ∀ name ∈ names, '\x00' ∉ name) ∧
    (joinGroupsSequence oom b (names.map some) = none ↔ names ≠ [] ∧
      (joinCap ≤ (joined names).length ∨ cfgOwnedMax ≤ b.owned.length ∨ oom = true)) ∧
    ∀ csv, parseGroups csv = (usableNames csv).take maxBackendGroups := by
  unfold RoundTrips
  rw [joinGroupsSequence_eq oom b hnames]
  by_cases hnil : names = []
  · subst hnil
    have hgroups : b.groups = [] := by
      unfold Bundle.groups
      rw [hunset]
      rfl
    simp [hgroups, parseGroups_eq]
  rw [if_neg hnil]
  by_cases hbad : joinCap ≤ (joined names).length ∨ cfgOwnedMax ≤ b.owned.length ∨ oom = true
  · simp [hbad, hnil, parseGroups_eq]
  rw [if_neg hbad]
  refine ⟨?_, by simp [hbad], parseGroups_eq⟩
  have hgroups : ∀ text, (Bundle.mk { b.cfg with backendGroups := some text }
      (b.owned ++ [text])).groups = (usableNames text).take maxBackendGroups := parseGroups_eq
  constructor
  · intro h
    refine Or.inr fun name hname hzero => ?_
    have hback := h _ rfl
    rw [hgroups] at hback
    rw [← hback] at hname
    have hin := mem_of_mem_usableNames (List.mem_of_mem_take hname) _ hzero
    have hne := List.mem_takeWhile_imp hin
    simp at hne
  · rintro (h | h) b' hb'
    · cases h
    · cases hb'
      rw [hgroups, cText_joined h, usableNames_joined hnames, List.take_of_length_le hmax]

theorem groupName_of_one {c : Char} (hpad : isPad c = false) (hcomma : c ≠ ',') : GroupName [c] where
  nonempty := List.cons_ne_nil _ _
  short := (by decide : 1 < maxGroupName)
  comma := by simpa using hcomma.symm
  first := by simpa using hpad
  last := by simpa using hpad

theorem twoNames_groupNames : ∀ name ∈ [['a'], ['b']], GroupName name := by
  intro name hname
  simp only [List.mem_cons, List.not_mem_nil, or_false] at hname
  rcases hname with rfl | rfl
  · exact groupName_of_one (by decide) (by decide)
  · exact groupName_of_one (by decide) (by decide)

theorem groups_roundtrip_two : RoundTrips false bundleInit [['a'], ['b']] :=
  (groups_roundtrip_iff false bundleInit [['a'], ['b']] rfl (by decide) twoNames_groupNames).1.mpr
    (Or.inr (by decide))

/-- A name with a zero in it is cut short there. -/
theorem name_cut_at_zero : ¬ ∀ (oom : Bool) (b : Bundle) (names : List Text),
    b.cfg.backendGroups = none → names.length ≤ maxBackendGroups →
    (∀ name ∈ names, GroupName name) → RoundTrips oom b names := by
  intro h
  have hname : GroupName ['a', '\x00', 'b'] := by
    refine ⟨by decide, by decide, by decide, ?_, ?_⟩
    · rintro c ⟨⟩
      decide
    · rintro c ⟨⟩
      decide
  have hback := h false bundleInit [['a', '\x00', 'b']] rfl (by decide)
    (fun name hmem => List.mem_singleton.mp hmem ▸ hname) _ rfl
  exact absurd hback (by decide)

end ConfigYaml
