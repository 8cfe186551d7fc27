import PqProxy.Scram

/-! The texts of the exchange. A name is escaped before it is sent: no comma stays in it, and the
escapes can be undone. `copy_user` writes this form as far as its buffer goes, which is the whole
form unless one prefix of the name fills the buffer exactly. -/

/-- The bytes that a name must not contain. -/
def isControl (c : UInt8) : Bool := c < 0x20 || c == 0x7f

/-- What is written for one byte of a name. -/
def escapeByte (c : UInt8) : Bytes :=
  if c = 61 then ascii "=3D" else if c = 44 then ascii "=2C" else [c]

/-- The form of a name that the exchange carries. -/
def escapeUser (user : Bytes) : Bytes := user.flatMap escapeByte

/-- A text with every `=2C` replaced by a comma and every `=3D` by an equals sign. -/
def unescapeUser : Bytes → Bytes
  | 61 :: 50 :: 67 :: s => 44 :: unescapeUser s
  | 61 :: 51 :: 68 :: s => 61 :: unescapeUser s
  | c :: s => c :: unescapeUser s
  | [] => []

/-- Every equals sign of a text starts one of the two escapes. -/
def OnlyEscapes (s : Bytes) : Prop :=
  ∀ before rest, s = before ++ 61 :: rest → ascii "2C" <+: rest ∨ ascii "3D" <+: rest

theorem escapeByte_of_plain {c : UInt8} (heq : c ≠ 61) (hcomma : c ≠ 44) : escapeByte c = [c] := by
  rw [escapeByte, if_neg heq, if_neg hcomma]

theorem one_le_length_escapeByte (c : UInt8) : 1 ≤ (escapeByte c).length := by
  unfold escapeByte
  split
  · decide
  · split
    · decide
    · simp

@[simp] theorem escapeUser_nil : escapeUser [] = [] := rfl

@[simp] theorem escapeUser_cons (c : UInt8) (user : Bytes) :
    escapeUser (c :: user) = escapeByte c ++ escapeUser user := List.flatMap_cons

theorem unescapeUser_escapeByte (c : UInt8) (rest : Bytes) :
    unescapeUser (escapeByte c ++ rest) = c :: unescapeUser rest := by
  by_cases heq : c = 61
  · subst heq
    simp [escapeByte, Text.bytes, unescapeUser]
  · by_cases hcomma : c = 44
    · subst hcomma
      simp [escapeByte, Text.bytes, unescapeUser]
    · rw [escapeByte_of_plain heq hcomma]
      rw [List.singleton_append, unescapeUser.eq_3]
      · rintro s rfl
        exact absurd rfl heq
      · rintro s rfl
        exact absurd rfl heq

theorem unescapeUser_escapeUser (user : Bytes) : unescapeUser (escapeUser user) = user := by
  induction user with
  | nil => rfl
  | cons c user ih => rw [escapeUser_cons, unescapeUser_escapeByte, ih]

theorem comma_notMem_escapeUser (user : Bytes) : 44 ∉ escapeUser user := by
  intro hmem
  obtain ⟨c, -, hc⟩ := List.mem_flatMap.mp hmem
  unfold escapeByte at hc
  split at hc
  · revert hc
    decide
  · split at hc
    · revert hc
      decide
    · rename_i hcomma
      exact hcomma (List.mem_singleton.mp hc).symm

theorem OnlyEscapes.append {s t : Bytes} (hs : OnlyEscapes s) (ht : OnlyEscapes t) :
    OnlyEscapes (s ++ t) := by
  intro before rest h
  obtain ⟨middle, -, hrest⟩ | ⟨middle, hbefore, hrest⟩ := List.append_eq_append_iff.mp h
  · exact ht middle rest hrest
  · cases middle with
    | nil => exact ht [] rest hrest.symm
    | cons c middle =>
        obtain ⟨rfl, rfl⟩ := List.cons.inj hrest
        have hmiddle := hs before middle hbefore
        exact hmiddle.imp (·.trans (List.prefix_append _ _)) (·.trans (List.prefix_append _ _))

theorem onlyEscapes_escapeByte (c : UInt8) : OnlyEscapes (escapeByte c) := by
  intro before rest h
  unfold escapeByte at h
  split at h
  · obtain - | ⟨b, - | ⟨b', - | ⟨b'', before⟩⟩⟩ := before <;> simp_all [Text.bytes]
  · split at h
    · obtain - | ⟨b, - | ⟨b', - | ⟨b'', before⟩⟩⟩ := before <;> simp_all [Text.bytes]
    · rename_i heq _
      have hmem : (61 : UInt8) ∈ [c] := h ▸ by simp
      exact absurd (List.mem_singleton.mp hmem).symm heq

theorem onlyEscapes_escapeUser (user : Bytes) : OnlyEscapes (escapeUser user) := by
  induction user with
  | nil =>
      intro before rest h
      simp at h
  | cons c user ih => exact (onlyEscapes_escapeByte c).append ih

/-! ### What the loop writes -/

theorem copyUserFrom_cons (dstsz : Nat) (dst user : Bytes) (c : UInt8) :
    copyUserFrom dstsz dst (c :: user) =
      if dstsz ≤ dst.length + 1 then some dst
      else if isControl c then none
      else if dstsz ≤ dst.length + (escapeByte c).length then none
      else copyUserFrom dstsz (dst ++ escapeByte c) user := by
  have hcontrol : (c < 0x20 ∨ c = 0x7f) ↔ isControl c = true := by simp [isControl]
  rw [copyUserFrom]
  simp only [hcontrol]
  by_cases heq : c = 61
  · simp [heq, escapeByte, Text.bytes]
  · by_cases hcomma : c = 44
    · simp [hcomma, escapeByte, Text.bytes]
    · rw [if_neg heq, if_neg hcomma, escapeByte_of_plain heq hcomma, List.length_singleton]
      split
      · rfl
      · rfl

/-- The loop stops at the end of the name, or where one byte is left in the buffer. -/
theorem copyUserFrom_eq_some_iff {dstsz : Nat} {dst user name : Bytes} (hdst : dst.length < dstsz) :
    copyUserFrom dstsz dst user = some name ↔
      ∃ taken rest, user = taken ++ rest ∧ (∀ c ∈ taken, isControl c = false) ∧
        name = dst ++ escapeUser taken ∧ name.length < dstsz ∧
          (rest = [] ∨ name.length + 1 = dstsz) := by
  induction user generalizing dst with
  | nil =>
      rw [copyUserFrom]
      constructor
      · intro h
        obtain rfl := Option.some.inj h
        exact ⟨[], [], rfl, by simp, by simp, hdst, .inl rfl⟩
      · rintro ⟨taken, rest, huser, -, rfl, -, -⟩
        obtain ⟨rfl, -⟩ := List.append_eq_nil_iff.mp huser.symm
        simp
  | cons c user ih =>
      rw [copyUserFrom_cons]
      constructor
      · intro h
        split at h
        · obtain rfl := Option.some.inj h
          exact ⟨[], c :: user, rfl, by simp, by simp, hdst, .inr (by omega)⟩
        · split at h
          · cases h
          · rename_i hcontrol
            split at h
            · cases h
            · obtain ⟨taken, rest, rfl, htaken, rfl, hlen, hend⟩ :=
                (ih (by rw [List.length_append]; omega)).mp h
              refine ⟨c :: taken, rest, rfl, ?_, by simp, hlen, hend⟩
              rintro d (- | ⟨_, hd⟩)
              · simpa using hcontrol
              · exact htaken d hd
      · rintro ⟨taken, rest, huser, htaken, rfl, hlen, hend⟩
        have hwritten : (dst ++ escapeUser taken).length = dst.length + (escapeUser taken).length :=
          List.length_append
        cases taken with
        | nil =>
            have hrest : rest ≠ [] := by
              rintro rfl
              cases huser
            have hfull := hend.resolve_left hrest
            rw [escapeUser_nil, List.append_nil] at hfull ⊢
            rw [if_pos (Nat.le_of_eq hfull.symm)]
        | cons d taken =>
            obtain ⟨rfl, rfl⟩ := List.cons.inj huser
            have hbyte := one_le_length_escapeByte c
            have hsplit : (escapeUser (c :: taken)).length =
                (escapeByte c).length + (escapeUser taken).length := by
              rw [escapeUser_cons, List.length_append]
            by_cases hroom : dstsz ≤ dst.length + 1
            · omega
            · rw [if_neg hroom, if_neg (by simp [htaken c List.mem_cons_self]), if_neg (by omega)]
              refine (ih (by rw [List.length_append]; omega)).mpr
                ⟨taken, rest, rfl, fun e he => htaken e (List.mem_cons_of_mem _ he), by simp,
                  hlen, hend⟩

/-! ### Names that fill the buffer -/

/-- A proper prefix of the name fills the buffer with its escaped form. -/
def FillsEarly (dstsz : Nat) (user : Bytes) : Prop :=
  ∃ taken rest, user = taken ++ rest ∧ rest ≠ [] ∧ (∀ c ∈ taken, isControl c = false) ∧
    (escapeUser taken).length + 1 = dstsz

/-- What is written is the whole name in escaped form, and only a name without such a form that
fits is refused. -/
structure ExactUser (dstsz : Nat) (user : Bytes) : Prop where
  no_comma : ∀ name, copyUser dstsz user = some name → 44 ∉ name
  escapes : ∀ name, copyUser dstsz user = some name → OnlyEscapes name
  inverse : ∀ name, copyUser dstsz user = some name → unescapeUser name = user
  refused : copyUser dstsz user = none ↔
    user = [] ∨ (∃ c ∈ user, isControl c = true) ∨ dstsz ≤ (escapeUser user).length

theorem copyUser_eq_some_iff {dstsz : Nat} {user name : Bytes} :
    copyUser dstsz user = some name ↔ user ≠ [] ∧
      ∃ taken rest, user = taken ++ rest ∧ (∀ c ∈ taken, isControl c = false) ∧
        name = escapeUser taken ∧ name.length < dstsz ∧ (rest = [] ∨ name.length + 1 = dstsz) := by
  unfold copyUser
  by_cases hempty : user = [] ∨ dstsz = 0
  · rw [if_pos hempty]
    constructor
    · intro h
      cases h
    · rintro ⟨hne, taken, rest, -, -, -, hlen, -⟩
      have := hempty.resolve_left hne
      omega
  · rw [if_neg hempty]
    obtain ⟨hne, hsize⟩ := not_or.mp hempty
    rw [copyUserFrom_eq_some_iff (by rw [List.length_nil]; omega)]
    simp only [List.nil_append]
    exact ⟨fun h => ⟨hne, h⟩, fun h => h.2⟩

theorem copyUser_whole {dstsz : Nat} {user name : Bytes} (hearly : ¬ FillsEarly dstsz user)
    (h : copyUser dstsz user = some name) :
    name = escapeUser user ∧ name.length < dstsz ∧ ∀ c ∈ user, isControl c = false := by
  obtain ⟨-, taken, rest, rfl, htaken, rfl, hlen, hend⟩ := copyUser_eq_some_iff.mp h
  have hrest : rest = [] := by
    by_contra hne
    exact hearly ⟨taken, rest, rfl, hne, htaken, hend.resolve_left hne⟩
  rw [hrest, List.append_nil]
  exact ⟨rfl, hlen, htaken⟩

theorem exactUser_of_not_fillsEarly {dstsz : Nat} {user : Bytes} (hearly : ¬ FillsEarly dstsz user) :
    ExactUser dstsz user where
  no_comma name h := (copyUser_whole hearly h).1 ▸ comma_notMem_escapeUser user
  escapes name h := (copyUser_whole hearly h).1 ▸ onlyEscapes_escapeUser user
  inverse name h := (copyUser_whole hearly h).1 ▸ unescapeUser_escapeUser user
  refused := by
    constructor
    · intro hnone
      by_contra hfits
      obtain ⟨hne, hcontrol, hlen⟩ := by simpa only [not_or] using hfits
      have hplain : ∀ c ∈ user, isControl c = false := by simpa using hcontrol
      have hsome : copyUser dstsz user = some (escapeUser user) :=
        copyUser_eq_some_iff.mpr ⟨hne, user, [], (List.append_nil user).symm, hplain, rfl,
          Nat.lt_of_not_le hlen, .inl rfl⟩
      rw [hnone] at hsome
      cases hsome
    · intro hbad
      cases hcopy : copyUser dstsz user with
      | none => rfl
      | some name =>
          obtain ⟨rfl, hlen, hplain⟩ := copyUser_whole hearly hcopy
          obtain rfl | ⟨c, hc, hcontrol⟩ | hlong := hbad
          · exact absurd rfl (copyUser_eq_some_iff.mp hcopy).1
          · rw [hplain c hc] at hcontrol
            cases hcontrol
          · omega

theorem not_exactUser_of_fillsEarly {dstsz : Nat} {user : Bytes} (hearly : FillsEarly dstsz user) :
    ¬ ExactUser dstsz user := by
  obtain ⟨taken, rest, rfl, hrest, htaken, hlen⟩ := hearly
  intro hexact
  have hcopy : copyUser dstsz (taken ++ rest) = some (escapeUser taken) :=
    copyUser_eq_some_iff.mpr ⟨by simp [hrest], taken, rest, rfl, htaken, rfl, by omega, .inr hlen⟩
  have hback := hexact.inverse _ hcopy
  rw [unescapeUser_escapeUser] at hback
  exact hrest (List.self_eq_append_right.mp hback)

/-- The name in a client-first message, as its receiver reads it. -/
def namedUser (clientFirst : Bytes) : Bytes :=
  unescapeUser ((clientFirst.drop (ascii "n,,n=").length).takeWhile (· ≠ 44))

theorem takeWhile_comma {s rest : Bytes} (h : 44 ∉ s) :
    (s ++ 44 :: rest).takeWhile (· ≠ 44) = s := by
  rw [List.takeWhile_append_of_pos, List.takeWhile_cons_of_neg (by simp), List.append_nil]
  intro c hc
  simpa using ne_of_mem_of_not_mem hc h

theorem namedUser_clientFirst {random : Option Bytes} {user gs2 : Bytes} {gs2Cap bareCap : Nat}
    {s s' : Scram} (hearly : ¬ FillsEarly 128 user) (hinit : scramInit random user = some s)
    (h : scramClientFirst s gs2Cap bareCap = some (s', gs2)) : namedUser gs2 = user := by
  obtain ⟨name, hname, rfl⟩ := Option.map_eq_some_iff.mp hinit
  obtain ⟨rfl, -, -⟩ := copyUser_whole hearly hname
  simp only [scramClientFirst, Option.bind_eq_bind, Option.bind_eq_some_iff, Option.pure_def,
    Option.some.injEq, Prod.mk.injEq] at h
  obtain ⟨bare, hbare, gs2', hgs2, -, rfl⟩ := h
  obtain ⟨rfl, -⟩ := fitting_eq hbare
  obtain ⟨rfl, -⟩ := fitting_eq hgs2
  have hmessage : ascii "n,," ++ (ascii "n=" ++ escapeUser user ++ ascii ",r=" ++ nonceHex random 24) =
      ascii "n,,n=" ++ (escapeUser user ++ 44 :: (ascii "r=" ++ nonceHex random 24)) := by
    simp [Text.bytes]
  rw [namedUser, hmessage, List.drop_left, takeWhile_comma (comma_notMem_escapeUser user),
    unescapeUser_escapeUser]

/-- The name in the buffer is exact unless a proper prefix fills the buffer. Where it is exact,
different users have different names, and the server reads the configured one. -/
theorem exactUser_iff (dstsz : Nat) (user : Bytes) :
    (ExactUser dstsz user ↔ ¬ FillsEarly dstsz user) ∧
      (¬ FillsEarly dstsz user → ∀ v name, ¬ FillsEarly dstsz v → copyUser dstsz user = some name →
        copyUser dstsz v = some name → user = v) ∧
      (¬ FillsEarly 128 user → ∀ random gs2Cap bareCap s s' gs2, scramInit random user = some s →
        scramClientFirst s gs2Cap bareCap = some (s', gs2) → namedUser gs2 = user) := by
  refine ⟨?_, ?_, ?_⟩
  · constructor
    · intro hexact hearly
      exact not_exactUser_of_fillsEarly hearly hexact
    · exact exactUser_of_not_fillsEarly
  · intro hu v name hv hcopyu hcopyv
    calc
      user = unescapeUser name := ((exactUser_of_not_fillsEarly hu).inverse name hcopyu).symm
      _ = v := (exactUser_of_not_fillsEarly hv).inverse name hcopyv
  · intro hearly random gs2Cap bareCap s s' gs2 hinit hfirst
    exact namedUser_clientFirst hearly hinit hfirst

/-- A name of 128 letters is cut to 127 and accepted: it and the shorter one are the same to the
server. -/
theorem not_exactUser :
    ¬ ExactUser 128 (List.replicate 128 97) ∧
      copyUser 128 (List.replicate 128 97) = copyUser 128 (List.replicate 127 97) ∧
      (copyUser 128 (List.replicate 128 97)).isSome = true := by
  refine ⟨?_, by decide +kernel, by decide +kernel⟩
  intro hexact
  have hcopy : copyUser 128 (List.replicate 128 97) = some (List.replicate 127 97) := by
    decide +kernel
  have hback := congrArg List.length (hexact.inverse _ hcopy)
  revert hback
  decide +kernel
