import PqProxy.Rewrite

/-! The identity that is read from the subject of a peer certificate. OpenSSL hands out attribute
values as byte strings; they go through a bounded copy and then through C strings. -/

namespace Certificate

inductive Nid where
  | commonName
  | organizationalUnitName
  | other (n : Nat)
  deriving DecidableEq

/-- One attribute of a subject. -/
structure NameEntry where
  nid : Nid
  value : Bytes
  deriving DecidableEq

abbrev Subject := List NameEntry

def routerIdSize : Nat := 128
def groupSize : Nat := 64

/-- The C string in an array: its bytes before the first zero. -/
def cString (buf : Bytes) : Bytes := buf.takeWhile (· ≠ 0)

/-- The characters of a byte string. -/
def textOf (b : Bytes) : Text := b.map fun x => Char.ofNat x.toNat

/-- `copy_field`: what stands in the array before the zero that is stored behind it. -/
def copyField {α : Type} (size : Nat) (src : List α) : List α := src.take (size - 1)

/-- The value of the first attribute of a kind. -/
def firstValue (subject : Subject) (nid : Nid) : Option Bytes :=
  (subject.find? fun e => e.nid = nid).map NameEntry.value

/-- `dn_get_nid`. -/
def dnGetNid (subject : Subject) (nid : Nid) (size : Nat) : Option Bytes :=
  match firstValue subject nid with
  | none => none
  | some [] => none
  | some value => some (copyField size value)

/-- `strstr`: what precedes the first occurrence of `pat`, and the text from there on. -/
def strstr (pat : Text) : Text → Option (Text × Text)
  | [] => if pat = [] then some ([], []) else none
  | c :: s =>
      if pat.isPrefixOf (c :: s) then some ([], c :: s)
      else (strstr pat s).map fun (before, rest) => (c :: before, rest)

/-- The value that follows the first `=`, up to the next slash. -/
def fieldValue (size : Nat) (s : Text) : Option Text :=
  match s.dropWhile (· ≠ '=') with
  | [] => none
  | _ :: start => some (copyField size (start.takeWhile (· ≠ '/')))

/-- The form `router_id:group`, with what stands before and behind the first colon. -/
def colonForm (subject : Text) : Option (Text × Text) :=
  let before := subject.takeWhile (· ≠ ':')
  match subject.drop before.length with
  | _ :: c :: group =>
      -- a leading slash is one of the characters that must not precede the colon
      if before ≠ [] ∧ '/' ∉ before ∧ '=' ∉ before then some (before, c :: group) else none
  | _ => none

/-- Where the common name of the oneline form starts. -/
def findCn (subject : Text) : Option Text :=
  match strstr "/CN=".toList subject with
  | some (_, cn) => some cn
  | none =>
      match strstr "CN=".toList subject with
      | some (before, cn) => if before = [] ∨ before.getLast? = some '/' then some cn else none
      | none => none

def findOu (subject : Text) : Option Text :=
  match strstr "/OU=".toList subject with
  | some (_, ou) => some ou
  | none => (strstr "OU=".toList subject).map Prod.snd

/-- `pqproxy_identity_from_cert_subject`. -/
def identityFromCertSubject (subject : Text) : Identity :=
  match colonForm subject with
  | some (router, group) => ⟨copyField routerIdSize router, group.copyTo groupSize, 0⟩
  | none =>
      let routerId := ((findCn subject).bind (fieldValue routerIdSize)).getD []
      let group := ((findOu subject).bind (fieldValue groupSize)).getD []
      ⟨if routerId = [] then subject.copyTo routerIdSize else routerId,
        if group = [] then "default".toList else group, 0⟩

/-- `pqproxy_identity_from_x509`. `oneline` is `X509_NAME_oneline`, which fails when there is no
memory. -/
def identityFromX509 (oneline : Subject → Option Text) (subject : Subject) : Option Identity :=
  let cn := cString ((dnGetNid subject .commonName routerIdSize).getD [])
  let ou := cString ((dnGetNid subject .organizationalUnitName groupSize).getD [])
  if cn = [] then (oneline subject).map identityFromCertSubject
  else
    some ⟨(textOf cn).copyTo routerIdSize,
      if ou = [] then "default".toList else (textOf ou).copyTo groupSize, 0⟩

example : identityFromCertSubject "/CN=router-dev-001/OU=region_east".toList =
    ⟨"router-dev-001".toList, "region_east".toList, 0⟩ := by decide

/-! ### What the identity stands for -/

/-- A value that a field of `size` bytes can hold as a C string. -/
def FitsField (size : Nat) (value : Bytes) : Prop := value.length < size ∧ 0 ∉ value

/-- The group of a certificate: its first organizational unit, or the default one. -/
def groupOf (subject : Subject) : Bytes :=
  (firstValue subject .organizationalUnitName).getD (Text.bytes "default".toList)

/-- The identity is the common name and the group, unshortened, and there is none when these do not
fit. -/
structure LosslessOrRejected (oneline : Subject → Option Text) (subject : Subject) (cn : Bytes) :
    Prop where
  lossless : ∀ id, identityFromX509 oneline subject = some id →
    id.routerId = textOf cn ∧ id.group = textOf (groupOf subject)
  rejected : ¬ (FitsField routerIdSize cn ∧ FitsField groupSize (groupOf subject)) →
    identityFromX509 oneline subject = none

/-- Common name and unit fit their fields, and the unit is not empty. -/
structure Representable (subject : Subject) (cn : Bytes) : Prop where
  cn : FitsField routerIdSize cn
  group : FitsField groupSize (groupOf subject)
  unit : firstValue subject .organizationalUnitName ≠ some []

theorem cString_eq_self_iff (b : Bytes) : cString b = b ↔ 0 ∉ b := by
  induction b with
  | nil => simp [cString]
  | cons x b ih =>
      by_cases hx : x = 0
      · simp [cString, hx]
      · have hcons : cString (x :: b) = x :: cString b := by simp [cString, hx]
        rw [hcons, List.cons.injEq, ih, List.mem_cons, not_or]
        exact and_congr_left fun _ => ⟨fun _ h0 => hx h0.symm, fun _ => rfl⟩

theorem cString_eq_nil_iff (b : Bytes) : cString b = [] ↔ b = [] ∨ b.head? = some 0 := by
  cases b with
  | nil => simp [cString]
  | cons x b => by_cases hx : x = 0 <;> simp [cString, hx]

theorem textOf_injective : Function.Injective textOf := by
  apply List.map_injective_iff.mpr
  intro x y h
  have hchar : ∀ n < 256, (Char.ofNat n).toNat = n := by
    intro n hn
    rw [Char.ofNat, dif_pos (Or.inl (by omega))]
    rfl
  apply UInt8.toNat_inj.mp
  rw [← hchar _ x.toNat_lt, ← hchar _ y.toNat_lt]
  exact congrArg Char.toNat h

/-- A copy has lost nothing exactly when the value fits. -/
theorem copied_eq_iff {size : Nat} (hsize : 0 < size) (value : Bytes) :
    cString (copyField size value) = value ↔ FitsField size value := by
  constructor
  · intro h
    have hlen : value.length ≤ size - 1 := by
      calc value.length
        _ = (cString (copyField size value)).length := by rw [h]
        _ ≤ (copyField size value).length := (List.takeWhile_sublist _).length_le
        _ ≤ size - 1 := List.length_take_le ..
    rw [copyField, List.take_of_length_le hlen, cString_eq_self_iff] at h
    exact ⟨by omega, h⟩
  · rintro ⟨hlen, hzero⟩
    rw [copyField, List.take_of_length_le (by omega)]
    exact (cString_eq_self_iff value).mpr hzero

/-- The second copy, into the field of the identity, loses nothing. -/
theorem copyTo_copied (size : Nat) (value : Bytes) :
    (textOf (cString (copyField size value))).copyTo size =
      textOf (cString (copyField size value)) := by
  apply List.take_of_length_le
  calc (textOf (cString (copyField size value))).length
    _ = (cString (copyField size value)).length := List.length_map ..
    _ ≤ (copyField size value).length := (List.takeWhile_sublist _).length_le
    _ ≤ size - 1 := List.length_take_le ..

/-! ### The identity of a certificate -/

variable {oneline : Subject → Option Text} {subject : Subject} {cn : Bytes}

/-- What `dn_get_nid` leaves in the array for an attribute, absent ones included. -/
theorem dnGetNid_getD (subject : Subject) (nid : Nid) (size : Nat) :
    (dnGetNid subject nid size).getD [] = copyField size ((firstValue subject nid).getD []) := by
  unfold dnGetNid
  split
  · rename_i h
    rw [h]
    exact List.take_nil.symm
  · rename_i h
    rw [h]
    exact List.take_nil.symm
  · rename_i value h
    rw [h]
    rfl

/-- A common name that starts with a zero is taken for an absent one. -/
theorem identity_of_zero (hfirst : firstValue subject .commonName = some cn)
    (hzero : cn.head? = some 0) :
    identityFromX509 oneline subject = (oneline subject).map identityFromCertSubject := by
  have hcn : cString (copyField routerIdSize cn) = [] := by
    rw [cString_eq_nil_iff, copyField, List.head?_take, if_neg (by decide)]
    exact Or.inr hzero
  rw [identityFromX509, dnGetNid_getD, hfirst, Option.getD_some]
  exact if_pos hcn

/-- Every other one is copied, as far as it goes, and so is the unit. -/
theorem identity_of_name (hfirst : firstValue subject .commonName = some cn) (hne : cn ≠ [])
    (hzero : cn.head? ≠ some 0) :
    identityFromX509 oneline subject = some ⟨textOf (cString (copyField routerIdSize cn)),
      let ou := cString (copyField groupSize
        ((firstValue subject .organizationalUnitName).getD []))
      if ou = [] then "default".toList else textOf ou, 0⟩ := by
  have hcn : cString (copyField routerIdSize cn) ≠ [] := by
    rw [Ne, cString_eq_nil_iff, copyField, List.head?_take, if_neg (by decide), not_or]
    refine ⟨?_, hzero⟩
    simp [routerIdSize, hne]
  rw [identityFromX509, dnGetNid_getD, dnGetNid_getD, hfirst, Option.getD_some, copyTo_copied,
    copyTo_copied]
  exact if_neg hcn

theorem default_fits : FitsField groupSize (Text.bytes "default".toList) :=
  ⟨by decide, by decide⟩

theorem textOf_default : textOf (Text.bytes "default".toList) = "default".toList := by decide

/-- The group of an identity is the unit exactly when the unit fits and is not empty. -/
theorem group_eq_iff : (let ou := cString (copyField groupSize
      ((firstValue subject .organizationalUnitName).getD []))
    if ou = [] then "default".toList else textOf ou) = textOf (groupOf subject) ↔
    FitsField groupSize (groupOf subject) ∧
      firstValue subject .organizationalUnitName ≠ some [] := by
  unfold groupOf
  rcases firstValue subject .organizationalUnitName with _ | _ | ⟨x, ou⟩
  · exact ⟨fun _ => ⟨default_fits, nofun⟩, fun _ => textOf_default.symm⟩
  · exact ⟨fun h => absurd h (by decide), fun h => absurd rfl h.2⟩
  · rw [Option.getD_some, ← copied_eq_iff (by decide)]
    by_cases hnil : cString (copyField groupSize (x :: ou)) = []
    · -- the unit starts with a zero, and the default name does not
      have hx : x = 0 := by
        rw [cString_eq_nil_iff] at hnil
        simpa [copyField, groupSize] using hnil
      rw [hx] at hnil ⊢
      rw [Option.getD_some, hnil]
      refine ⟨fun h => ?_, fun h => absurd h.1 (by simp)⟩
      have hhead : some 'd' = some (Char.ofNat 0) := congrArg List.head? h
      exact absurd hhead (by decide)
    · simp only [Option.getD_some, if_neg hnil]
      rw [textOf_injective.eq_iff]
      exact ⟨fun h => ⟨h, by simp⟩, fun h => h.1⟩

/-- Certificates whose identities are lossless share a router only if they have the same name. -/
theorem LosslessOrRejected.routerId_inj (h : LosslessOrRejected oneline subject cn)
    {other : Subject} {cn' : Bytes} (h' : LosslessOrRejected oneline other cn') {id id' : Identity}
    (hid : identityFromX509 oneline subject = some id)
    (hid' : identityFromX509 oneline other = some id') (heq : id.routerId = id'.routerId) :
    cn = cn' := by
  apply textOf_injective
  calc textOf cn
    _ = id.routerId := (h.lossless id hid).1.symm
    _ = id'.routerId := heq
    _ = textOf cn' := (h'.lossless id' hid').1

/-- The identity is lossless, or refused, exactly when the certificate is representable; the rest
is a common name that starts with a zero while there is no memory for the whole subject. Among such
certificates the router determines the common name. -/
theorem losslessOrRejected_iff (hfirst : firstValue subject .commonName = some cn)
    (hne : cn ≠ []) : (LosslessOrRejected oneline subject cn ↔
      Representable subject cn ∨ cn.head? = some 0 ∧ oneline subject = none) ∧
      (LosslessOrRejected oneline subject cn → ∀ other cn' id id',
        firstValue other .commonName = some cn' → LosslessOrRejected oneline other cn' →
        identityFromX509 oneline subject = some id → identityFromX509 oneline other = some id' →
        id.routerId = id'.routerId → cn = cn') := by
  refine ⟨?_, fun h other cn' id id' _ h' hid hid' => h.routerId_inj h' hid hid'⟩
  by_cases hzero : cn.head? = some 0
  · have hfree : ¬ FitsField routerIdSize cn := fun h => h.2 (List.mem_of_mem_head? hzero)
    have hid : identityFromX509 oneline subject = _ := identity_of_zero hfirst hzero
    constructor
    · intro h
      have hnone := h.rejected fun hfits => hfree hfits.1
      rw [hid, Option.map_eq_none_iff] at hnone
      exact Or.inr ⟨hzero, hnone⟩
    · rintro (h | ⟨-, hnone⟩)
      · exact absurd h.cn hfree
      · rw [hnone, Option.map_none] at hid
        exact ⟨fun id h => absurd (hid.symm.trans h) (by simp), fun _ => hid⟩
  · have hid : identityFromX509 oneline subject = _ := identity_of_name hfirst hne hzero
    constructor
    · intro h
      obtain ⟨hrouter, hgroup⟩ := h.lossless _ hid
      have hfits := group_eq_iff.mp hgroup
      exact Or.inl ⟨(copied_eq_iff (by decide) cn).mp (textOf_injective hrouter), hfits.1, hfits.2⟩
    · rintro (h | ⟨h, -⟩)
      · refine ⟨?_, fun hfits => absurd ⟨h.cn, h.group⟩ hfits⟩
        intro id heq
        rw [hid] at heq
        cases heq
        refine ⟨?_, group_eq_iff.mpr ⟨h.group, h.unit⟩⟩
        rw [(copied_eq_iff (by decide) cn).mpr h.cn]
      · exact absurd h hzero

/-- A certificate with one common name and one organizational unit. -/
def plainSubject (cn ou : Bytes) : Subject := [⟨.commonName, cn⟩, ⟨.organizationalUnitName, ou⟩]

/-- `router` in the group `east`. -/
def routerBytes : Bytes := Text.bytes "router".toList
def eastBytes : Bytes := Text.bytes "east".toList

theorem router_lossless :
    LosslessOrRejected (fun _ => none) (plainSubject routerBytes eastBytes) routerBytes :=
  (losslessOrRejected_iff rfl (by decide)).1.mpr
    (Or.inl ⟨⟨by decide, by decide⟩, ⟨by decide, by decide⟩, by decide⟩)

/-- The common name `router\0x` is another one than `router`, and gives the same identity. -/
theorem router_impersonated : ¬ ∀ oneline subject cn,
    firstValue subject .commonName = some cn → cn ≠ [] →
    LosslessOrRejected oneline subject cn := by
  intro h
  have hsame : identityFromX509 (fun _ => none) (plainSubject (routerBytes ++ [0, 120]) eastBytes) =
      some ⟨"router".toList, "east".toList, 0⟩ := by decide
  have hlossless := h (fun _ => none) (plainSubject (routerBytes ++ [0, 120]) eastBytes)
    (routerBytes ++ [0, 120]) (by decide) (by decide)
  exact absurd (hlossless.lossless _ hsame).1 (by decide)

end Certificate
