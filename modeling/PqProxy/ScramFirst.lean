import Mathlib
import PqProxy.Authenticate
import PqProxy.Base64

/-! What is read of a server-first message. Its attributes are found by a search through the whole
message, so a nonce can hide the attributes behind it, and the values are cut to the size of the
fields. -/

theorem behindFirst_pair (p q c : UInt8) (s : Bytes) :
    behindFirst [p, q] (c :: s) =
      if c = p ∧ s.head? = some q then some s.tail else behindFirst [p, q] s := by
  rw [behindFirst]
  cases s with
  | nil => simp
  | cons d s =>
      have hstarts : [p, q].isPrefixOf (c :: d :: s) = true ↔ c = p ∧ d = q := by
        simp only [List.isPrefixOf, Bool.and_true, Bool.and_eq_true, beq_iff_eq]
        exact and_congr eq_comm eq_comm
      have hhead : (d :: s).head? = some q ↔ d = q := Option.some_inj
      simp only [hhead, List.tail_cons]
      by_cases hfound : c = p ∧ d = q
      · rw [if_pos hfound, if_pos (hstarts.mpr hfound)]
        rfl
      · rw [if_neg hfound, if_neg (hstarts.not.mpr hfound)]

theorem behindFirst_ne {p c : UInt8} (q : UInt8) (s : Bytes) (h : c ≠ p) :
    behindFirst [p, q] (c :: s) = behindFirst [p, q] s := by
  rw [behindFirst_pair, if_neg]
  exact fun hfound => h hfound.1

theorem behindFirst_append {p q : UInt8} {s t : Bytes} (rest : Bytes)
    (h : behindFirst [p, q] s = some t) : behindFirst [p, q] (s ++ rest) = some (t ++ rest) := by
  induction s with
  | nil => cases h
  | cons c s ih =>
      cases s with
      | nil =>
          rw [behindFirst_pair, if_neg (by simp)] at h
          cases h
      | cons d s =>
          rw [List.cons_append, behindFirst_pair]
          rw [behindFirst_pair] at h
          have hhead : (d :: s ++ rest).head? = (d :: s).head? := rfl
          rw [hhead]
          by_cases hfound : c = p ∧ (d :: s).head? = some q
          · rw [if_pos hfound] at h
            rw [if_pos hfound]
            obtain rfl := Option.some.inj h
            rfl
          · rw [if_neg hfound] at h
            rw [if_neg hfound]
            exact ih h

theorem behindFirst_skip {p q : UInt8} {s rest : Bytes} (h : behindFirst [p, q] s = none)
    (hrest : rest.head? ≠ some q) : behindFirst [p, q] (s ++ rest) = behindFirst [p, q] rest := by
  induction s with
  | nil => rfl
  | cons c s ih =>
      rw [behindFirst_pair] at h
      rw [List.cons_append, behindFirst_pair]
      by_cases hfound : c = p ∧ s.head? = some q
      · rw [if_pos hfound] at h
        cases h
      · rw [if_neg hfound] at h
        rw [if_neg, ih h]
        rintro ⟨rfl, hhead⟩
        cases s with
        | nil => exact hrest hhead
        | cons d s => exact hfound ⟨rfl, hhead⟩

/-- What was found is a part of the text. -/
theorem behindFirst_suffix {pat s t : Bytes} (h : behindFirst pat s = some t) : t <:+ s := by
  induction s with
  | nil =>
      rw [behindFirst] at h
      split at h
      · obtain rfl := Option.some.inj h
        exact List.suffix_rfl
      · cases h
  | cons c s ih =>
      rw [behindFirst] at h
      split at h
      · obtain rfl := Option.some.inj h
        exact List.drop_suffix _ _
      · exact (ih h).trans (List.suffix_cons c s)

theorem fieldValue_comma {s : Bytes} (rest : Bytes) (size : Nat) (h : 44 ∉ s) :
    fieldValue (s ++ 44 :: rest) size = s.take (size - 1) := by
  rw [fieldValue, List.takeWhile_append_of_pos, List.takeWhile_cons_of_neg (by simp),
    List.append_nil]
  intro c hc
  simpa using ne_of_mem_of_not_mem hc h

theorem fieldValue_end {s : Bytes} (size : Nat) (h : 44 ∉ s) :
    fieldValue s size = s.take (size - 1) := by
  rw [fieldValue, List.takeWhile_eq_self_iff.mpr]
  intro c hc
  simpa using ne_of_mem_of_not_mem hc h

theorem countOf_stop (s : Bytes) {rest : Bytes} (hrest : rest = [] ∨ ∃ t, rest = 44 :: t) :
    countOf (s ++ rest) = countOf s := by
  have htake : (s ++ rest).takeWhile isDigit = s.takeWhile isDigit := by
    have hstop : rest.takeWhile isDigit = [] := by
      obtain rfl | ⟨t, rfl⟩ := hrest
      · rfl
      · exact List.takeWhile_cons_of_neg (by decide)
    rw [List.takeWhile_append]
    split
    · rename_i hall
      rw [hstop, List.append_nil]
      exact ((List.takeWhile_prefix _).eq_of_length hall).symm
    · rfl
  rw [countOf, htake, countOf]

theorem decimal_append (s t : Bytes) : decimal (s ++ t) = decimal s * 10 ^ t.length + decimal t := by
  induction t using List.reverseRecOn with
  | nil => simp [decimal]
  | append_singleton t c ih =>
      have hlast : ∀ u : Bytes, decimal (u ++ [c]) = decimal u * 10 + (c.toNat - 48) := fun u => by
        simp [decimal]
      rw [← List.append_assoc, hlast, ih, hlast, List.length_append, List.length_singleton, pow_succ]
      ring

/-- A count is read as it stands if it fits 32 bits and its leading zeros leave room for it. -/
theorem countOf_eq_iff {count : Bytes} (hdigits : ∀ c ∈ count, isDigit c = true) :
    countOf count = decimal count ↔
      decimal count < 4294967296 ∧ (count.length ≤ 15 ∨ decimal count = 0) := by
  rw [countOf, List.takeWhile_eq_self_iff.mpr hdigits]
  by_cases hlen : count.length ≤ 15
  · rw [List.take_of_length_le hlen]
    constructor
    · intro h
      exact ⟨by omega, .inl hlen⟩
    · rintro ⟨hlt, -⟩
      exact Nat.mod_eq_of_lt hlt
  · have hsplit : decimal (count.take 15) * 10 ^ (count.drop 15).length + decimal (count.drop 15) =
        decimal count := by
      rw [← decimal_append, List.take_append_drop]
    have hpow : 10 ≤ 10 ^ (count.drop 15).length := by
      refine Nat.le_self_pow ?_ 10
      rw [List.length_drop]
      omega
    have htimes := Nat.mul_le_mul_left (decimal (count.take 15)) hpow
    constructor
    · intro h
      have hle := Nat.mod_le (decimal (count.take 15)) 4294967296
      have hzero : decimal (count.take 15) = 0 := by omega
      exact ⟨by omega, .inr (by omega)⟩
    · rintro ⟨-, hshort | hzero⟩
      · exact absurd hshort hlen
      · have : decimal (count.take 15) = 0 := by omega
        rw [this, hzero]

/-! ### Decoding -/

/-- The block decoder of the library on texts of base64. -/
def DecodesBase64 (cr : Crypto) : Prop :=
  ∀ s d, Base64.decode s = some d → cr.decodeBlock s = Base64.blocks s

theorem b64Decode_eq {cr : Crypto} (hcr : DecodesBase64 cr) {s d : Bytes}
    (hs : Base64.decode s = some d) (cap : Nat) :
    b64Decode cr s cap =
      if s = [] ∨ 256 < s.length / 4 * 3 + 3 ∨ cap < d.length then none else some d := by
  obtain ⟨hmod, hlen⟩ := Base64.length_of_decode hs
  obtain ⟨tail, hblocks, htail⟩ := Base64.blocks_of_decode hs
  rw [b64Decode, hcr s d hs, hblocks]
  by_cases hne : s = []
  · rw [if_pos (.inl hne), if_pos (.inl hne)]
  · have hpad := Base64.padding_of_decode hs hne
    rw [Base64.pad] at hpad
    dsimp only
    rw [← hpad, List.length_append, htail, Nat.add_sub_cancel, List.take_left]
    by_cases hlong : 256 < s.length / 4 * 3 + 3
    · rw [if_pos (.inr (.inr hlong)), if_pos (.inr (.inl hlong))]
    · rw [if_neg (by simp [hne, hmod, hlong])]
      by_cases hcap : cap < d.length
      · rw [if_pos (.inr hcap), if_pos (.inr (.inr hcap))]
      · rw [if_neg (by omega), if_neg (by simp [hne, hlong, hcap])]

/-- A server-first message with these attributes. -/
def serverFirstText (nonce saltText count ext : Bytes) : Bytes :=
  ascii "r=" ++ nonce ++ ascii ",s=" ++ saltText ++ ascii ",i=" ++ count ++ ext

/-- The attributes have the form that the exchange prescribes, and the text of the salt stands for
the salt. -/
structure FirstForm (nonce saltText count ext salt : Bytes) : Prop where
  printable : ∀ c ∈ nonce, 0x20 ≤ c ∧ c ≤ 0x7e ∧ c ≠ 44
  decodes : Base64.decode saltText = some salt
  salt_pos : 1 ≤ salt.length
  salt_le : salt.length ≤ 64
  count_ne : count ≠ []
  digits : ∀ c ∈ count, isDigit c = true
  extension : ext = [] ∨ ∃ t, ext = 44 :: t

/-- The context holds the attributes of the message. -/
structure HoldsFirst (s' : Scram) (clientNonce nonce salt count : Bytes) : Prop where
  nonce_eq : s'.serverNonce = nonce
  salt_eq : s'.salt = salt
  iterations_eq : s'.iterations = decimal count
  starts : clientNonce <+: nonce

/-- The nonce fits its field and the count its own, and what the nonce hides of the attributes behind
it reads like them. -/
structure Legible (cr : Crypto) (nonce saltText count salt : Bytes) : Prop where
  nonce_fits : nonce.length ≤ 127
  salt_hidden : ∀ t, behindFirst (ascii "s=") nonce = some t →
    b64Decode cr (t.take 127) 64 = some salt
  count_hidden : ∀ t, behindFirst (ascii "i=") (nonce ++ ascii ",s=" ++ saltText) = some t →
    countOf t = decimal count
  count_fits : behindFirst (ascii "i=") (nonce ++ ascii ",s=" ++ saltText) = none →
    decimal count < 4294967296 ∧ (count.length ≤ 15 ∨ decimal count = 0)

section

variable {cr : Crypto} {nonce saltText count ext salt : Bytes}

theorem FirstForm.comma_notMem_nonce (hform : FirstForm nonce saltText count ext salt) :
    44 ∉ nonce := fun hmem => (hform.printable 44 hmem).2.2 rfl

theorem FirstForm.comma_notMem_saltText (hform : FirstForm nonce saltText count ext salt) :
    44 ∉ saltText := by
  intro hmem
  have hchar := Base64.mem_of_decode hform.decodes hmem
  revert hchar
  decide

theorem FirstForm.length_saltText (hform : FirstForm nonce saltText count ext salt) :
    saltText ≠ [] ∧ saltText.length ≤ 88 := by
  obtain ⟨hmod, hlen⟩ := Base64.length_of_decode hform.decodes
  have hpad := Base64.padding_le saltText
  have hpos := hform.salt_pos
  have hle := hform.salt_le
  refine ⟨?_, by omega⟩
  rintro rfl
  simp at hlen
  omega

theorem serverNonceOf_text (hform : FirstForm nonce saltText count ext salt) :
    serverNonceOf (serverFirstText nonce saltText count ext) = some (nonce.take 127) := by
  have hfound : behindFirst (ascii "r=") (serverFirstText nonce saltText count ext) =
      some (nonce ++ 44 :: (ascii "s=" ++ saltText ++ ascii ",i=" ++ count ++ ext)) := by
    simp [serverFirstText, Text.bytes, behindFirst, List.isPrefixOf]
  rw [serverNonceOf, hfound, Option.map_some, fieldValue_comma _ _ hform.comma_notMem_nonce]

/-- The text with the attributes behind the nonce set off by their commas. -/
theorem serverFirstText_eq : serverFirstText nonce saltText count ext =
    114 :: 61 :: (nonce ++ 44 :: 115 :: 61 :: (saltText ++ 44 :: 105 :: 61 :: (count ++ ext))) := by
  simp [serverFirstText, Text.bytes]

theorem notMem_of_behindFirst {p q c : UInt8} {s t : Bytes} (h : behindFirst [p, q] s = some t)
    (hc : c ∉ s) : c ∉ t := fun hmem => hc ((behindFirst_suffix h).subset hmem)

/-- The salt is read behind the first `s=` of the nonce, or where it stands. -/
theorem saltOf_text (hcr : DecodesBase64 cr) (hform : FirstForm nonce saltText count ext salt) :
    saltOf cr (serverFirstText nonce saltText count ext) =
      match behindFirst (ascii "s=") nonce with
      | some t => b64Decode cr (t.take 127) 64
      | none => some salt := by
  have hpat : ascii "s=" = [115, 61] := by decide
  have hcomma := hform.comma_notMem_nonce
  rw [saltOf, serverFirstText_eq, hpat, behindFirst_ne _ _ (by decide),
    behindFirst_ne _ _ (by decide)]
  cases hhidden : behindFirst [115, 61] nonce with
  | some t =>
      rw [behindFirst_append _ hhidden, Option.bind_eq_bind, Option.bind_some,
        fieldValue_comma _ _ (notMem_of_behindFirst hhidden hcomma)]
  | none =>
      obtain ⟨hne, hlen⟩ := hform.length_saltText
      rw [behindFirst_skip hhidden (by simp), behindFirst_ne _ _ (by decide), behindFirst_pair,
        if_pos (by simp), Option.bind_eq_bind, Option.bind_some, List.tail_cons,
        fieldValue_comma _ _ hform.comma_notMem_saltText, List.take_of_length_le (by omega),
        b64Decode_eq hcr hform.decodes, if_neg]
      have := hform.salt_le
      rintro (hnil | hlong | hcap)
      · exact hne hnil
      · omega
      · omega

/-- The count is read behind the first `i=` of the nonce or of the salt, or where it stands. -/
theorem iterationsOf_text (hform : FirstForm nonce saltText count ext salt) :
    iterationsOf (serverFirstText nonce saltText count ext) =
      some (match behindFirst (ascii "i=") (nonce ++ ascii ",s=" ++ saltText) with
        | some t => countOf t
        | none => countOf count) := by
  have hpat : ascii "i=" = [105, 61] := by decide
  have htext : serverFirstText nonce saltText count ext =
      114 :: 61 :: ((nonce ++ ascii ",s=" ++ saltText) ++ 44 :: 105 :: 61 :: (count ++ ext)) := by
    rw [serverFirstText_eq]
    simp [Text.bytes]
  rw [iterationsOf, htext, hpat, behindFirst_ne _ _ (by decide), behindFirst_ne _ _ (by decide)]
  cases hhidden : behindFirst [105, 61] (nonce ++ ascii ",s=" ++ saltText) with
  | some t =>
      rw [behindFirst_append _ hhidden, Option.map_some, countOf_stop t (.inr ⟨_, rfl⟩)]
  | none =>
      rw [behindFirst_skip hhidden (by simp), behindFirst_ne _ _ (by decide), behindFirst_pair,
        if_pos (by simp), Option.map_some, List.tail_cons, countOf_stop count hform.extension]

end

/-! ### What an accepted message leaves behind -/

theorem scramHandleServerFirst_fields {cr : Crypto} {s s' : Scram} {serverFirst password : Bytes}
    (h : scramHandleServerFirst cr s serverFirst password = some s') :
    serverNonceOf serverFirst = some s'.serverNonce ∧ s.clientNonce <+: s'.serverNonce ∧
      saltOf cr serverFirst = some s'.salt ∧ iterationsOf serverFirst = some s'.iterations := by
  simp only [scramHandleServerFirst, Option.bind_eq_bind, Option.bind_eq_some_iff, Option.pure_def,
    Option.some.injEq] at h
  obtain ⟨nonce, hnonce, _, hstarts, salt, hsalt, iterations, hiterations, salted, -, clientKey, -,
    storedKey, -, serverKey, -, without, -, message, -, rfl⟩ := h
  refine ⟨hnonce, ?_, hsalt, hiterations⟩
  unfold guard at hstarts
  split at hstarts
  · exact List.isPrefixOf_iff_prefix.mp (by assumption)
  · cases hstarts

/-- A message that is accepted is held as it was sent exactly if it is legible. -/
theorem holdsFirst_iff (cr : Crypto) (hcr : DecodesBase64 cr)
    (nonce saltText count ext salt : Bytes) (hform : FirstForm nonce saltText count ext salt)
    (s s' : Scram) (password : Bytes)
    (haccepted : scramHandleServerFirst cr s (serverFirstText nonce saltText count ext) password =
      some s') :
    HoldsFirst s' s.clientNonce nonce salt count ↔ Legible cr nonce saltText count salt := by
  obtain ⟨hnonce, hstarts, hsalt, hiterations⟩ := scramHandleServerFirst_fields haccepted
  rw [serverNonceOf_text hform] at hnonce
  rw [saltOf_text hcr hform] at hsalt
  rw [iterationsOf_text hform] at hiterations
  have hcut := Option.some.inj hnonce
  have hcount := Option.some.inj hiterations
  constructor
  · intro hholds
    rw [hholds.nonce_eq] at hcut
    rw [hholds.salt_eq] at hsalt
    rw [hholds.iterations_eq] at hcount
    refine ⟨?_, ?_, ?_, ?_⟩
    · have hlen := congrArg List.length hcut
      rw [List.length_take] at hlen
      omega
    · intro t ht
      rw [ht] at hsalt
      exact hsalt
    · intro t ht
      rw [ht] at hcount
      exact hcount
    · intro hnone
      rw [hnone] at hcount
      exact (countOf_eq_iff hform.digits).mp hcount
  · intro hlegible
    have hwhole : nonce.take 127 = nonce := List.take_of_length_le hlegible.nonce_fits
    refine ⟨?_, ?_, ?_, ?_⟩
    · rw [← hcut, hwhole]
    · cases hhidden : behindFirst (ascii "s=") nonce with
      | some t =>
          rw [hhidden] at hsalt
          exact Option.some.inj (hsalt.symm.trans (hlegible.salt_hidden t hhidden))
      | none =>
          rw [hhidden] at hsalt
          exact (Option.some.inj hsalt).symm
    · rw [← hcount]
      cases hhidden : behindFirst (ascii "i=") (nonce ++ ascii ",s=" ++ saltText) with
      | some t => exact hlegible.count_hidden t hhidden
      | none => exact (countOf_eq_iff hform.digits).mpr (hlegible.count_fits hhidden)
    · rw [← hwhole, hcut]
      exact hstarts

/-- The library of the sample exchange with the coding of base64 on all texts. -/
def base64Crypto : Crypto :=
  { sampleCrypto with encodeBlock := Base64.encode, decodeBlock := Base64.blocks }

theorem decodesBase64_base64Crypto : DecodesBase64 base64Crypto := fun _ _ _ => rfl

/-- The context of the sample exchange when the server has been asked. -/
def sampleContext : Scram :=
  { Scram.zero with
    username := ascii "app", clientNonce := ascii "0123456789abcdefghijklmn",
    clientFirstBare := ascii "n=app,r=0123456789abcdefghijklmn" }

def sampleSaltText : Bytes := ascii "W22ZaJ0SNY7soEsUEjb6gQ=="

def sampleSalt : Bytes := bytesBe 16 0x5b6d99689d12358eeca04b141236fa81

/-- What the client makes of a message with this nonce and this count. -/
def sampleHandled (nonce count : Bytes) : Option Scram :=
  scramHandleServerFirst base64Crypto sampleContext (serverFirstText nonce sampleSaltText count [])
    (ascii "pencil")

theorem sampleForm {nonce count : Bytes} (hnonce : ∀ c ∈ nonce, 0x20 ≤ c ∧ c ≤ 0x7e ∧ c ≠ 44)
    (hne : count ≠ []) (hdigits : ∀ c ∈ count, isDigit c = true) :
    FirstForm nonce sampleSaltText count [] sampleSalt :=
  ⟨hnonce, by decide +kernel, by decide +kernel, by decide +kernel, hne, hdigits, .inl rfl⟩

/-- The nonce of a server that only appends letters hides nothing. -/
theorem holdsFirst_server :
    ∃ s', sampleHandled (ascii "0123456789abcdefghijklmn-server") (ascii "4096") = some s' ∧
      HoldsFirst s' sampleContext.clientNonce (ascii "0123456789abcdefghijklmn-server") sampleSalt
        (ascii "4096") := by
  obtain ⟨s', hs'⟩ : ∃ s', sampleHandled (ascii "0123456789abcdefghijklmn-server") (ascii "4096") =
      some s' := Option.isSome_iff_exists.mp (by decide +kernel)
  refine ⟨s', hs', (holdsFirst_iff base64Crypto decodesBase64_base64Crypto _ _ _ _ _
    (sampleForm (forall_mem_of_all (by decide)) (by decide) (forall_mem_of_all (by decide))) _ _ _ hs').mpr ?_⟩
  have hsalt : behindFirst (ascii "s=") (ascii "0123456789abcdefghijklmn-server") = none := by decide
  have hcount : behindFirst (ascii "i=")
      (ascii "0123456789abcdefghijklmn-server" ++ ascii ",s=" ++ sampleSaltText) = none := by decide
  refine ⟨by decide, ?_, ?_, ?_⟩
  · rw [hsalt]
    nofun
  · rw [hcount]
    nofun
  · intro _
    decide

/-- A nonce that ends in another count hides the one of the message. -/
theorem not_holdsFirst :
    FirstForm (ascii "0123456789abcdefghijklmni=4096") sampleSaltText (ascii "8192") [] sampleSalt ∧
      ∃ s', sampleHandled (ascii "0123456789abcdefghijklmni=4096") (ascii "8192") = some s' ∧
        ¬ HoldsFirst s' sampleContext.clientNonce (ascii "0123456789abcdefghijklmni=4096") sampleSalt
          (ascii "8192") := by
  refine ⟨sampleForm (forall_mem_of_all (by decide)) (by decide) (forall_mem_of_all (by decide)), ?_⟩
  obtain ⟨s', hs', hcount⟩ : ∃ s',
      sampleHandled (ascii "0123456789abcdefghijklmni=4096") (ascii "8192") = some s' ∧
        s'.iterations = 4096 := by
    have hsome : ((sampleHandled (ascii "0123456789abcdefghijklmni=4096") (ascii "8192")).map
        Scram.iterations) = some 4096 := by decide +kernel
    exact Option.map_eq_some_iff.mp hsome
  refine ⟨s', hs', fun hholds => ?_⟩
  have hwrong := hcount.symm.trans hholds.iterations_eq
  revert hwrong
  decide
