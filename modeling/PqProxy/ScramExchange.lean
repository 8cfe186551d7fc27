import PqProxy.ScramFirst

/-! The exchange with an honest server. The server computes its keys and the authenticated message
from what the standard says and from what it received; the client's proof convinces it, and only the
server's own signature convinces the client. -/

/-- The cryptographic functions as mathematical ones, with results of 32 bytes. -/
structure Primitives where
  hash : Bytes → Bytes
  mac : Bytes → Bytes → Bytes
  kdf : Bytes → Bytes → Nat → Bytes
  length_hash : ∀ m, (hash m).length = 32
  length_mac : ∀ key m, (mac key m).length = 32
  length_kdf : ∀ password salt count, (kdf password salt count).length = 32

/-- The exclusive or of two texts of one length. -/
def xorBytes (s t : Bytes) : Bytes := List.zipWith (· ^^^ ·) s t

namespace Primitives

variable (P : Primitives) (password salt : Bytes) (count : Nat)

def clientKey : Bytes := P.mac (P.kdf password salt count) (ascii "Client Key")

def storedKey : Bytes := P.hash (P.clientKey password salt count)

def serverKey : Bytes := P.mac (P.kdf password salt count) (ascii "Server Key")

/-- The server accepts a proof that hashes to the stored key when its own signature is taken off. -/
def Accepts (storedKey authMessage proof : Bytes) : Prop :=
  P.hash (xorBytes proof (P.mac storedKey authMessage)) = storedKey

end Primitives

/-- The client-final message without its proof: the coded header and the whole nonce. -/
def withoutProof (nonce : Bytes) : Bytes :=
  ascii "c=" ++ Base64.encode (ascii "n,,") ++ ascii ",r=" ++ nonce

/-- The authenticated message, from the messages as they went over the wire. -/
def authMessageOf (clientFirst serverFirst clientFinal : Bytes) : Bytes :=
  clientFirst.drop (ascii "n,,").length ++ ascii "," ++ serverFirst ++ ascii "," ++ clientFinal

/-- The library computes these functions, and codes as the standard says. -/
structure Realises (cr : Crypto) (P : Primitives) : Prop where
  hmac : ∀ key m, cr.hmac key m = some (P.mac key m)
  digest : ∀ m, cr.digest m = some (P.hash m)
  pbkdf2 : ∀ password salt (count : Nat), 1 ≤ count → count < 2147483648 →
    cr.pbkdf2 password salt count = some (P.kdf password salt count)
  encode : ∀ d, cr.encodeBlock d = Base64.encode d
  decode : DecodesBase64 cr

theorem behindFirst_of_notMem_left {p q : UInt8} {s : Bytes} (h : p ∉ s) :
    behindFirst [p, q] s = none := by
  induction s with
  | nil => rfl
  | cons c s ih =>
      rw [List.mem_cons, not_or] at h
      rw [behindFirst_ne _ _ (Ne.symm h.1), ih h.2]

theorem behindFirst_of_notMem_right {p q : UInt8} {s : Bytes} (h : q ∉ s) :
    behindFirst [p, q] s = none := by
  induction s with
  | nil => rfl
  | cons c s ih =>
      rw [List.mem_cons, not_or] at h
      rw [behindFirst_pair, if_neg, ih h.2]
      rintro ⟨-, hhead⟩
      exact h.2 (List.mem_of_mem_head? hhead)

/-- The character before the padding is not the letter of the count. -/
theorem char_ne_count : ∀ v < 64, v % 4 = 0 → Base64.char v ≠ 105 := by decide

theorem behindFirst_encode (d : Bytes) : behindFirst [105, 61] (Base64.encode d) = none := by
  obtain ⟨body, hbody, hmem, hlast⟩ := Base64.encode_split d
  have hpad : ∀ c ∈ body, c ≠ 61 := by
    intro c hc
    obtain ⟨v, hv, rfl⟩ := hmem c hc
    exact Base64.char_ne_pad v hv
  rw [hbody]
  by_cases hnone : Base64.padding (Base64.encode d) = 0
  · rw [hnone, List.replicate_zero, List.append_nil]
    exact behindFirst_of_notMem_right fun h => hpad 61 h rfl
  · obtain ⟨front, v, hv, hlow, rfl⟩ := hlast hnone
    have hfront : (61 : UInt8) ∉ front := fun h => hpad 61 (List.mem_append_left _ h) rfl
    have hhead : (Base64.char v :: List.replicate (Base64.padding (Base64.encode d)) Base64.pad).head? ≠
        some 61 := by
      rw [List.head?_cons]
      exact fun h => Base64.char_ne_pad v hv (Option.some.inj h)
    rw [List.append_assoc, List.singleton_append,
      behindFirst_skip (behindFirst_of_notMem_right hfront) hhead,
      behindFirst_ne _ _ (char_ne_count v hv hlow)]
    apply behindFirst_of_notMem_left
    intro h
    exact absurd (List.eq_of_mem_replicate h) (by decide)

/-- The characters of a nonce are neither commas nor equals signs. -/
theorem printable_of_value {c : UInt8} (h : (Base64.value c).isSome = true) :
    (0x20 ≤ c ∧ c ≤ 0x7e ∧ c ≠ 44) ∧ c ≠ 61 := by
  have hall : ∀ n < 256, (Base64.value (UInt8.ofNat n)).isSome = true →
      (0x20 ≤ UInt8.ofNat n ∧ UInt8.ofNat n ≤ 0x7e ∧ UInt8.ofNat n ≠ 44) ∧ UInt8.ofNat n ≠ 61 := by
    decide +kernel
  have hc := hall c.toNat c.toNat_lt
  rw [UInt8.ofNat_toNat] at hc
  exact hc h

theorem value_of_mem_nonceHex {random : Option Bytes} {nchars : Nat} {c : UInt8}
    (hc : c ∈ nonceHex random nchars) : (Base64.value c).isSome = true := by
  have hall : ∀ i < 36,
      (Base64.value ((ascii "0123456789abcdefghijklmnopqrstuvwxyz").getD i 0)).isSome = true := by
    decide
  unfold nonceHex at hc
  cases random with
  | none =>
      obtain ⟨i, -, rfl⟩ := List.mem_map.mp hc
      exact hall _ (Nat.mod_lt _ (by decide))
  | some raw =>
      obtain ⟨i, -, rfl⟩ := List.mem_map.mp hc
      exact hall _ (Nat.mod_lt _ (by decide))

/-! ### What the client computes -/

theorem length_xorBytes {s t : Bytes} (h : s.length = t.length) : (xorBytes s t).length = s.length := by
  rw [xorBytes, List.length_zipWith, h, Nat.min_self]

theorem xorBytes_cancel {s t : Bytes} (h : s.length = t.length) : xorBytes (xorBytes s t) t = s := by
  induction s generalizing t with
  | nil => rfl
  | cons a s ih =>
      cases t with
      | nil => cases h
      | cons b t =>
          have hhead : a ^^^ b ^^^ b = a := by rw [UInt8.xor_assoc, UInt8.xor_self, UInt8.xor_zero]
          have htail := ih (Nat.succ.inj h)
          simp only [xorBytes, List.zipWith_cons_cons] at htail ⊢
          rw [hhead, htail]

section

variable {cr : Crypto} {P : Primitives}

theorem Realises.hmacSha256_eq (hcr : Realises cr P) (key m : Bytes) :
    hmacSha256 cr key m = some (P.mac key m) := by
  rw [hmacSha256, hcr.hmac, Option.filter_some, if_pos]
  exact decide_eq_true (P.length_mac key m)

theorem Realises.pbkdf2Sha256_eq (hcr : Realises cr P) (password salt : Bytes) {count : Nat}
    (hpos : 1 ≤ count) (hlt : count < 2147483648) :
    pbkdf2Sha256 cr password salt count = some (P.kdf password salt count) := by
  have hint : Int.bmod count 4294967296 = count := by
    rw [Int.bmod_eq_emod_of_lt]
    · omega
    · omega
  rw [pbkdf2Sha256, hint, hcr.pbkdf2 password salt count hpos hlt]

theorem fitting_of_lt {cap : Nat} {s : Bytes} (h : s.length < cap) : fitting cap s = some s := if_pos h

theorem withoutProof_eq (nonce : Bytes) : withoutProof nonce = finalWithoutProof nonce := by
  have hheader : ascii "c=" ++ Base64.encode (ascii "n,,") ++ ascii ",r=" = ascii "c=biws,r=" := by
    decide
  rw [withoutProof, hheader, finalWithoutProof]

/-- The context after the message of an honest server. -/
def Primitives.answered (P : Primitives) (s : Scram) (password nonce salt count serverFirst : Bytes) :
    Scram :=
  { s with
    serverNonce := nonce, salt := salt, iterations := decimal count
    clientKey := P.clientKey password salt (decimal count)
    storedKey := P.storedKey password salt (decimal count)
    serverKey := P.serverKey password salt (decimal count)
    authMessage := s.clientFirstBare ++ ascii "," ++ serverFirst ++ ascii "," ++ withoutProof nonce }

theorem handled_eq (hcr : Realises cr P) {s : Scram} {password nonce saltText count salt : Bytes}
    (hform : FirstForm nonce saltText count [] salt)
    (hlegible : Legible cr nonce saltText count salt) (hstarts : s.clientNonce <+: nonce)
    (hhidden : behindFirst (ascii "s=") nonce = none ∧
      behindFirst (ascii "i=") (nonce ++ ascii ",s=" ++ saltText) = none)
    (hpos : 1 ≤ decimal count) (hlt : decimal count < 2147483648)
    (hmessage : (s.clientFirstBare ++ ascii "," ++ serverFirstText nonce saltText count [] ++
      ascii "," ++ withoutProof nonce).length < 768) :
    scramHandleServerFirst cr s (serverFirstText nonce saltText count []) password =
      some (P.answered s password nonce salt count (serverFirstText nonce saltText count [])) := by
  have hnonce := serverNonceOf_text hform
  rw [List.take_of_length_le hlegible.nonce_fits] at hnonce
  have hsalt := saltOf_text hcr.decode hform
  rw [hhidden.1] at hsalt
  have hcount := iterationsOf_text hform
  rw [hhidden.2] at hcount
  dsimp only at hsalt hcount
  rw [(countOf_eq_iff hform.digits).mpr (hlegible.count_fits hhidden.2)] at hcount
  rw [withoutProof_eq] at hmessage
  have hwithout : (finalWithoutProof nonce).length < 160 := by
    have hhead : (ascii "c=biws,r=").length = 9 := by decide
    have := hlegible.nonce_fits
    rw [finalWithoutProof, List.length_append]
    omega
  rw [scramHandleServerFirst, hnonce, hsalt, hcount]
  simp only [Option.bind_eq_bind, Option.bind_some, List.isPrefixOf_iff_prefix.mpr hstarts, guard_true,
    hcr.pbkdf2Sha256_eq password salt hpos hlt, hcr.hmacSha256_eq, hcr.digest,
    fitting_of_lt hwithout, fitting_of_lt hmessage]
  rw [Primitives.answered, withoutProof_eq]
  rfl

theorem signatureOf_encode (hcr : Realises cr P) (sig : Bytes) :
    signatureOf cr (ascii "v=" ++ Base64.encode sig) =
      if sig = [] ∨ 32 < sig.length then none else some sig := by
  have hfound : behindFirst (ascii "v=") (ascii "v=" ++ Base64.encode sig) =
      some (Base64.encode sig) := by
    simp [Text.bytes, behindFirst, List.isPrefixOf]
  have hcomma : 44 ∉ Base64.encode sig := by
    intro hmem
    have hchar := Base64.mem_of_decode (Base64.decode_encode sig) hmem
    revert hchar
    decide
  have hlen := Base64.length_encode sig
  rw [signatureOf, hfound, Option.bind_eq_bind, Option.bind_some, fieldValue_end 128 hcomma]
  by_cases hshort : (Base64.encode sig).length ≤ 127
  · have hempty : Base64.encode sig = [] ↔ sig = [] := by
      rw [← List.length_eq_zero_iff, hlen, ← List.length_eq_zero_iff]
      omega
    rw [List.take_of_length_le hshort, b64Decode_eq hcr.decode (Base64.decode_encode sig)]
    by_cases hbad : sig = [] ∨ 32 < sig.length
    · rw [if_pos hbad, if_pos (hbad.imp hempty.mpr .inr)]
    · rw [if_neg hbad, if_neg]
      rintro (hnil | hlong | hcap)
      · exact hbad (.inl (hempty.mp hnil))
      · omega
      · exact hbad (.inr hcap)
  · -- what is left of a longer text is no text of base64
    rw [if_pos (.inr (by omega)), b64Decode, if_pos]
    refine .inr (.inl ?_)
    rw [List.length_take]
    omega

theorem scramVerifyServerFinal_iff (hcr : Realises cr P) (s : Scram) (sig : Bytes) :
    scramVerifyServerFinal cr s (ascii "v=" ++ Base64.encode sig) = true ↔
      sig = P.mac s.serverKey s.authMessage := by
  have hmac := P.length_mac s.serverKey s.authMessage
  rw [scramVerifyServerFinal, hcr.hmacSha256_eq, signatureOf_encode hcr]
  by_cases hbad : sig = [] ∨ 32 < sig.length
  · rw [if_pos hbad]
    constructor
    · intro h
      cases h
    · rintro rfl
      rw [← List.length_eq_zero_iff] at hbad
      omega
  · rw [if_neg hbad]
    dsimp only
    rw [Bool.and_eq_true, beq_iff_eq, beq_iff_eq]
    constructor
    · rintro ⟨-, h⟩
      exact h.symm
    · rintro rfl
      exact ⟨hmac, rfl⟩

theorem scramClientFinal_eq (hcr : Realises cr P) {s : Scram} {cap : Nat}
    (hkey : s.clientKey.length = 32)
    (hcap : (finalWithoutProof s.serverNonce).length + 47 < cap) :
    scramClientFinal cr s cap = some (withoutProof s.serverNonce ++ ascii ",p=" ++
      Base64.encode (xorBytes s.clientKey (P.mac s.storedKey s.authMessage))) := by
  have hproof : (xorBytes s.clientKey (P.mac s.storedKey s.authMessage)).length = 32 := by
    rw [length_xorBytes (hkey.trans (P.length_mac _ _).symm), hkey]
  have htext := Base64.length_encode (xorBytes s.clientKey (P.mac s.storedKey s.authMessage))
  rw [hproof] at htext
  have hmark : (ascii ",p=").length = 3 := by decide
  rw [scramClientFinal, hcr.hmacSha256_eq, Option.bind_eq_bind, Option.bind_some, b64Encode,
    hcr.encode, ← xorBytes, fitting_of_lt (by omega), Option.bind_some, withoutProof_eq,
    fitting_of_lt]
  rw [List.length_append, List.length_append]
  omega

end

/-! ### The exchange -/

/-- What the client sends last convinces the server of the standard, and it accepts the signature of
that server and no other text. -/
structure Convinces (cr : Crypto) (P : Primitives) (s : Scram) (clientFirst serverFirst nonce password
    salt : Bytes) (count cap : Nat) : Prop where
  sends : ∃ proof,
    scramClientFinal cr s cap = some (withoutProof nonce ++ ascii ",p=" ++ Base64.encode proof) ∧
      P.Accepts (P.storedKey password salt count)
        (authMessageOf clientFirst serverFirst (withoutProof nonce)) proof
  verifies : ∀ sig, scramVerifyServerFinal cr s (ascii "v=" ++ Base64.encode sig) = true ↔
    sig = P.mac (P.serverKey password salt count)
      (authMessageOf clientFirst serverFirst (withoutProof nonce))

/-- An exchange with an honest server succeeds on both sides. -/
theorem scram_exchange (cr : Crypto) (P : Primitives) (hcr : Realises cr P) (random : Option Bytes)
    (username password salt suffix count clientFirst : Bytes) (gs2Cap bareCap cap : Nat)
    (s₀ s : Scram) (hinit : scramInit random username = some s₀)
    (hfirst : scramClientFirst s₀ gs2Cap bareCap = some (s, clientFirst))
    (hsalt : 1 ≤ salt.length ∧ salt.length ≤ 64)
    (hsuffix : ∀ c ∈ suffix, (Base64.value c).isSome = true)
    (hdigits : ∀ c ∈ count, isDigit c = true) (hcount : count.length ≤ 15)
    (hpos : 1 ≤ decimal count) (hlt : decimal count < 2147483648)
    (hnonce : (s.clientNonce ++ suffix).length ≤ 127)
    (hmessage : (authMessageOf clientFirst
      (serverFirstText (s.clientNonce ++ suffix) (Base64.encode salt) count [])
      (withoutProof (s.clientNonce ++ suffix))).length < 768)
    (hcap : (withoutProof (s.clientNonce ++ suffix)).length + 47 < cap) :
    ∃ s', scramHandleServerFirst cr s
        (serverFirstText (s.clientNonce ++ suffix) (Base64.encode salt) count []) password = some s' ∧
      Convinces cr P s' clientFirst
        (serverFirstText (s.clientNonce ++ suffix) (Base64.encode salt) count [])
        (s.clientNonce ++ suffix) password salt (decimal count) cap := by
  have hbare : clientFirst.drop (ascii "n,,").length = s.clientFirstBare := by
    rw [scramClientFirst_spec hinit hfirst, List.drop_left]
  rw [authMessageOf, hbare] at hmessage
  have hchars : ∀ c ∈ s.clientNonce ++ suffix, (Base64.value c).isSome = true := by
    obtain ⟨name, -, rfl⟩ := Option.map_eq_some_iff.mp hinit
    simp only [scramClientFirst, Option.bind_eq_bind, Option.bind_eq_some_iff, Option.pure_def,
      Option.some.injEq, Prod.mk.injEq] at hfirst
    obtain ⟨bare, -, gs2, -, rfl, -⟩ := hfirst
    intro c hc
    obtain hc | hc := List.mem_append.mp hc
    · exact value_of_mem_nonceHex hc
    · exact hsuffix c hc
  generalize hwhole : s.clientNonce ++ suffix = nonce at *
  have hstarts : s.clientNonce <+: nonce := ⟨suffix, hwhole⟩
  have hform : FirstForm nonce (Base64.encode salt) count [] salt := by
    refine ⟨fun c hc => (printable_of_value (hchars c hc)).1, Base64.decode_encode salt, hsalt.1,
      hsalt.2, ?_, hdigits, .inl rfl⟩
    rintro rfl
    exact absurd hpos (by decide)
  have hequals : (61 : UInt8) ∉ nonce := fun hmem => (printable_of_value (hchars 61 hmem)).2 rfl
  have hfirstSalt : behindFirst (ascii "s=") nonce = none := behindFirst_of_notMem_right hequals
  have hfirstCount : behindFirst (ascii "i=") (nonce ++ ascii ",s=" ++ Base64.encode salt) = none := by
    have hsplit : nonce ++ ascii ",s=" ++ Base64.encode salt =
        nonce ++ 44 :: 115 :: 61 :: Base64.encode salt := by
      simp [Text.bytes]
    have hpat : ascii "i=" = [105, 61] := by decide
    rw [hsplit, hpat, behindFirst_skip (behindFirst_of_notMem_right hequals) (by simp),
      behindFirst_ne _ _ (by decide), behindFirst_ne _ _ (by decide), behindFirst_ne _ _ (by decide)]
    exact behindFirst_encode salt
  have hlegible : Legible cr nonce (Base64.encode salt) count salt := by
    refine ⟨hnonce, ?_, ?_, fun _ => ⟨by omega, .inl hcount⟩⟩
    · rw [hfirstSalt]
      rintro _ ⟨⟩
    · rw [hfirstCount]
      rintro _ ⟨⟩
  refine ⟨_, handled_eq hcr hform hlegible hstarts ⟨hfirstSalt, hfirstCount⟩ hpos hlt hmessage, ?_, ?_⟩
  · rw [withoutProof_eq] at hcap
    refine ⟨_, scramClientFinal_eq hcr (P.length_mac _ _) hcap, ?_⟩
    rw [Primitives.Accepts, authMessageOf, hbare]
    have hkeys : (P.clientKey password salt (decimal count)).length = 32 := P.length_mac _ _
    dsimp only [Primitives.answered]
    rw [xorBytes_cancel (hkeys.trans (P.length_mac _ _).symm)]
    rfl
  · intro sig
    rw [authMessageOf, hbare]
    exact scramVerifyServerFinal_iff hcr _ sig

theorem length_bytesBe (len n : Nat) : (bytesBe len n).length = len := by
  rw [bytesBe, List.length_map, List.length_range]

/-- What is signed in an exchange whose server appends `/server` to the nonce. -/
def exchangeMessage : Bytes :=
  authMessageOf (ascii "n,,n=app,r=0123456789abcdefghijklmn")
    (ascii "r=0123456789abcdefghijklmn/server,s=W22ZaJ0SNY7soEsUEjb6gQ==,i=4096")
    (ascii "c=biws,r=0123456789abcdefghijklmn/server")

/-- The functions with their values in this exchange. -/
def samplePrimitives : Primitives where
  hash m := if m = sampleClientKey then sampleStoredKey else List.replicate 32 0
  mac key m :=
    if key = sampleSalted ∧ m = ascii "Client Key" then sampleClientKey
    else if key = sampleSalted ∧ m = ascii "Server Key" then sampleServerKey
    else if key = sampleStoredKey ∧ m = exchangeMessage then
      bytesBe 32 0xedb6e65085391a5d3cb4befae6989aa831fd052c4e82022a24c8df835f11687a
    else if key = sampleServerKey ∧ m = exchangeMessage then
      bytesBe 32 0xd5ad6079d969c4d8aa72ae73a9fd5a6260727a26cfd3539552cce05ad2e36304
    else List.replicate 32 0
  kdf password salt count :=
    if password = ascii "pencil" ∧ salt = sampleSalt ∧ count = 4096 then sampleSalted
    else List.replicate 32 0
  length_hash m := by
    split
    · exact length_bytesBe 32 _
    · exact List.length_replicate
  length_mac key m := by
    split
    · exact length_bytesBe 32 _
    · split
      · exact length_bytesBe 32 _
      · split
        · exact length_bytesBe 32 _
        · split
          · exact length_bytesBe 32 _
          · exact List.length_replicate
  length_kdf password salt count := by
    split
    · exact length_bytesBe 32 _
    · exact List.length_replicate

def samplePrimitivesCrypto : Crypto where
  hmac key m := some (samplePrimitives.mac key m)
  digest m := some (samplePrimitives.hash m)
  pbkdf2 password salt count := some (samplePrimitives.kdf password salt count.toNat)
  encodeBlock := Base64.encode
  decodeBlock := Base64.blocks

theorem realises_sample : Realises samplePrimitivesCrypto samplePrimitives where
  hmac _ _ := rfl
  digest _ := rfl
  pbkdf2 _ _ _ _ _ := rfl
  encode _ := rfl
  decode _ _ _ := rfl

theorem scram_exchange_sample :
    ∃ s', scramHandleServerFirst samplePrimitivesCrypto sampleContext
        (serverFirstText (sampleContext.clientNonce ++ ascii "/server") (Base64.encode sampleSalt)
          (ascii "4096") []) (ascii "pencil") = some s' ∧
      Convinces samplePrimitivesCrypto samplePrimitives s'
        (ascii "n,,n=app,r=0123456789abcdefghijklmn")
        (serverFirstText (sampleContext.clientNonce ++ ascii "/server") (Base64.encode sampleSalt)
          (ascii "4096") [])
        (sampleContext.clientNonce ++ ascii "/server") (ascii "pencil") sampleSalt 4096 512 :=
  scram_exchange samplePrimitivesCrypto samplePrimitives realises_sample
    (some ((List.range 24).map UInt8.ofNat)) (ascii "app") (ascii "pencil") sampleSalt (ascii "/server")
    (ascii "4096") (ascii "n,,n=app,r=0123456789abcdefghijklmn") 320 288 512
    { sampleContext with clientFirstBare := [] } sampleContext (by decide +kernel)
    (by decide +kernel) (by decide +kernel) (forall_mem_of_all (by decide))
    (forall_mem_of_all (by decide)) (by decide) (by decide) (by decide) (by decide)
    (by decide +kernel) (by decide)
