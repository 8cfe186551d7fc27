import PqProxy.Wire

/-! The client of a SCRAM-SHA-256 exchange. Strings are the bytes before the terminating zero; the
cryptographic functions and the block coding of base64 are parameters. -/

/-- What the client uses of the cryptographic library. -/
structure Crypto where
  /-- The code of a message under a key. -/
  hmac : Bytes → Bytes → Option Bytes
  digest : Bytes → Option Bytes
  /-- Password, salt and number of iterations. -/
  pbkdf2 : Bytes → Bytes → Int → Option Bytes
  encodeBlock : Bytes → Bytes
  decodeBlock : Bytes → Option Bytes

/-- The bytes of a literal. -/
abbrev ascii (s : String) : Bytes := Text.bytes s.toList

/-- The C string at the start of a buffer. -/
def cString (buf : Bytes) : Bytes := buf.takeWhile (· ≠ 0)

/-- What stands behind the first occurrence of `pat`: `strstr` and the step over what was found. -/
def behindFirst (pat : Bytes) : Bytes → Option Bytes
  | [] => if pat = [] then some [] else none
  | c :: s => if pat.isPrefixOf (c :: s) then some ((c :: s).drop pat.length) else behindFirst pat s

/-- The value up to the next comma, copied to an array of `size` bytes. -/
def fieldValue (s : Bytes) (size : Nat) : Bytes := (s.takeWhile (· ≠ 44)).take (size - 1)

/-- `snprintf` of a text into an array of `cap` bytes, as the callers check it. -/
def fitting (cap : Nat) (s : Bytes) : Option Bytes := if s.length < cap then some s else none

section

variable (cr : Crypto)

/-- `b64_encode`. -/
def b64Encode (data : Bytes) (cap : Nat) : Option Bytes := fitting cap (cr.encodeBlock data)

/-- `b64_decode`. -/
def b64Decode (s : Bytes) (cap : Nat) : Option Bytes :=
  if s = [] ∨ s.length % 4 ≠ 0 ∨ 256 < s.length / 4 * 3 + 3 then none
  else
    match cr.decodeBlock s with
    | none => none
    | some tmp =>
        let pad := (if s[s.length - 1]? = some 61 then 1 else 0) +
          (if 2 ≤ s.length ∧ s[s.length - 2]? = some 61 then 1 else 0)
        if tmp.length < pad ∨ cap < tmp.length - pad then none else some (tmp.take (tmp.length - pad))

/-- `hmac_sha256`. -/
def hmacSha256 (key data : Bytes) : Option Bytes := (cr.hmac key data).filter fun d => d.length = 32

/-- `pq_scram_t`, as far as it is read. -/
structure Scram where
  username : Bytes
  clientNonce : Bytes
  serverNonce : Bytes
  salt : Bytes
  iterations : Nat
  clientKey : Bytes
  storedKey : Bytes
  serverKey : Bytes
  clientFirstBare : Bytes
  authMessage : Bytes
  deriving DecidableEq

/-- The context after `memset`. -/
def Scram.zero : Scram :=
  ⟨[], [], [], [], 0, List.replicate 32 0, List.replicate 32 0, List.replicate 32 0, [], []⟩

/-- `nonce_hex`, with what the random generator returned. -/
def nonceHex (random : Option Bytes) (nchars : Nat) : Bytes :=
  let hex := ascii "0123456789abcdefghijklmnopqrstuvwxyz"
  let n := min nchars 24
  match random with
  | none => (List.range n).map fun i => hex.getD (i % 36) 0
  | some raw => (List.range n).map fun i => hex.getD ((raw.getD i 0).toNat % 36) 0

/-- The loop of `copy_user`. -/
def copyUserFrom (dstsz : Nat) (dst : Bytes) : Bytes → Option Bytes
  | [] => some dst
  | c :: user =>
      if dstsz ≤ dst.length + 1 then some dst
      else if c < 0x20 ∨ c = 0x7f then none
      else if c = 61 then
        if dstsz ≤ dst.length + 3 then none else copyUserFrom dstsz (dst ++ ascii "=3D") user
      else if c = 44 then
        if dstsz ≤ dst.length + 3 then none else copyUserFrom dstsz (dst ++ ascii "=2C") user
      else copyUserFrom dstsz (dst ++ [c]) user

/-- `copy_user`. -/
def copyUser (dstsz : Nat) (user : Bytes) : Option Bytes :=
  if user = [] ∨ dstsz = 0 then none else copyUserFrom dstsz [] user

/-- `pq_scram_init`. -/
def scramInit (random : Option Bytes) (username : Bytes) : Option Scram :=
  (copyUser 128 username).map fun name =>
    { Scram.zero with username := name, clientNonce := nonceHex random 24 }

/-- `pq_scram_client_first`: the context, and the message with its header. -/
def scramClientFirst (s : Scram) (gs2Cap bareCap : Nat) : Option (Scram × Bytes) := do
  let bare ← fitting bareCap (ascii "n=" ++ s.username ++ ascii ",r=" ++ s.clientNonce)
  let gs2 ← fitting gs2Cap (ascii "n,," ++ bare)
  return ({ s with clientFirstBare := bare.take 255 }, gs2)

/-! ### The messages of the server -/

/-- The nonce in a server-first message. -/
def serverNonceOf (serverFirst : Bytes) : Option Bytes :=
  (behindFirst (ascii "r=") serverFirst).map (fieldValue · 128)

/-- The salt in a server-first message. -/
def saltOf (serverFirst : Bytes) : Option Bytes := do
  let p ← behindFirst (ascii "s=") serverFirst
  b64Decode cr (fieldValue p 128) 64

/-- `isdigit`. -/
def isDigit (c : UInt8) : Bool := 48 ≤ c && c ≤ 57

/-- The value of a decimal numeral. -/
def decimal (digits : Bytes) : Nat := digits.foldl (fun v c => v * 10 + (c.toNat - 48)) 0

/-- The count at the start of a text: at most 15 digits, converted to 32 bits. -/
def countOf (p : Bytes) : Nat := decimal ((p.takeWhile isDigit).take 15) % 4294967296

/-- The number of iterations in a server-first message. -/
def iterationsOf (serverFirst : Bytes) : Option Nat :=
  (behindFirst (ascii "i=") serverFirst).map countOf

/-- `pbkdf2_sha256`, which hands the number of iterations over as an `int`. -/
def pbkdf2Sha256 (password salt : Bytes) (iterations : Nat) : Option Bytes :=
  cr.pbkdf2 password salt (Int.bmod iterations 4294967296)

/-- The password after `pbkdf2_sha256`. -/
def saltedPassword (password serverFirst : Bytes) : Option Bytes := do
  let salt ← saltOf cr serverFirst
  let iterations ← iterationsOf serverFirst
  pbkdf2Sha256 cr password salt iterations

/-- The client-final message without its proof. -/
def finalWithoutProof (serverNonce : Bytes) : Bytes := ascii "c=biws,r=" ++ serverNonce

/-- `pq_scram_handle_server_first`. -/
def scramHandleServerFirst (s : Scram) (serverFirst password : Bytes) : Option Scram := do
  let serverNonce ← serverNonceOf serverFirst
  guard (s.clientNonce.isPrefixOf serverNonce)
  let salt ← saltOf cr serverFirst
  let iterations ← iterationsOf serverFirst
  let salted ← pbkdf2Sha256 cr password salt iterations
  let clientKey ← hmacSha256 cr salted (ascii "Client Key")
  let storedKey ← cr.digest clientKey
  let serverKey ← hmacSha256 cr salted (ascii "Server Key")
  let cwithout ← fitting 160 (finalWithoutProof serverNonce)
  let authMessage ← fitting 768
    (s.clientFirstBare ++ ascii "," ++ serverFirst ++ ascii "," ++ cwithout)
  return { s with
    serverNonce := serverNonce, salt := salt, iterations := iterations, clientKey := clientKey,
    storedKey := storedKey, serverKey := serverKey, authMessage := authMessage }

/-- `pq_scram_client_final`. -/
def scramClientFinal (s : Scram) (cap : Nat) : Option Bytes := do
  let clientSig ← hmacSha256 cr s.storedKey s.authMessage
  let proof ← b64Encode cr (List.zipWith (· ^^^ ·) s.clientKey clientSig) 64
  fitting cap (finalWithoutProof s.serverNonce ++ ascii ",p=" ++ proof)

/-- The signature in a server-final message. -/
def signatureOf (serverFinal : Bytes) : Option Bytes := do
  let p ← behindFirst (ascii "v=") serverFinal
  b64Decode cr (fieldValue p 128) 32

/-- `pq_scram_verify_server_final`. -/
def scramVerifyServerFinal (s : Scram) (serverFinal : Bytes) : Bool :=
  match hmacSha256 cr s.serverKey s.authMessage, signatureOf cr serverFinal with
  | some expected, some got => got.length == 32 && expected == got
  | _, _ => false

/-! ### What the exchange establishes -/

/-- The key of the server, derived from the password by its first message. -/
def serverKeyOf (password serverFirst : Bytes) : Option Bytes := do
  let salted ← saltedPassword cr password serverFirst
  hmacSha256 cr salted (ascii "Server Key")

variable {cr}

theorem fitting_eq {cap : Nat} {s t : Bytes} (h : fitting cap s = some t) : t = s ∧ s.length < cap := by
  unfold fitting at h
  split at h
  · exact ⟨(Option.some.inj h).symm, by assumption⟩
  · cases h

theorem length_copyUserFrom {dstsz : Nat} {user dst name : Bytes} (hdst : dst.length < dstsz)
    (h : copyUserFrom dstsz dst user = some name) : name.length < dstsz := by
  induction user generalizing dst with
  | nil =>
      rw [copyUserFrom] at h
      exact Option.some.inj h ▸ hdst
  | cons c user ih =>
      rw [copyUserFrom] at h
      split at h
      · exact Option.some.inj h ▸ hdst
      · split at h
        · cases h
        · split at h
          · split at h
            · cases h
            · refine ih ?_ h
              simp [Text.bytes]
              omega
          · split at h
            · split at h
              · cases h
              · refine ih ?_ h
                simp [Text.bytes]
                omega
            · refine ih ?_ h
              simp
              omega

theorem length_nonceHex (random : Option Bytes) (nchars : Nat) :
    (nonceHex random nchars).length ≤ 24 := by
  unfold nonceHex
  cases random with
  | none => simp
  | some raw => simp

/-- A new exchange is opened with the message that its context keeps. -/
theorem scramClientFirst_spec {random : Option Bytes} {user gs2 : Bytes} {gs2Cap bareCap : Nat}
    {s s' : Scram} (hinit : scramInit random user = some s)
    (h : scramClientFirst s gs2Cap bareCap = some (s', gs2)) :
    gs2 = ascii "n,," ++ s'.clientFirstBare := by
  obtain ⟨name, hname, rfl⟩ := Option.map_eq_some_iff.mp hinit
  have hlen : name.length < 128 := by
    unfold copyUser at hname
    split at hname
    · cases hname
    · exact length_copyUserFrom (by simp) hname
  have hnonce := length_nonceHex random 24
  simp only [scramClientFirst, Option.bind_eq_bind, Option.bind_eq_some_iff, Option.pure_def,
    Option.some.injEq, Prod.mk.injEq] at h
  obtain ⟨bare, hbare, gs2', hgs2, rfl, rfl⟩ := h
  obtain ⟨rfl, -⟩ := fitting_eq hbare
  obtain ⟨rfl, -⟩ := fitting_eq hgs2
  congr 1
  refine (List.take_of_length_le ?_).symm
  simp only [List.length_append, Text.bytes, List.length_map]
  have : "n=".toList.length = 2 ∧ ",r=".toList.length = 3 := by decide
  omega

/-- The key and the message that the last message of the server is checked against. -/
theorem scramHandleServerFirst_spec {s s' : Scram} {serverFirst password : Bytes}
    (h : scramHandleServerFirst cr s serverFirst password = some s') :
    serverKeyOf cr password serverFirst = some s'.serverKey ∧
      s'.clientFirstBare = s.clientFirstBare ∧
      s'.authMessage = s.clientFirstBare ++ ascii "," ++ serverFirst ++ ascii "," ++
        finalWithoutProof s'.serverNonce := by
  simp only [scramHandleServerFirst, Option.bind_eq_bind, Option.bind_eq_some_iff, Option.pure_def,
    Option.some.injEq] at h
  obtain ⟨nonce, -, -, -, salt, hsalt, iterations, hiterations, salted, hsalted, clientKey, -,
    storedKey, -, serverKey, hkey, without, hwithout, message, hmessage, rfl⟩ := h
  obtain ⟨rfl, -⟩ := fitting_eq hwithout
  obtain ⟨rfl, -⟩ := fitting_eq hmessage
  refine ⟨?_, rfl, rfl⟩
  rw [serverKeyOf, saltedPassword, hsalt, hiterations]
  simp only [Option.bind_eq_bind, Option.bind_some]
  rw [hsalted]
  exact hkey

theorem scramClientFinal_spec {s : Scram} {cap : Nat} {final : Bytes}
    (h : scramClientFinal cr s cap = some final) :
    ∃ proof, final = finalWithoutProof s.serverNonce ++ ascii ",p=" ++ proof := by
  simp only [scramClientFinal, Option.bind_eq_bind, Option.bind_eq_some_iff] at h
  obtain ⟨clientSig, -, proof, -, hfinal⟩ := h
  exact ⟨proof, (fitting_eq hfinal).1⟩

theorem scramVerifyServerFinal_spec {s : Scram} {serverFinal : Bytes}
    (h : scramVerifyServerFinal cr s serverFinal = true) :
    ∃ signature, hmacSha256 cr s.serverKey s.authMessage = some signature ∧
      signatureOf cr serverFinal = some signature := by
  unfold scramVerifyServerFinal at h
  split at h
  · rename_i expected got hexpected hgot
    rw [Bool.and_eq_true, beq_iff_eq, beq_iff_eq] at h
    exact ⟨expected, hexpected, h.2 ▸ hgot⟩
  · cases h

end
