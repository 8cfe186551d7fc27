import PqProxy.Pool
import PqProxy.Scram
import PqProxy.WirePg

/-! Logging in to a backend: the server drives the exchange, and the login ends with the first
ReadyForQuery. The server proves that it knows the password only if it was asked to. -/

def authOk : Nat := 0
def authCleartext : Nat := 3
def authSasl : Nat := 10
def authSaslCont : Nat := 11
def authSaslFinal : Nat := 12

/-- What `pqwire_next_event` reports of a backend message. -/
inductive AuthEvent where
  | readyForQuery
  | errorResponse
  | other
  deriving DecidableEq

/-- The wire library in the client role. -/
structure AuthWire where
  /-- The output after `pqwire_send_startup`. -/
  startup : Bytes → Bytes → Option Bytes
  /-- The events that are there after the last of these messages. -/
  events : List Bytes → List AuthEvent

/-- Whether the write of each round succeeds, and what the random generator returns in it. -/
structure AuthEnv where
  write : Nat → Bool
  random : Nat → Option Bytes

/-- One round: the message that was read, and what was written in answer to it. -/
structure AuthRound where
  msg : Bytes
  sent : Option Bytes
  deriving DecidableEq

/-- The locals of `backend_authenticate`. The trace holds all messages the wire context was fed
with. -/
structure AuthState where
  scram : Scram
  scramActive : Bool
  trace : List AuthRound

/-- The authentication type of an `R` message. -/
def authType (m : Bytes) : Option Nat :=
  match m with
  | 82 :: _ :: _ :: _ :: _ :: a :: b :: c :: d :: _ => some (Framing.be32 a b c d)
  | _ => none

/-- What stands behind the authentication type. -/
def authPayload (m : Bytes) : Bytes := m.drop 9

/-- A message of type `p`. -/
def authFrame (body : Bytes) : Bytes := 112 :: Framing.putBe32 (4 + body.length) ++ body

/-- `send_sasl_initial` with SCRAM-SHA-256. -/
def saslInitial (data : Bytes) : Bytes :=
  authFrame (ascii "SCRAM-SHA-256" ++ 0 :: Framing.putBe32 data.length ++ data)

section

variable (cr : Crypto) (w : AuthWire) (env : AuthEnv) (user password : Bytes)

/-- The SCRAM context, whether it is active, and what is to be written after a message of the server;
none when the login fails. -/
def authAnswer (s : AuthState) (m : Bytes) : Option (Scram × Bool × Option Bytes) :=
  let keep := (s.scram, s.scramActive, none)
  match authType m with
  | none => some keep
  | some type =>
      if type = authCleartext then
        if 512 < 5 + (password.length + 1) then none
        else some (s.scram, s.scramActive, some (authFrame (password ++ [0])))
      else if type = authSasl then
        if ascii "SCRAM-SHA-256" <:+: authPayload m then do
          let scram ← scramInit (env.random s.trace.length) user
          let (scram, gs2) ← scramClientFirst scram 320 288
          return (scram, true, some (saslInitial gs2))
        else none
      else if type = authSaslCont ∧ s.scramActive = true then
        if 512 ≤ (authPayload m).length then none
        else do
          let scram ← scramHandleServerFirst cr s.scram (cString (authPayload m)) password
          let final ← scramClientFinal cr scram 512
          return (scram, true, some (authFrame final))
      else if type = authSaslFinal ∧ s.scramActive = true then
        if 512 ≤ (authPayload m).length then none
        else if scramVerifyServerFinal cr s.scram (cString (authPayload m)) then some keep
        else none
      else some keep

/-- The state after a message, when what it calls for could be written. -/
def authRound (s : AuthState) (m : Bytes) : Option AuthState :=
  match authAnswer cr env user password s m with
  | none => none
  | some (scram, active, sent) =>
      if sent.isSome = true ∧ env.write s.trace.length = false then none
      else some ⟨scram, active, s.trace ++ [⟨m, sent⟩]⟩

/-- Whether a ReadyForQuery is among the events; none when an error is. -/
def authEvents (fed : List Bytes) : Option Bool :=
  if .errorResponse ∈ w.events fed then none else some (decide (.readyForQuery ∈ w.events fed))

/-- The loop of `backend_authenticate`. -/
def authLoop : Nat → Bytes → AuthState → Option AuthState
  | 0, _, _ => none
  | rounds + 1, inbox, s =>
      match readMsg inbox 8192 with
      | (_, none) => none
      | (inbox, some m) =>
          match authRound cr env user password s m with
          | none => none
          | some s =>
              match authEvents w (s.trace.map AuthRound.msg) with
              | none => none
              | some true => some s
              | some false => authLoop rounds inbox s

/-- `backend_authenticate` on what the server sends: the rounds of a login that succeeds. -/
def backendAuthenticate (database : Bytes) (startupWritten : Bool) (inbox : Bytes) :
    Option (List AuthRound) :=
  match w.startup user database with
  | none => none
  | some out =>
      if out = [] ∨ startupWritten = false then none
      else (authLoop cr w env user password 64 inbox ⟨.zero, false, []⟩).map AuthState.trace

end

/-- The exchange a history is in: the request that opened it, and the last challenge in it. -/
inductive Exchange where
  | none
  | asked (ask : AuthRound)
  | answered (ask cont : AuthRound)

/-- A request opens a new exchange, and a challenge belongs to the one that is open. -/
def Exchange.next (x : Exchange) (r : AuthRound) : Exchange :=
  if authType r.msg = some authSasl then .asked r
  else if authType r.msg = some authSaslCont then
    match x with
    | .none => .none
    | .asked ask => .answered ask r
    | .answered ask _ => .answered ask r
  else x

def exchangeOf (trace : List AuthRound) : Exchange := trace.foldl Exchange.next .none

theorem exchangeOf_concat (trace : List AuthRound) (r : AuthRound) :
    exchangeOf (trace ++ [r]) = (exchangeOf trace).next r := List.foldl_concat ..

section

variable (cr : Crypto) (password : Bytes)

/-- The final message of an exchange proves that the server knows the password: its signature is the
code of what was sent and received, under the key that the challenge and the password give. -/
def Proves (ask cont : AuthRound) (final : Bytes) : Prop :=
  ∃ bare without proof key signature,
    ask.sent = some (saslInitial (ascii "n,," ++ bare)) ∧
    cont.sent = some (authFrame (without ++ ascii ",p=" ++ proof)) ∧
    serverKeyOf cr password (cString (authPayload cont.msg)) = some key ∧
    hmacSha256 cr key (bare ++ ascii "," ++ cString (authPayload cont.msg) ++ ascii "," ++ without) =
      some signature ∧
    signatureOf cr (cString (authPayload final)) = some signature

/-- Before any AuthenticationOk, a final message closes an exchange with a challenge in it. -/
def Closes (P : AuthRound → AuthRound → Bytes → Prop) (trace : List AuthRound) : Prop :=
  ∃ before final after, trace = before ++ final :: after ∧
    (∀ r ∈ before, authType r.msg ≠ some authOk) ∧ authType final.msg = some authSaslFinal ∧
    ∃ ask cont, exchangeOf before = .answered ask cont ∧ P ask cont final.msg

/-- The server is authenticated before it accepts the client. -/
def MutualAuth (trace : List AuthRound) : Prop := Closes (Proves cr password) trace

/-- The server sends its final message where it belongs, whatever stands in it. -/
def InOrder (trace : List AuthRound) : Prop := Closes (fun _ _ _ => True) trace

/-! ### The context follows the exchange -/

/-- The request was answered with the client-first message that the context keeps. -/
def Opened (ask : AuthRound) (s : Scram) : Prop :=
  ask.sent = some (saslInitial (ascii "n,," ++ s.clientFirstBare))

/-- The key and the message of the context are those of the challenge. -/
structure Challenged (cont : AuthRound) (s : Scram) : Prop where
  sent : ∃ proof, cont.sent = some (authFrame (finalWithoutProof s.serverNonce ++ ascii ",p=" ++ proof))
  key : serverKeyOf cr password (cString (authPayload cont.msg)) = some s.serverKey
  message : s.authMessage = s.clientFirstBare ++ ascii "," ++ cString (authPayload cont.msg) ++
    ascii "," ++ finalWithoutProof s.serverNonce

/-- What the context holds in each stage of an exchange. -/
def InStage (s : Scram) (active : Bool) : Exchange → Prop
  | .none => active = false
  | .asked ask => active = true ∧ Opened ask s
  | .answered ask cont => active = true ∧ Opened ask s ∧ Challenged cr password cont s

variable {cr password}

/-- What was answered to a message that the login survived, by its type. -/
theorem authAnswer_cases {env : AuthEnv} {user : Bytes} {s : AuthState} {m : Bytes} {scram : Scram}
    {active : Bool} {sent : Option Bytes}
    (h : authAnswer cr env user password s m = some (scram, active, sent)) :
    (authType m = some authSasl ∧ active = true ∧
        sent = some (saslInitial (ascii "n,," ++ scram.clientFirstBare))) ∨
      (authType m = some authSaslCont ∧ s.scramActive = true ∧ active = true ∧
        scram.clientFirstBare = s.scram.clientFirstBare ∧ Challenged cr password ⟨m, sent⟩ scram) ∨
      (authType m ≠ some authSasl ∧ (authType m = some authSaslCont → s.scramActive = false) ∧
        scram = s.scram ∧ active = s.scramActive) := by
  -- the context stays as it is
  have hkeep : ∀ {sent' : Option Bytes}, authType m ≠ some authSasl →
      (authType m = some authSaslCont → s.scramActive = false) →
      (s.scram, s.scramActive, sent') = (scram, active, sent) →
      authType m ≠ some authSasl ∧ (authType m = some authSaslCont → s.scramActive = false) ∧
        scram = s.scram ∧ active = s.scramActive := by
    rintro sent' hsasl hcont ⟨⟩
    exact ⟨hsasl, hcont, rfl, rfl⟩
  unfold authAnswer at h
  cases htype : authType m with
  | none =>
      rw [htype] at h hkeep
      exact Or.inr (Or.inr (hkeep nofun nofun (Option.some.inj h)))
  | some type =>
      rw [htype] at h hkeep
      simp only [ne_eq, Option.some.injEq] at h hkeep ⊢
      by_cases hclear : type = authCleartext
      · rw [if_pos hclear] at h
        split at h
        · cases h
        · subst hclear
          exact Or.inr (Or.inr (hkeep (by decide) (fun h => absurd h (by decide))
            (Option.some.inj h)))
      · rw [if_neg hclear] at h
        by_cases hsasl : type = authSasl
        · rw [if_pos hsasl] at h
          split at h
          · simp only [Option.bind_eq_bind, Option.bind_eq_some_iff, Option.pure_def,
              Option.some.injEq, Prod.mk.injEq] at h
            obtain ⟨s₀, hinit, ⟨s₁, gs2⟩, hfirst, rfl, rfl, rfl⟩ := h
            exact Or.inl ⟨hsasl, rfl, by rw [scramClientFirst_spec hinit hfirst]⟩
          · cases h
        · rw [if_neg hsasl] at h
          by_cases hcont : type = authSaslCont ∧ s.scramActive = true
          · rw [if_pos hcont] at h
            split at h
            · cases h
            · simp only [Option.bind_eq_bind, Option.bind_eq_some_iff, Option.pure_def,
                Option.some.injEq, Prod.mk.injEq] at h
              obtain ⟨s₀, hhandle, final, hfinal, rfl, rfl, rfl⟩ := h
              obtain ⟨hkey, hbare, hmessage⟩ := scramHandleServerFirst_spec hhandle
              obtain ⟨proof, rfl⟩ := scramClientFinal_spec hfinal
              exact Or.inr (Or.inl ⟨hcont.1, hcont.2, rfl, hbare, ⟨proof, rfl⟩, hkey,
                by rw [hmessage, hbare]⟩)
          · rw [if_neg hcont] at h
            have hinactive : type = authSaslCont → s.scramActive = false := fun heq =>
              Bool.eq_false_iff.mpr fun hactive => hcont ⟨heq, hactive⟩
            refine Or.inr (Or.inr ?_)
            split at h
            · split at h
              · cases h
              · split at h
                · exact hkeep hsasl hinactive (Option.some.inj h)
                · cases h
            · exact hkeep hsasl hinactive (Option.some.inj h)

theorem authAnswer_verified {env : AuthEnv} {user : Bytes} {s : AuthState} {m : Bytes}
    {r : Scram × Bool × Option Bytes} (h : authAnswer cr env user password s m = some r)
    (htype : authType m = some authSaslFinal) (hactive : s.scramActive = true) :
    scramVerifyServerFinal cr s.scram (cString (authPayload m)) = true := by
  unfold authAnswer at h
  rw [htype] at h
  have hne : authSaslFinal ≠ authCleartext ∧ authSaslFinal ≠ authSasl ∧
      authSaslFinal ≠ authSaslCont := by decide
  simp only [hne.1, hne.2.1, hne.2.2, hactive, if_false, if_true, false_and, and_self] at h
  split at h
  · cases h
  · split at h
    · assumption
    · cases h

/-- The context follows the exchange. -/
theorem authAnswer_stage {env : AuthEnv} {user : Bytes} {s : AuthState} {m : Bytes} {scram : Scram}
    {active : Bool} {sent : Option Bytes} {x : Exchange}
    (h : authAnswer cr env user password s m = some (scram, active, sent))
    (hx : InStage cr password s.scram s.scramActive x) :
    InStage cr password scram active (x.next ⟨m, sent⟩) := by
  rcases authAnswer_cases h with ⟨htype, rfl, hsent⟩ | ⟨htype, hactive, rfl, hbare, hcont⟩ |
    ⟨hsasl, hinactive, rfl, rfl⟩
  · unfold Exchange.next
    rw [if_pos htype]
    exact ⟨rfl, hsent⟩
  · have hne : authType m ≠ some authSasl := by
      rw [htype]
      decide
    unfold Exchange.next
    rw [if_neg hne, if_pos htype]
    cases x with
    | none => cases hactive.symm.trans hx
    | asked ask =>
        refine ⟨rfl, ?_, hcont⟩
        rw [Opened, hbare]
        exact hx.2
    | answered ask cont =>
        refine ⟨rfl, ?_, hcont⟩
        rw [Opened, hbare]
        exact hx.2.1
  · unfold Exchange.next
    rw [if_neg hsasl]
    split
    · rename_i htype
      have hoff := hinactive htype
      -- a challenge without an exchange
      cases x with
      | none => exact hx
      | asked ask => cases hoff.symm.trans hx.1
      | answered ask cont => cases hoff.symm.trans hx.1
    · exact hx

/-- What holds of a login so far: its context follows the exchange, and the final messages it has
accepted prove what they should. -/
structure AuthInv (cr : Crypto) (password : Bytes) (s : AuthState) : Prop where
  stage : InStage cr password s.scram s.scramActive (exchangeOf s.trace)
  proves : ∀ before final after, s.trace = before ++ final :: after →
    authType final.msg = some authSaslFinal → ∀ ask cont, exchangeOf before = .answered ask cont →
      Proves cr password ask cont final.msg

theorem AuthInv.round {env : AuthEnv} {user : Bytes} {s s' : AuthState} {m : Bytes}
    (hs : AuthInv cr password s) (h : authRound cr env user password s m = some s') :
    AuthInv cr password s' := by
  unfold authRound at h
  cases hanswer : authAnswer cr env user password s m with
  | none =>
      rw [hanswer] at h
      cases h
  | some r =>
      obtain ⟨scram, active, sent⟩ := r
      rw [hanswer] at h
      dsimp only at h
      split at h
      · cases h
      · cases h
        refine ⟨?_, ?_⟩
        · rw [exchangeOf_concat]
          exact authAnswer_stage hanswer hs.stage
        · intro before final after hsplit htype ask cont hx
          rcases List.eq_nil_or_concat after with rfl | ⟨after, last, rfl⟩
          · -- the message of this round
            obtain ⟨rfl, hlast⟩ := List.append_inj' hsplit rfl
            cases hlast
            have hstage := hs.stage
            rw [hx] at hstage
            obtain ⟨hactive, hopened, hcont⟩ := hstage
            obtain ⟨signature, hmac, hsig⟩ :=
              scramVerifyServerFinal_spec (authAnswer_verified hanswer htype hactive)
            obtain ⟨proof, hproof⟩ := hcont.sent
            rw [hcont.message] at hmac
            exact ⟨_, _, proof, _, signature, hopened, hproof, hcont.key, hmac, hsig⟩
          · refine hs.proves before final after ?_ htype ask cont hx
            rw [List.concat_eq_append, ← List.cons_append, ← List.append_assoc] at hsplit
            exact (List.append_inj' hsplit rfl).1

theorem AuthInv.loop {env : AuthEnv} {w : AuthWire} {user : Bytes} {rounds : Nat} {inbox : Bytes}
    {s s' : AuthState} (hs : AuthInv cr password s)
    (h : authLoop cr w env user password rounds inbox s = some s') : AuthInv cr password s' := by
  induction rounds generalizing inbox s with
  | zero => cases h
  | succ rounds ih =>
      rw [authLoop] at h
      split at h
      · cases h
      · split at h
        · cases h
        · rename_i s₁ hround
          have hs₁ := hs.round hround
          split at h
          · cases h
          · exact Option.some.inj h ▸ hs₁
          · exact ih hs₁ h

theorem authInv_start : AuthInv cr password ⟨.zero, false, []⟩ where
  stage := rfl
  proves := fun before final after h => by simp at h

/-- A login that succeeds although it was asked for a SASL exchange has authenticated the server
exactly if the server sent its final message in time, after a challenge of the same exchange. -/
theorem backendAuthenticate_mutual_iff (cr : Crypto) (w : AuthWire) (env : AuthEnv)
    (user password database : Bytes) (startupWritten : Bool) (inbox : Bytes) (trace : List AuthRound)
    (hlogin : backendAuthenticate cr w env user password database startupWritten inbox = some trace)
    (_hasked : ∃ r ∈ trace, authType r.msg = some authSasl) :
    MutualAuth cr password trace ↔ InOrder trace := by
  constructor
  · rintro ⟨before, final, after, hsplit, hok, htype, ask, cont, hx, -⟩
    exact ⟨before, final, after, hsplit, hok, htype, ask, cont, hx, trivial⟩
  · rintro ⟨before, final, after, hsplit, hok, htype, ask, cont, hx, -⟩
    unfold backendAuthenticate at hlogin
    split at hlogin
    · cases hlogin
    · split at hlogin
      · cases hlogin
      · obtain ⟨s, hloop, rfl⟩ := Option.map_eq_some_iff.mp hlogin
        have hinv := authInv_start.loop hloop
        exact ⟨before, final, after, hsplit, hok, htype, ask, cont, hx,
          hinv.proves before final after hsplit htype ask cont hx⟩

end

/-! ### Two logins -/

/-- A wire library that reports the last message. -/
def pgAuthWire : AuthWire where
  startup := fun user database =>
    let fields := ascii "user" ++ 0 :: user ++ 0 :: ascii "database" ++ 0 :: database ++ [0, 0]
    some (Framing.putBe32 (8 + fields.length) ++ Framing.putBe32 196608 ++ fields)
  events := fun fed =>
    match fed.getLast?.bind Framing.typeOf with
    | some t =>
        if t = msgReadyForQuery then [.readyForQuery]
        else if t = msgErrorResponse then [.errorResponse]
        else [.other]
    | none => []

/-- A network without failures, and a random generator that counts. -/
def calmEnv : AuthEnv where
  write := fun _ => true
  random := fun _ => some ((List.range 24).map UInt8.ofNat)

/-- A message of the server about the login. -/
def authMsg (type : Nat) (payload : Bytes) : Bytes :=
  WirePg.frame 82 (Framing.putBe32 type ++ payload)

def saslOffer : Bytes := authMsg authSasl (ascii "SCRAM-SHA-256" ++ [0, 0])

def loginDone : Bytes := authMsg authOk [] ++ WirePg.frame msgReadyForQuery [73]

/-- The lowest `len` bytes of a number, most significant first. -/
def bytesBe (len n : Nat) : Bytes := (List.range len).map fun i => UInt8.ofNat (n / 256 ^ (len - 1 - i))

def sampleServerFirst : Bytes :=
  ascii "r=0123456789abcdefghijklmn-server,s=W22ZaJ0SNY7soEsUEjb6gQ==,i=4096"

def sampleSalted : Bytes :=
  bytesBe 32 0xc4a49510323ab4f952cac1fa99441939e78ea74d6be81ddf7096e87513dc615d

def sampleClientKey : Bytes :=
  bytesBe 32 0xa60fc923d67e8644a92d16b96eda5ef4656b0c725c484374be25535576996e8b

def sampleStoredKey : Bytes :=
  bytesBe 32 0x586e5df283e6dceb5c3e791d8b8528ec191e664045ce971792e2e6b5bb13e2a6

def sampleServerKey : Bytes :=
  bytesBe 32 0xc1f3cbc1c13a9d35a14c0990eed97629ea225863e566a4314ab99f3f00e5d9d5

def sampleAuthMessage : Bytes :=
  ascii "n=app,r=0123456789abcdefghijklmn," ++ sampleServerFirst ++
    ascii ",c=biws,r=0123456789abcdefghijklmn-server"

def sampleSignature : Bytes :=
  bytesBe 32 0xf12af3e5d1d055b41e342a64ee978781d1103232c841ff83c71c28fa3ae6f3ff

/-- The values of the cryptographic functions in one exchange with the password `pencil`. -/
def sampleCrypto : Crypto where
  hmac := fun key data =>
    if key = sampleSalted ∧ data = ascii "Client Key" then some sampleClientKey
    else if key = sampleSalted ∧ data = ascii "Server Key" then some sampleServerKey
    else if key = sampleStoredKey ∧ data = sampleAuthMessage then
      some (bytesBe 32 0x81d69c34f1cca7ead5747fe8b1ac2bc8e96045f0061de4d2b8dd8bb226840e77)
    else if key = sampleServerKey ∧ data = sampleAuthMessage then some sampleSignature
    else none
  digest := fun data => if data = sampleClientKey then some sampleStoredKey else none
  pbkdf2 := fun password salt iterations =>
    if password = ascii "pencil" ∧ salt = bytesBe 16 0x5b6d99689d12358eeca04b141236fa81 ∧
        iterations = 4096 then some sampleSalted
    else none
  encodeBlock := fun data =>
    if data = bytesBe 32 0x27d9551727b221ae7c596951df76753c8c0b49825a55a7a606f8d8e7501d60fc then
      ascii "J9lVFyeyIa58WWlR33Z1PIwLSYJaVaemBvjY51AdYPw="
    else []
  decodeBlock := fun s =>
    if s = ascii "W22ZaJ0SNY7soEsUEjb6gQ==" then
      some (bytesBe 18 0x5b6d99689d12358eeca04b141236fa810000)
    else if s = ascii "8Srz5dHQVbQeNCpk7peHgdEQMjLIQf+Dxxwo+jrm8/8=" then
      some (sampleSignature ++ [0])
    else none

/-- What a server sends that knows the password. -/
def honestServer : Bytes :=
  saslOffer ++ authMsg authSaslCont sampleServerFirst ++
    authMsg authSaslFinal (ascii "v=8Srz5dHQVbQeNCpk7peHgdEQMjLIQf+Dxxwo+jrm8/8=") ++ loginDone

/-- What a server sends that does not: it offers the exchange and lets the client in. -/
def rogueServer : Bytes := saslOffer ++ loginDone

/-- The login of user `app` to one of these servers. -/
def sampleLogin (server : Bytes) : Option (List AuthRound) :=
  backendAuthenticate sampleCrypto pgAuthWire calmEnv (ascii "app") (ascii "pencil") (ascii "db") true
    server

/-- The rounds of a login to the server that knows the password. -/
def honestTrace : List AuthRound :=
  [⟨saslOffer, some (saslInitial (ascii "n,,n=app,r=0123456789abcdefghijklmn"))⟩,
    ⟨authMsg authSaslCont sampleServerFirst, some (authFrame (ascii
      "c=biws,r=0123456789abcdefghijklmn-server,p=J9lVFyeyIa58WWlR33Z1PIwLSYJaVaemBvjY51AdYPw="))⟩,
    ⟨authMsg authSaslFinal (ascii "v=8Srz5dHQVbQeNCpk7peHgdEQMjLIQf+Dxxwo+jrm8/8="), none⟩,
    ⟨authMsg authOk [], none⟩, ⟨WirePg.frame msgReadyForQuery [73], none⟩]

theorem honest_login : sampleLogin honestServer = some honestTrace := by decide +kernel

/-- An honest login authenticates the server. -/
theorem honest_login_mutual : MutualAuth sampleCrypto (ascii "pencil") honestTrace := by
  refine (backendAuthenticate_mutual_iff sampleCrypto pgAuthWire calmEnv (ascii "app") (ascii "pencil")
    (ascii "db") true honestServer honestTrace honest_login ?_).mpr ?_
  · exact ⟨_, List.mem_cons_self, by decide⟩
  · exact ⟨honestTrace.take 2, honestTrace[2], honestTrace.drop 3, rfl, by decide, by decide, _, _, rfl,
      trivial⟩

/-- The rounds of a login to the server that skips the proof. -/
def rogueTrace : List AuthRound :=
  [⟨saslOffer, some (saslInitial (ascii "n,,n=app,r=0123456789abcdefghijklmn"))⟩,
    ⟨authMsg authOk [], none⟩, ⟨WirePg.frame msgReadyForQuery [73], none⟩]

/-- A server that was never checked is accepted. -/
theorem rogue_login : sampleLogin rogueServer = some rogueTrace ∧
    (∃ r ∈ rogueTrace, authType r.msg = some authSasl) ∧
    ¬ MutualAuth sampleCrypto (ascii "pencil") rogueTrace := by
  refine ⟨by decide +kernel, ⟨_, List.mem_cons_self, by decide⟩, ?_⟩
  rintro ⟨before, final, after, hsplit, -, htype, -⟩
  have hmem : final ∈ rogueTrace := hsplit ▸ List.mem_append_right before List.mem_cons_self
  have hnone : ∀ r ∈ rogueTrace, authType r.msg ≠ some authSaslFinal := by decide
  exact hnone final hmem htype
