import PqProxy.PoolSockets
import PqProxy.Authenticate
import PqProxy.PoolSteps

/-! The login to a backend, one system call after the other: which logins get through does not depend on how
the kernel cuts the stream, and what is written is a sequence of whole messages. -/

open Transfers (Line movedBy)

section

variable (cr : Crypto) (w : AuthWire) (env : AuthEnv) (user password : Bytes)

/-- No write fails. -/
def AuthEnv.writable (env : AuthEnv) : AuthEnv := { env with write := fun _ => true }

/-- What a round of the login writes, if anything. -/
def writeAnswer (l : Line) : Option Bytes → Line × Bool
  | none => (l, true)
  | some bs => l.writeAll bs

/-- The loop of `backend_authenticate`, call by call. -/
def authCalls : Nat → Line → AuthState → Option (Line × AuthState)
  | 0, _, _ => none
  | rounds + 1, l, s =>
      match l.readMsg 8192 with
      | (_, none) => none
      | (l, some m) =>
          match authAnswer cr env user password s m with
          | none => none
          | some (scram, active, sent) =>
              match writeAnswer l sent with
              | (_, false) => none
              | (l, true) =>
                  let s : AuthState := ⟨scram, active, s.trace ++ [⟨m, sent⟩]⟩
                  match authEvents w (s.trace.map AuthRound.msg) with
                  | none => none
                  | some true => some (l, s)
                  | some false => authCalls rounds l s

/-- `backend_authenticate`, call by call: the line when the login is over, and its rounds. -/
def authenticateCalls (database : Bytes) (l : Line) : Option (Line × List AuthRound) :=
  match w.startup user database with
  | none => none
  | some out =>
      if out = [] then none
      else
        match l.writeAll (out.take 8192) with
        | (_, false) => none
        | (l, true) =>
            (authCalls cr w env user password 64 l ⟨.zero, false, []⟩).map fun r => (r.1, r.2.trace)

/-- What the rounds of a login wrote, and what they read. -/
def sentIn (trace : List AuthRound) : Bytes := (trace.filterMap AuthRound.sent).flatten

def readIn (trace : List AuthRound) : Bytes := (trace.map AuthRound.msg).flatten

variable {cr w env user password}

/-- Every round read a whole message, and what it wrote is one. -/
def WellFramed (trace : List AuthRound) : Prop :=
  ∀ r ∈ trace, Framing.Framed r.msg ∧ ∀ bs, r.sent = some bs → Framing.Framed bs

theorem framed_authFrame {body : Bytes} (h : body.length < 4294967292) : Framing.Framed (authFrame body) := by
  have hframe : authFrame body = WirePg.frame 112 body := by
    unfold authFrame WirePg.frame
    rw [Nat.add_comm]
  rw [hframe]
  exact WirePg.framed_frame 112 h

/-- Everything that the login answers fits its buffers, so its length is in the header. -/
theorem framed_authAnswer {s : AuthState} {m : Bytes} {scram : Scram} {active : Bool} {bs : Bytes}
    (h : authAnswer cr env user password s m = some (scram, active, some bs)) : Framing.Framed bs := by
  unfold authAnswer at h
  split at h
  · cases h
  · dsimp only at h
    split at h
    · split at h
      · cases h
      · rename_i hfits
        cases h
        refine framed_authFrame ?_
        rw [List.length_append, List.length_singleton]
        omega
    · split at h
      · split at h
        · simp only [Option.bind_eq_bind, Option.bind_eq_some_iff, Option.pure_def, Option.some.injEq,
            Prod.mk.injEq] at h
          obtain ⟨s₀, -, ⟨s₁, gs2⟩, hfirst, -, -, rfl⟩ := h
          refine framed_authFrame ?_
          have hgs2 : gs2.length < 320 := by
            simp only [scramClientFirst, Option.bind_eq_bind, Option.bind_eq_some_iff, Option.pure_def,
              Option.some.injEq, Prod.mk.injEq] at hfirst
            obtain ⟨bare, -, text, htext, -, rfl⟩ := hfirst
            obtain ⟨rfl, hlt⟩ := fitting_eq htext
            exact hlt
          have hname : (ascii "SCRAM-SHA-256").length = 13 := by decide
          simp only [List.length_append, List.length_cons, Framing.putBe32, List.length_nil, hname]
          omega
        · cases h
      · split at h
        · split at h
          · cases h
          · simp only [Option.bind_eq_bind, Option.bind_eq_some_iff, Option.pure_def, Option.some.injEq,
              Prod.mk.injEq] at h
            obtain ⟨s₀, -, final, hfinal, -, -, rfl⟩ := h
            refine framed_authFrame ?_
            simp only [scramClientFinal, Option.bind_eq_bind, Option.bind_eq_some_iff] at hfinal
            obtain ⟨sig, -, proof, -, hfit⟩ := hfinal
            have hlt := (fitting_eq hfit).2
            rw [← (fitting_eq hfit).1] at hlt
            omega
        · split at h
          · split at h
            · cases h
            · split at h
              · cases h
              · cases h
          · cases h

/-- A message that was read is the front of the stream. -/
theorem append_of_readMsg {inbox rest m : Bytes} {cap : Nat} (h : readMsg inbox cap = (rest, some m)) :
    inbox = m ++ rest := by
  unfold readMsg at h
  split at h
  · cases h
  · split at h
    · cases h
    · split at h
      · cases h
      · split at h
        · cases h
        · cases h
          exact (List.take_append_drop ..).symm

/-- What a round wrote when it got through. -/
theorem writeAnswer_some {l l' : Line} {sent : Option Bytes} (h : writeAnswer l sent = (l', true)) :
    l'.outbox = l.outbox ++ sent.getD [] ∧ l'.inbox = l.inbox := by
  cases sent with
  | none =>
      cases h
      exact ⟨(List.append_nil _).symm, rfl⟩
  | some bs =>
      obtain ⟨sent, -, houtbox, hinbox, -, hend⟩ := Transfers.writeAll_spec l bs
      have hwrite : l.writeAll bs = (l', true) := h
      rw [hwrite] at houtbox hinbox hend
      rw [hend.1] at houtbox
      exact ⟨houtbox, hinbox⟩

theorem sentIn_cons (r : AuthRound) (trace : List AuthRound) :
    sentIn (r :: trace) = r.sent.getD [] ++ sentIn trace := by
  unfold sentIn
  cases hsent : r.sent with
  | none =>
      rw [List.filterMap_cons_none hsent]
      rfl
  | some bs =>
      rw [List.filterMap_cons_some hsent]
      rfl

/-- One round of a login that gets through: it reads a message, answers it, and is over or goes on. -/
theorem authCalls_succ {rounds : Nat} {l : Line} {s : AuthState} {x : Line × AuthState}
    (h : authCalls cr w env user password (rounds + 1) l s = some x) :
    ∃ l₁ m sent l₂, ∃ s₁ : AuthState, l.readMsg 8192 = (l₁, some m) ∧
      authAnswer cr env user password s m = some (s₁.scram, s₁.scramActive, sent) ∧
      writeAnswer l₁ sent = (l₂, true) ∧ s₁.trace = s.trace ++ [⟨m, sent⟩] ∧
      (authEvents w (s₁.trace.map AuthRound.msg) = some true ∧ x = (l₂, s₁) ∨
        authEvents w (s₁.trace.map AuthRound.msg) = some false ∧
          authCalls cr w env user password rounds l₂ s₁ = some x) := by
  rw [authCalls] at h
  split at h
  · cases h
  · rename_i l₁ m hread
    split at h
    · cases h
    · rename_i scram active sent hanswer
      split at h
      · cases h
      · rename_i l₂ hwrite
        refine ⟨l₁, m, sent, l₂, ⟨scram, active, s.trace ++ [⟨m, sent⟩]⟩, hread, hanswer, hwrite, rfl, ?_⟩
        dsimp only at h
        split at h
        · cases h
        · rename_i hevents
          exact Or.inl ⟨hevents, (Option.some.inj h).symm⟩
        · rename_i hevents
          exact Or.inr ⟨hevents, h⟩

/-- The same round in the model. -/
theorem authLoop_succ {rounds : Nat} {inbox inbox' m : Bytes} {sent : Option Bytes} {s s₁ : AuthState}
    (hread : readMsg inbox 8192 = (inbox', some m))
    (hanswer : authAnswer cr env user password s m = some (s₁.scram, s₁.scramActive, sent))
    (htrace : s₁.trace = s.trace ++ [⟨m, sent⟩]) :
    authLoop cr w env.writable user password (rounds + 1) inbox s =
      match authEvents w (s₁.trace.map AuthRound.msg) with
      | none => none
      | some true => some s₁
      | some false =>
          authLoop cr w env.writable user password rounds inbox' s₁ := by
  have hround : authRound cr env.writable user password s m = some s₁ := by
    unfold authRound
    have hsame : authAnswer cr env.writable user password s m =
        authAnswer cr env user password s m := rfl
    rw [hsame, hanswer]
    dsimp only
    rw [if_neg fun hfail => Bool.true_eq_false.mp hfail.2, ← htrace]
  rw [authLoop, hread]
  dsimp only
  generalize authRound cr env.writable user password s m = r at hround ⊢
  subst hround
  rfl

/-- A login that the calls let through is one of the model, and it took from the stream and wrote what its
rounds tell. -/
theorem authLoop_of_calls (rounds : Nat) {l l' : Line} {s s' : AuthState}
    (h : authCalls cr w env user password rounds l s = some (l', s')) :
    authLoop cr w env.writable user password rounds l.inbox s = some s' ∧
      ∃ trace, s'.trace = s.trace ++ trace ∧ WellFramed trace ∧
        l'.outbox = l.outbox ++ sentIn trace ∧ l.inbox = readIn trace ++ l'.inbox := by
  induction rounds generalizing l s with
  | zero => cases h
  | succ rounds ih =>
      obtain ⟨l₁, m, sent, l₂, s₁, hread, hanswer, hwrite, htrace, hgo⟩ := authCalls_succ h
      obtain ⟨hmsg, hl₁⟩ := readMsg_of_calls hread
      obtain ⟨houtbox, hinbox⟩ := writeAnswer_some hwrite
      have hfront : l.inbox = m ++ l₂.inbox := by
        rw [hinbox]
        exact append_of_readMsg hmsg
      have hback : l₂.outbox = l.outbox ++ sent.getD [] := by
        rw [houtbox, hl₁]
      have hframed : Framing.Framed m ∧ ∀ bs, sent = some bs → Framing.Framed bs := by
        refine ⟨framed_readMsg hmsg, fun bs hbs => ?_⟩
        rw [hbs] at hanswer
        exact framed_authAnswer hanswer
      rw [authLoop_succ hmsg hanswer htrace]
      rcases hgo with ⟨hevents, heq⟩ | ⟨hevents, hlater⟩
      · obtain ⟨rfl, rfl⟩ := Prod.mk.inj heq
        rw [hevents]
        refine ⟨rfl, [⟨m, sent⟩], htrace, fun r hr => ?_, ?_, ?_⟩
        · rw [List.mem_singleton.mp hr]
          exact hframed
        · rw [hback, sentIn_cons]
          exact congrArg (l.outbox ++ ·) (List.append_nil _).symm
        · rw [hfront]
          exact congrArg (· ++ l'.inbox) (List.append_nil m).symm
      · obtain ⟨hloop, trace, htrace', hframed', hout, hin⟩ := ih hlater
        rw [hevents, ← hinbox]
        refine ⟨hloop, ⟨m, sent⟩ :: trace, ?_, fun r hr => ?_, ?_, ?_⟩
        · rw [htrace', htrace, List.append_assoc, List.singleton_append]
        · rcases List.mem_cons.mp hr with rfl | hr
          · exact hframed
          · exact hframed' r hr
        · rw [hout, hback, sentIn_cons, List.append_assoc]
        · rw [hfront, hin, ← List.append_assoc]
          rfl

/-- Some calls write a message. -/
theorem writeAnswer_realised (sent : Option Bytes) (tail : List Transfers.Turn) : ∃ writes,
    ∀ reads inbox outbox, writeAnswer ⟨reads, writes, inbox, outbox⟩ sent =
      (⟨reads, tail, inbox, outbox ++ sent.getD []⟩, true) := by
  cases sent with
  | none => exact ⟨tail, fun _ _ _ => congrArg (fun bs => (Line.mk _ _ _ bs, true)) (List.append_nil _).symm⟩
  | some bs =>
      obtain ⟨writes, hwrites⟩ : ∃ writes, movedBy writes bs.length = some tail := by
        cases bs.length with
        | zero => exact ⟨tail, Transfers.movedBy_zero tail⟩
        | succ n => exact ⟨.moved n :: tail, Transfers.movedBy_moved tail n⟩
      exact ⟨writes, fun reads inbox outbox => Transfers.writeAll_eq _ hwrites⟩

theorem authRound_some {s s₁ : AuthState} {m : Bytes}
    (h : authRound cr env.writable user password s m = some s₁) :
    ∃ sent, authAnswer cr env user password s m = some (s₁.scram, s₁.scramActive, sent) ∧
      s₁.trace = s.trace ++ [⟨m, sent⟩] := by
  unfold authRound at h
  have hsame : authAnswer cr env.writable user password s m = authAnswer cr env user password s m := rfl
  rw [hsame] at h
  split at h
  · cases h
  · rename_i scram active sent hanswer
    split at h
    · cases h
    · cases h
      exact ⟨sent, hanswer, rfl⟩

/-- Every login of the model comes from some calls. -/
theorem authLoop_realised (rounds : Nat) {inbox : Bytes} {s s' : AuthState}
    (h : authLoop cr w env.writable user password rounds inbox s = some s') :
    ∃ reads writes, ∀ outbox, ∃ l',
      authCalls cr w env user password rounds ⟨reads, writes, inbox, outbox⟩ s = some (l', s') := by
  induction rounds generalizing inbox s with
  | zero => cases h
  | succ rounds ih =>
      rw [authLoop] at h
      split at h
      · cases h
      · rename_i inbox' m hmsg
        split at h
        · cases h
        · rename_i s₁ hround
          obtain ⟨sent, hanswer, htrace⟩ := authRound_some hround
          -- the calls of this round, before those of the later ones
          have hstep : ∀ tailReads tailWrites, ∃ reads writes, ∀ outbox,
              authCalls cr w env user password (rounds + 1) ⟨reads, writes, inbox, outbox⟩ s =
                match authEvents w (s₁.trace.map AuthRound.msg) with
                | none => none
                | some true => some (⟨tailReads, tailWrites, inbox', outbox ++ sent.getD []⟩, s₁)
                | some false => authCalls cr w env user password rounds
                    ⟨tailReads, tailWrites, inbox', outbox ++ sent.getD []⟩ s₁ := by
            intro tailReads tailWrites
            obtain ⟨reads, hreads⟩ := readMsg_realised hmsg tailReads
            obtain ⟨writes, hwrites⟩ := writeAnswer_realised sent tailWrites
            refine ⟨reads, writes, fun outbox => ?_⟩
            have hs₁ : (⟨s₁.scram, s₁.scramActive, s.trace ++ [⟨m, sent⟩]⟩ : AuthState) = s₁ := by
              rw [← htrace]
            rw [authCalls, hreads]
            dsimp only
            rw [hanswer]
            dsimp only
            rw [hwrites]
            dsimp only
            rw [hs₁, ← htrace]
          cases hevents : authEvents w (s₁.trace.map AuthRound.msg) with
          | none =>
              rw [hevents] at h
              cases h
          | some ended =>
              rw [hevents] at h hstep
              cases ended with
              | true =>
                  obtain ⟨reads, writes, hcalls⟩ := hstep [] []
                  cases h
                  exact ⟨reads, writes, fun outbox => ⟨_, hcalls outbox⟩⟩
              | false =>
                  obtain ⟨tailReads, tailWrites, hlater⟩ := ih h
                  obtain ⟨reads, writes, hcalls⟩ := hstep tailReads tailWrites
                  refine ⟨reads, writes, fun outbox => ?_⟩
                  obtain ⟨l', hl'⟩ := hlater (outbox ++ sent.getD [])
                  exact ⟨l', (hcalls outbox).trans hl'⟩

/-- A login gets through some sequence of calls if and only if the model lets it through, and its rounds are
the same: they do not depend on how the stream was cut. -/
theorem login_outcomes (database inbox : Bytes) (trace : List AuthRound) :
    (∃ reads writes l', authenticateCalls cr w env user password database ⟨reads, writes, inbox, []⟩ =
      some (l', trace)) ↔
      backendAuthenticate cr w env.writable user password database true inbox = some trace := by
  unfold authenticateCalls backendAuthenticate
  cases hstartup : w.startup user database with
  | none =>
      refine iff_of_false ?_ ?_
      · rintro ⟨reads, writes, l', h⟩
        cases h
      · intro h
        cases h
  | some out =>
      dsimp only
      by_cases hnil : out = []
      · rw [if_pos (Or.inl hnil)]
        refine iff_of_false ?_ ?_
        · rintro ⟨reads, writes, l', h⟩
          rw [if_pos hnil] at h
          cases h
        · intro h
          cases h
      · rw [if_neg (fun h => h.elim hnil Bool.true_eq_false.mp)]
        constructor
        · rintro ⟨reads, writes, l', h⟩
          rw [if_neg hnil] at h
          obtain ⟨sent, -, -, hinbox, -, -⟩ :=
            Transfers.writeAll_spec ⟨reads, writes, inbox, []⟩ (out.take 8192)
          split at h
          · cases h
          · rename_i l₁ hwrite
            rw [hwrite] at hinbox
            obtain ⟨r, hcalls, hr⟩ := Option.map_eq_some_iff.mp h
            obtain ⟨hloop, -⟩ := authLoop_of_calls 64 hcalls
            have hl₁ : l₁.inbox = inbox := hinbox
            rw [hl₁] at hloop
            rw [hloop]
            exact congrArg some (congrArg Prod.snd hr)
        · intro h
          obtain ⟨s', hloop, rfl⟩ := Option.map_eq_some_iff.mp h
          obtain ⟨reads, tail, hcalls⟩ := authLoop_realised 64 hloop
          obtain ⟨writes, hwrites⟩ := writeAnswer_realised (some (out.take 8192)) tail
          obtain ⟨l', hl'⟩ := hcalls ([] ++ (some (out.take 8192)).getD [])
          refine ⟨reads, writes, l', ?_⟩
          have hwrite : (Line.mk reads writes inbox []).writeAll (out.take 8192) =
              (⟨reads, tail, inbox, [] ++ (some (out.take 8192)).getD []⟩, true) := hwrites reads inbox []
          rw [if_neg hnil, hwrite]
          dsimp only
          rw [hl']
          rfl

/-- What a login writes behind its startup message is a sequence of whole messages, one for each answer, and what
it takes from the stream is one whole message for each round. -/
theorem login_conversation {database : Bytes} {l l' : Line} {trace : List AuthRound}
    (h : authenticateCalls cr w env user password database l = some (l', trace)) :
    ∃ out, w.startup user database = some out ∧
      l'.outbox = l.outbox ++ out.take 8192 ++ sentIn trace ∧
      Framing.split (sentIn trace) = trace.filterMap AuthRound.sent ∧
      l.inbox = readIn trace ++ l'.inbox ∧ Framing.split (readIn trace) = trace.map AuthRound.msg := by
  unfold authenticateCalls at h
  split at h
  · cases h
  · rename_i out hstartup
    split at h
    · cases h
    · obtain ⟨sent, -, houtbox, hinbox, -, hend⟩ := Transfers.writeAll_spec l (out.take 8192)
      split at h
      · cases h
      · rename_i l₁ hwrite
        rw [hwrite] at houtbox hinbox hend
        obtain ⟨r, hcalls, hr⟩ := Option.map_eq_some_iff.mp h
        obtain ⟨-, trace', htrace, hframed, hout, hin⟩ := authLoop_of_calls 64 hcalls
        obtain ⟨rfl, rfl⟩ := Prod.mk.inj hr
        rw [List.nil_append] at htrace
        rw [htrace]
        have hstart : l₁.outbox = l.outbox ++ out.take 8192 := by
          rw [houtbox, hend.1]
        refine ⟨out, hstartup, by rw [hout, hstart], Framing.split_flatten ?_, hinbox.symm.trans hin,
          Framing.split_flatten ?_⟩
        · intro bs hbs
          obtain ⟨round, hround, hsent⟩ := List.mem_filterMap.mp hbs
          exact (hframed round hround).2 bs hsent
        · intro m hm
          obtain ⟨round, hround, rfl⟩ := List.mem_map.mp hm
          exact (hframed round hround).1

/-- The stream of a server, byte by byte and with an interruption before each. -/
def bytewise (server : Bytes) : Line :=
  ⟨(List.replicate server.length [.interrupted, .moved 0]).flatten, List.replicate 400 (.moved 0), server, []⟩

theorem login_conversation_bytewise :
    Framing.split (sentIn honestTrace) = honestTrace.filterMap AuthRound.sent ∧
      Framing.split (readIn honestTrace) = honestTrace.map AuthRound.msg := by
  have hlogin : (authenticateCalls sampleCrypto pgAuthWire calmEnv (ascii "app") (ascii "pencil") (ascii "db")
      (bytewise honestServer)).map Prod.snd = some honestTrace := by decide +kernel
  obtain ⟨⟨l', trace⟩, h, rfl⟩ := Option.map_eq_some_iff.mp hlogin
  obtain ⟨out, -, -, hsent, -, hread⟩ := login_conversation h
  exact ⟨hsent, hread⟩

end
