import PqProxy.Loop

/-! The output side of a connection: what the functions that move replies to the send buffer and
prepare frontend requests may change. Everything else of the connection stays as it is. -/

/-- Entries that the output side writes to the history. -/
def Obs.IsIo : Obs → Prop
  | .queued _ | .refused _ | .noSqe | .unarmed => True
  | _ => False

/-- The bytes that were copied to the send buffer, in order. -/
def wireBytes (log : List Obs) : Bytes :=
  log.flatMap fun
    | .queued data => data
    | _ => []

@[simp] theorem wireBytes_nil : wireBytes [] = [] := rfl

@[simp] theorem wireBytes_append (l m : List Obs) :
    wireBytes (l ++ m) = wireBytes l ++ wireBytes m := List.flatMap_append ..

/-- Something did not fit the send buffer or the submission queue. -/
def Overflowed (log : List Obs) : Prop := .noSqe ∈ log ∨ ∃ data, .refused data ∈ log

theorem Overflowed.append_left {l : List Obs} (h : Overflowed l) (m : List Obs) :
    Overflowed (l ++ m) := by
  rcases h with h | ⟨data, h⟩
  · exact Or.inl (List.mem_append_left m h)
  · exact Or.inr ⟨data, List.mem_append_left m h⟩

/-- An entry that a connection prepares: it carries its slot and its incarnation, and a TLS connection
only polls. -/
structure Own (c : Cell) (r : Request) : Prop where
  slot : r.slot = c.slot
  gen : r.gen = c.conn.gen
  plain : r.op = .recv ∨ r.op = .send → c.conn.ssl = false
  accept : r.op ≠ .accept

theorem Own.of_eq {a b : Cell} {r : Request} (h : Own b r) (hslot : b.slot = a.slot)
    (hgen : b.conn.gen = a.conn.gen) (hssl : b.conn.ssl = a.conn.ssl) : Own a r :=
  ⟨h.slot.trans hslot, h.gen.trans hgen, fun hop => hssl ▸ h.plain hop, h.accept⟩

/-- Output that was not sent yet will be: a write is pending, or the poll that is pending waits for
room. -/
def Conn.Flows (c : Conn) : Prop :=
  c.sendOff < c.sendLen →
    if c.ssl = true then c.pollPending = true → c.polledOut = true else c.sendPending = true

/-- What the output side does with the requests that resume sending. -/
structure Sends (c c' : Cell) : Prop where
  flows : .unarmed ∉ c'.conn.log → .noSqe ∉ c'.conn.log → c.conn.Flows → c'.conn.Flows
  sendPending : c.conn.sendPending = true → c'.conn.sendPending = true
  pollPending : c.conn.pollPending = true →
    c'.conn.pollPending = true ∧ c'.conn.polledOut = c.conn.polledOut
  sendEntry : c'.conn.sendPending = true → c.conn.sendPending = true ∨
    ∃ r ∈ c'.sq, Own c r ∧ r.op = .send
  pollEntry : c'.conn.pollPending = true → c.conn.pollPending = true ∨
    ∃ r ∈ c'.sq, Own c r ∧ r.op = .poll ∧ r.pollOut = c'.conn.polledOut

namespace Sends

/-- The fields of the output side are the same. -/
theorem of_same {c c' : Cell} (hsend : c'.conn.sendPending = c.conn.sendPending)
    (hpoll : c'.conn.pollPending = c.conn.pollPending)
    (hout : c'.conn.polledOut = c.conn.polledOut) (hflows : c.conn.Flows → c'.conn.Flows) :
    Sends c c' where
  flows := fun _ _ => hflows
  sendPending := fun h => hsend ▸ h
  pollPending := fun h => ⟨hpoll ▸ h, hout⟩
  sendEntry := fun h => Or.inl (hsend ▸ h)
  pollEntry := fun h => Or.inl (hpoll ▸ h)

theorem trans {a b c : Cell} (h : Sends a b) (k : Sends b c)
    (hown : ∀ r, Own b r → Own a r) (hlog : ∀ o ∈ b.conn.log, o ∈ c.conn.log)
    (hsq : ∀ r ∈ b.sq, r ∈ c.sq) : Sends a c where
  flows := fun harmed hsqe ha => k.flows harmed hsqe
    (h.flows (fun hmem => harmed (hlog _ hmem)) (fun hmem => hsqe (hlog _ hmem)) ha)
  sendPending := k.sendPending ∘ h.sendPending
  pollPending := by
    intro ha
    obtain ⟨hb, hout⟩ := h.pollPending ha
    obtain ⟨hc, hout'⟩ := k.pollPending hb
    exact ⟨hc, hout'.trans hout⟩
  sendEntry := by
    intro hc
    rcases k.sendEntry hc with hb | ⟨r, hr, how, hop⟩
    · rcases h.sendEntry hb with ha | ⟨r, hr, how, hop⟩
      · exact Or.inl ha
      · exact Or.inr ⟨r, hsq r hr, how, hop⟩
    · exact Or.inr ⟨r, hr, hown r how, hop⟩
  pollEntry := by
    intro hc
    rcases k.pollEntry hc with hb | ⟨r, hr, how, hop⟩
    · rcases h.pollEntry hb with ha | ⟨r, hr, how, hop, hout⟩
      · exact Or.inl ha
      · exact Or.inr ⟨r, hsq r hr, how, hop, hout.trans (k.pollPending hb).2.symm⟩
    · exact Or.inr ⟨r, hr, hown r how, hop⟩

/-- The output that is added in between is on its way in the end. -/
theorem of_flags {a b c : Cell} (k : Sends b c) (hsend : b.conn.sendPending = a.conn.sendPending)
    (hpoll : b.conn.pollPending = a.conn.pollPending)
    (hout : b.conn.polledOut = a.conn.polledOut) (hown : ∀ r, Own b r → Own a r)
    (hflows : .unarmed ∉ c.conn.log → .noSqe ∉ c.conn.log → a.conn.Flows → c.conn.Flows) :
    Sends a c where
  flows := hflows
  sendPending := fun h => k.sendPending (hsend ▸ h)
  pollPending := fun h => hout ▸ k.pollPending (hpoll ▸ h)
  sendEntry := fun h => (k.sendEntry h).imp (fun hb => hsend ▸ hb)
    fun ⟨r, hr, how, hop⟩ => ⟨r, hr, hown r how, hop⟩
  pollEntry := fun h => (k.pollEntry h).imp (fun hb => hpoll ▸ hb)
    fun ⟨r, hr, how, hop⟩ => ⟨r, hr, hown r how, hop⟩

end Sends

/-- `c'` differs from `c` on the output side only, where `extra` and then the output of the context
went to the send buffer as far as it was accepted. -/
structure Moved (extra : Bytes) (c c' : Cell) : Prop where
  slot : c'.slot = c.slot
  conn : c'.conn = { c.conn with
    frontend := c'.conn.frontend, sendBuf := c'.conn.sendBuf, sendLen := c'.conn.sendLen,
    sendOff := c'.conn.sendOff, sendPending := c'.conn.sendPending,
    recvPending := c'.conn.recvPending, pollPending := c'.conn.pollPending,
    wantPollOut := c'.conn.wantPollOut, polledOut := c'.conn.polledOut, log := c'.conn.log }
  log : ∃ l, c'.conn.log = c.conn.log ++ l ∧ (∀ o ∈ l, o.IsIo) ∧
    (wireBytes l ++ c'.conn.frontend).Sublist (extra ++ c.conn.frontend) ∧
      ((∀ data, .refused data ∉ l) → wireBytes l ++ c'.conn.frontend = extra ++ c.conn.frontend)
  sq : ∃ new, c'.sq = c.sq ++ new ∧ ∀ r ∈ new, Own c r ∧ r.op ≠ .beSend ∧ r.op ≠ .beRecv

/-- The same, and output that was on its way still is. -/
structure Io (extra : Bytes) (c c' : Cell) : Prop extends Moved extra c c' where
  sends : Sends c c'

namespace Moved

theorem own {extra : Bytes} {c c' : Cell} (h : Moved extra c c') (r : Request) (hr : Own c' r) :
    Own c r :=
  hr.of_eq h.slot (by rw [h.conn]) (by rw [h.conn])

theorem log_mem {extra : Bytes} {c c' : Cell} (h : Moved extra c c') {o : Obs}
    (ho : o ∈ c.conn.log) : o ∈ c'.conn.log := by
  obtain ⟨l, hl, -⟩ := h.log
  rw [hl]
  exact List.mem_append_left l ho

theorem sq_mem {extra : Bytes} {c c' : Cell} (h : Moved extra c c') {r : Request} (hr : r ∈ c.sq) :
    r ∈ c'.sq := by
  obtain ⟨new, hnew, -⟩ := h.sq
  rw [hnew]
  exact List.mem_append_left new hr

theorem trans {extra : Bytes} {a b c : Cell} (h : Moved extra a b) (k : Moved [] b c) :
    Moved extra a c where
  slot := k.slot.trans h.slot
  conn := by
    rw [k.conn, h.conn]
  log := by
    obtain ⟨l, hl, hio, hsub, heq⟩ := h.log
    obtain ⟨m, hm, kio, ksub, keq⟩ := k.log
    refine ⟨l ++ m, by rw [hm, hl, List.append_assoc], ?_, ?_, ?_⟩
    · intro o ho
      rcases List.mem_append.mp ho with h | h
      · exact hio o h
      · exact kio o h
    · rw [wireBytes_append, List.append_assoc]
      exact (List.Sublist.append_left ksub _).trans hsub
    · intro hnone
      have hl' := heq fun data h => hnone data (List.mem_append_left m h)
      have hm' := keq fun data h => hnone data (List.mem_append_right l h)
      rw [wireBytes_append, List.append_assoc, hm', List.nil_append, hl']
  sq := by
    obtain ⟨new, hnew, hall⟩ := h.sq
    obtain ⟨new', hnew', hall'⟩ := k.sq
    refine ⟨new ++ new', by rw [hnew', hnew, List.append_assoc], ?_⟩
    intro r hr
    rcases List.mem_append.mp hr with h' | h'
    · exact hall r h'
    · obtain ⟨hown, hop⟩ := hall' r h'
      exact ⟨h.own r hown, hop⟩

end Moved

namespace Io

/-- Nothing is moved, and no entry is prepared. -/
theorem of_conn {c : Cell} {conn : Conn} (hlog : conn.log = c.conn.log)
    (hfrontend : conn.frontend = c.conn.frontend)
    (hconn : conn = { c.conn with
      frontend := conn.frontend, sendBuf := conn.sendBuf, sendLen := conn.sendLen,
      sendOff := conn.sendOff, sendPending := conn.sendPending, recvPending := conn.recvPending,
      pollPending := conn.pollPending, wantPollOut := conn.wantPollOut,
      polledOut := conn.polledOut, log := conn.log })
    (hsends : Sends c { c with conn := conn }) : Io [] c { c with conn := conn } where
  slot := rfl
  conn := hconn
  log := ⟨[], by simp [hlog], by simp, by simp [hfrontend], by simp [hfrontend]⟩
  sq := ⟨[], by simp, by simp⟩
  sends := hsends

theorem refl (c : Cell) : Io [] c c := of_conn rfl rfl rfl (.of_same rfl rfl rfl id)

theorem trans {extra : Bytes} {a b c : Cell} (h : Io extra a b) (k : Io [] b c) : Io extra a c :=
  ⟨h.toMoved.trans k.toMoved, h.sends.trans k.sends h.own (fun _ => k.log_mem) fun _ => k.sq_mem⟩

end Io

/-- Preparing an entry: the flag, or the note that there is no room. -/
theorem prep_cases (c : Cell) (r : Request) (mark : Conn → Conn) :
    (c.prep r mark = ({ c with conn := mark c.conn, sq := c.sq ++ [r] }, true)) ∨
      c.prep r mark = (c.note .noSqe, false) := by
  unfold Cell.prep
  split
  · exact Or.inl rfl
  · exact Or.inr rfl

/-- An entry that is prepared for the frontend itself. -/
theorem prep_io {c : Cell} {r : Request} (mark : Conn → Conn)
    (hown : Own c r ∧ r.op ≠ .beSend ∧ r.op ≠ .beRecv)
    (hmark : ∃ send recv poll out, mark c.conn = { c.conn with
      sendPending := send, recvPending := recv, pollPending := poll, polledOut := out })
    (hsends : Sends c { c with conn := mark c.conn, sq := c.sq ++ [r] }) :
    Io [] c (c.prep r mark).1 ∧ ((c.prep r mark).2 = false → .noSqe ∈ (c.prep r mark).1.conn.log) ∧
      (c.prep r mark).1.conn.frontend = c.conn.frontend := by
  obtain ⟨send, recv, poll, out, hmark⟩ := hmark
  rcases prep_cases c r mark with heq | heq
  · rw [heq]
    refine ⟨⟨⟨rfl, ?_, ⟨[], ?_, by simp, ?_, ?_⟩, ⟨[r], rfl, by simpa using hown⟩⟩, hsends⟩, nofun, ?_⟩
    · rw [hmark]
    · rw [hmark]
      exact (List.append_nil _).symm
    · rw [hmark]
      exact .refl _
    · rw [hmark]
      exact fun _ => rfl
    · rw [hmark]
  · rw [heq]
    have hnote : .noSqe ∈ (c.note .noSqe).conn.log := by simp [Cell.note, Conn.note]
    refine ⟨⟨⟨rfl, rfl, ⟨[.noSqe], rfl, by simp [Obs.IsIo], .refl _, fun _ => rfl⟩, [],
      by simp [Cell.note], by simp⟩, ?_⟩, fun _ => hnote, rfl⟩
    exact ⟨fun _ h => absurd hnote h, id, fun h => ⟨h, rfl⟩, Or.inl, Or.inl⟩

section

theorem submitRecv_io (c : Cell) : Io [] c (submitRecv c).1 := by
  unfold submitRecv
  split
  · exact .refl c
  · rename_i hssl
    have hown : Own c (c.request .recv) := ⟨rfl, rfl, fun _ => by
      simpa using fun h => hssl (Or.inl h), nofun⟩
    exact (prep_io (fun conn => { conn with recvPending := true }) ⟨hown, nofun, nofun⟩
      ⟨_, _, _, _, rfl⟩
      ⟨fun _ _ => id, id, fun h => ⟨h, rfl⟩, Or.inl, Or.inl⟩).1

/-- Unsent output of a plain connection is waited for from here on. -/
theorem submitSend_io (c : Cell) : Io [] c (submitSend c).1 ∧
    ((submitSend c).2 = false → .noSqe ∈ (submitSend c).1.conn.log) ∧
      (submitSend c).1.conn.frontend = c.conn.frontend ∧
      (c.conn.ssl = false → .noSqe ∉ (submitSend c).1.conn.log → (submitSend c).1.conn.Flows) := by
  unfold submitSend
  split
  · rename_i hskip
    refine ⟨.refl c, nofun, rfl, ?_⟩
    intro hssl _ hunsent
    rw [if_neg (by simp [hssl])]
    rcases hskip with h | h | h
    · rw [hssl] at h
      cases h
    · exact h
    · exact absurd hunsent (Nat.not_lt.mpr h)
  · rename_i hgo
    have hssl : c.conn.ssl = false := by simpa using fun h => hgo (Or.inl h)
    have hown : Own c c.sendRequest := ⟨rfl, rfl, fun _ => hssl, nofun⟩
    have hflows : Conn.Flows { c.conn with sendPending := true } := by
      intro _
      rw [if_neg (by simp [hssl])]
    have hprep := prep_io (fun conn => { conn with sendPending := true })
      ⟨hown, nofun, nofun⟩ ⟨_, _, _, _, rfl⟩
      ⟨fun _ _ _ => hflows, fun _ => rfl, fun h => ⟨h, rfl⟩,
        fun _ => Or.inr ⟨_, List.mem_append_right _ List.mem_cons_self, hown, rfl⟩, Or.inl⟩
    refine ⟨hprep.1, hprep.2.1, hprep.2.2, fun _ hsqe => ?_⟩
    rcases prep_cases c c.sendRequest (fun conn => { conn with sendPending := true }) with heq | heq
    · rw [heq]
      exact hflows
    · rw [heq] at hsqe
      exact absurd (by simp [Cell.note, Conn.note]) hsqe

/-- A poll is pending from here on; a new one waits for room when there is something to write. -/
theorem submitPoll_io (c : Cell) : Io [] c (submitPoll c).1 ∧
    ((submitPoll c).2 = false → .noSqe ∈ (submitPoll c).1.conn.log) ∧
      (submitPoll c).1.conn.frontend = c.conn.frontend ∧
      (c.conn.ssl = true → c.conn.state ≠ .free → .noSqe ∉ (submitPoll c).1.conn.log →
        (submitPoll c).1.conn.pollPending = true) ∧
      (c.conn.pollPending = false → c.conn.wantPollOut = true →
        (submitPoll c).1.conn.pollPending = true → (submitPoll c).1.conn.polledOut = true) := by
  unfold submitPoll
  split
  · rename_i hskip
    refine ⟨.refl c, nofun, rfl, ?_, fun hoff _ hon => ?_⟩
    · intro hssl hlive _
      rcases hskip with h | h | h
      · rw [hssl] at h
        cases h
      · exact h
      · exact absurd h hlive
    · cases hoff.symm.trans hon
  · rename_i hgo
    have hpending : c.conn.pollPending ≠ true := fun h => hgo (Or.inr (Or.inl h))
    dsimp only
    generalize hout : (c.conn.wantPollOut || decide (c.conn.sendOff < c.conn.sendLen)) = out
    have hown : Own c { c.request .poll with pollOut := out } :=
      ⟨rfl, rfl, fun h => absurd h (by simp [Cell.request]), nofun⟩
    have hflows : c.conn.Flows →
        Conn.Flows { c.conn with pollPending := true, polledOut := out } := by
      intro hflows hunsent
      have hsend := hflows hunsent
      dsimp only at hunsent ⊢
      split
      · exact fun _ => by rw [← hout, decide_eq_true hunsent, Bool.or_true]
      · rename_i hssl
        rwa [if_neg hssl] at hsend
    have hprep := prep_io (fun conn => { conn with pollPending := true, polledOut := out })
      ⟨hown, nofun, nofun⟩ ⟨_, _, _, _, rfl⟩
      ⟨fun _ _ => hflows, id, fun h => absurd h hpending, Or.inl,
        fun _ => Or.inr ⟨_, List.mem_append_right _ List.mem_cons_self, hown, rfl, rfl⟩⟩
    rcases prep_cases c { c.request .poll with pollOut := out }
      (fun conn => { conn with pollPending := true, polledOut := out }) with heq | heq
    · rw [heq] at hprep ⊢
      exact ⟨hprep.1, hprep.2.1, hprep.2.2, fun _ _ _ => rfl,
        fun _ hwant _ => by rw [← hout, hwant, Bool.true_or]⟩
    · rw [heq] at hprep ⊢
      exact ⟨hprep.1, hprep.2.1, hprep.2.2,
        fun _ _ hsqe => absurd (by simp [Cell.note, Conn.note]) hsqe, fun _ _ hon => absurd hon hpending⟩

theorem makeRoom_eq (c : Conn) (len : Nat) :
    makeRoom c len = { c with
      sendLen := (makeRoom c len).sendLen, sendOff := (makeRoom c len).sendOff } := by
  unfold makeRoom
  split <;> rfl

theorem noteUnarmed_eq (c : Conn) : c.noteUnarmed = { c with log := c.noteUnarmed.log } := by
  unfold Conn.noteUnarmed
  split <;> rfl

/-- The bytes are appended to the send buffer, or refused as a whole. -/
theorem queuePlainSend_io (c : Cell) (data : Bytes) : Io data c (queuePlainSend c data).1 ∧
    ((queuePlainSend c data).2 = false → Overflowed (queuePlainSend c data).1.conn.log) ∧
      (queuePlainSend c data).1.conn.frontend = c.conn.frontend := by
  unfold queuePlainSend
  split
  · rename_i hnil
    rw [hnil]
    exact ⟨.refl c, nofun, rfl⟩
  · have hroom := makeRoom_eq c.conn data.length
    have hroomFlows : c.conn.Flows → (makeRoom c.conn data.length).Flows := by
      intro hflows
      unfold makeRoom
      split
      · exact fun h => absurd h (Nat.not_lt_zero _)
      · exact hflows
    dsimp only
    generalize makeRoom c.conn data.length = conn at hroom hroomFlows ⊢
    have hfront : conn.frontend = c.conn.frontend := by rw [hroom]
    split
    · refine ⟨⟨⟨rfl, ?_, ⟨[.refused data], ?_, by simp [Obs.IsIo], ?_, ?_⟩, [], by simp, by simp⟩, ?_⟩,
        fun _ => Or.inr ⟨data, by simp [Conn.note]⟩, hfront⟩
      · rw [hroom]
        rfl
      · rw [hroom]
        rfl
      · rw [hroom]
        exact List.sublist_append_right data _
      · intro hnone
        exact absurd List.mem_cons_self (hnone data)
      · exact .of_same (by rw [hroom]; rfl) (by rw [hroom]; rfl) (by rw [hroom]; rfl) hroomFlows
    · generalize hcopied : ({ conn with
        sendBuf := conn.sendBuf.write conn.sendLen data,
        sendLen := conn.sendLen + data.length } : Conn).note (.queued data) = copied
      have hssl : copied.ssl = c.conn.ssl := by
        rw [← hcopied, hroom]
        rfl
      -- the copy alone; what it adds is on its way once a request is there for it
      have hcopy : Moved data c { c with conn := copied } ∧
          copied.sendPending = c.conn.sendPending ∧ copied.pollPending = c.conn.pollPending ∧
          copied.polledOut = c.conn.polledOut ∧ copied.frontend = c.conn.frontend := by
        rw [← hcopied, hroom]
        exact ⟨⟨rfl, rfl, ⟨[.queued data], rfl, by simp [Obs.IsIo],
          by simp [wireBytes, Conn.note], fun _ => by simp [wireBytes, Conn.note]⟩, [], by simp,
            by simp⟩, rfl, rfl, rfl, rfl⟩
      obtain ⟨hmoved, hsend, hpoll, hout, hfront'⟩ := hcopy
      split
      · rename_i htls
        have hnote := noteUnarmed_eq copied
        have hunarmed : .unarmed ∉ copied.noteUnarmed.log → copied.pollPending = true →
            copied.polledOut = true := by
          intro hno hon
          unfold Conn.noteUnarmed at hno
          split at hno
          · exact absurd (by simp [Conn.note]) hno
          · rename_i hok
            simpa [hon] using hok
        obtain ⟨l, hl, hio⟩ : ∃ l, copied.noteUnarmed.log = copied.log ++ l ∧
            (l = [] ∨ l = [.unarmed]) := by
          unfold Conn.noteUnarmed
          split
          · exact ⟨[.unarmed], rfl, Or.inr rfl⟩
          · exact ⟨[], (List.append_nil _).symm, Or.inl rfl⟩
        generalize copied.noteUnarmed = marked at hnote hunarmed hl
        obtain ⟨hpolled, hfail, hfrontend, -, harm⟩ :=
          submitPoll_io { c with conn := { marked with wantPollOut := true } }
        have hmark : Moved [] { c with conn := copied }
            { c with conn := { marked with wantPollOut := true } } := by
          refine ⟨rfl, ?_, ⟨l, hl, ?_, ?_, ?_⟩, [], by simp, by simp⟩
          · rw [hnote]
          · rcases hio with rfl | rfl <;> simp [Obs.IsIo]
          · rw [hnote]
            rcases hio with rfl | rfl <;> exact .refl _
          · rw [hnote]
            rcases hio with rfl | rfl <;> exact fun _ => rfl
        have hall := hmoved.trans hmark
        refine ⟨⟨hall.trans hpolled.toMoved, hpolled.sends.of_flags ?_ ?_ ?_ hall.own ?_⟩,
          fun h => Or.inl (hfail h), ?_⟩
        · rw [hnote]
          exact hsend
        · rw [hnote]
          exact hpoll
        · rw [hnote]
          exact hout
        · intro hno _ _ _
          have hsame := congrArg Conn.ssl (hall.trans hpolled.toMoved).conn
          rw [if_pos (hsame.trans (hssl.symm.trans htls))]
          intro hon
          rcases Bool.eq_false_or_eq_true marked.pollPending with hbefore | hbefore
          · rw [(hpolled.sends.pollPending hbefore).2]
            rw [hnote] at hbefore ⊢
            exact hunarmed (fun hmem => hno (hpolled.log_mem hmem)) hbefore
          · exact harm hbefore rfl hon
        · rw [hfrontend, hnote]
          exact hfront'
      · rename_i hplain
        rw [Bool.not_eq_true] at hplain
        obtain ⟨hsent, hfail, hfrontend, hflows⟩ := submitSend_io { c with conn := copied }
        exact ⟨⟨hmoved.trans hsent.toMoved, hsent.sends.of_flags hsend hpoll hout hmoved.own
          fun _ hsqe _ => hflows hplain hsqe⟩, fun h => Or.inl (hfail h), hfrontend.trans hfront'⟩

theorem drainFrontendOutFrom_io (fuel : Nat) (c : Cell) (hfuel : c.conn.frontend.length < fuel) :
    Io [] c (drainFrontendOutFrom fuel c).1 ∧
      ((drainFrontendOutFrom fuel c).2 = false →
        Overflowed (drainFrontendOutFrom fuel c).1.conn.log) ∧
      ((drainFrontendOutFrom fuel c).2 = true →
        (drainFrontendOutFrom fuel c).1.conn.frontend = []) := by
  induction fuel generalizing c with
  | zero => exact absurd hfuel (Nat.not_lt_zero _)
  | succ fuel ih =>
      rw [drainFrontendOutFrom]
      dsimp only
      split
      · rename_i hnil
        refine ⟨.refl c, nofun, fun _ => ?_⟩
        rcases List.take_eq_nil_iff.mp hnil with h | h
        · cases h
        · exact h
      · rename_i hne
        have hpush := queuePlainSend_io
          { c with conn := { c.conn with frontend := c.conn.frontend.drop ioBuf } }
          (c.conn.frontend.take ioBuf)
        generalize hq : queuePlainSend
          { c with conn := { c.conn with frontend := c.conn.frontend.drop ioBuf } }
          (c.conn.frontend.take ioBuf) = r at hpush ⊢
        obtain ⟨c₁, ok⟩ := r
        obtain ⟨hpiece, hover, hfront⟩ := hpush
        -- the piece and the rest are the output before
        have hio : Io [] c c₁ := by
          obtain ⟨l, hl, hall, hsub, heq⟩ := hpiece.log
          rw [List.take_append_drop] at hsub heq
          obtain ⟨new, hnew, hown⟩ := hpiece.sq
          exact ⟨⟨hpiece.slot, hpiece.conn, ⟨l, hl, hall, hsub, heq⟩, new, hnew, fun r hr =>
            ⟨(hown r hr).1.of_eq rfl rfl rfl, (hown r hr).2⟩⟩, hpiece.sends.of_flags rfl rfl rfl
              (fun _ h => h.of_eq rfl rfl rfl) hpiece.sends.flows⟩
        cases ok with
        | false => exact ⟨hio, fun _ => hover rfl, nofun⟩
        | true =>
            have hlen : c₁.conn.frontend.length < fuel := by
              rw [hfront]
              have hpos : 0 < c.conn.frontend.length := by
                rw [List.length_pos_iff]
                rintro hnil
                exact hne (by rw [hnil, List.take_nil])
              simp only [List.length_drop, ioBuf]
              omega
            obtain ⟨h1, h2, h3⟩ := ih c₁ hlen
            exact ⟨hio.trans h1, h2, h3⟩

/-- Draining moves the output of the context in order, all of it when nothing is refused. -/
theorem drainFrontendOut_io (c : Cell) : Io [] c (drainFrontendOut c).1 ∧
    ((drainFrontendOut c).2 = false → Overflowed (drainFrontendOut c).1.conn.log) ∧
      ((drainFrontendOut c).2 = true → (drainFrontendOut c).1.conn.frontend = []) :=
  drainFrontendOutFrom_io _ c (Nat.lt_succ_self _)

/-- Nothing is left to send. -/
theorem Sends.of_empty {c : Cell} {conn : Conn} (hsend : conn.sendPending = c.conn.sendPending)
    (hpoll : conn.pollPending = c.conn.pollPending) (hout : conn.polledOut = c.conn.polledOut)
    (hempty : conn.sendLen ≤ conn.sendOff) : Sends c { c with conn := conn } :=
  .of_same hsend hpoll hout fun _ h => absurd h (Nat.not_lt.mpr hempty)

/-- More of the output was sent. -/
theorem Sends.of_sent {c : Cell} (off : Nat) (hoff : c.conn.sendOff ≤ off) :
    Sends c { c with conn := { c.conn with sendOff := off } } :=
  .of_same rfl rfl rfl fun hflows h => hflows (Nat.lt_of_le_of_lt hoff h)

theorem tlsDriveWriteFrom_io (fails : Bool) (written : List Nat) (c : Cell) :
    Io [] c { c with conn := (tlsDriveWriteFrom fails written c.conn).1 } := by
  induction written generalizing c with
  | nil =>
      rw [tlsDriveWriteFrom]
      split
      · exact .of_conn rfl rfl rfl (.of_empty rfl rfl rfl (Nat.le_refl 0))
      · split
        · exact .refl c
        · exact .of_conn rfl rfl rfl (.of_same rfl rfl rfl id)
  | cons n written ih =>
      rw [tlsDriveWriteFrom]
      split
      · exact .of_conn rfl rfl rfl (.of_empty rfl rfl rfl (Nat.le_refl 0))
      · rename_i hunsent
        have hstep : Io [] c { c with conn := { c.conn with
            sendOff := min (c.conn.sendOff + n) c.conn.sendLen } } :=
          .of_conn rfl rfl rfl (.of_sent _ (by omega))
        exact hstep.trans (ih _)

/-- After a write of a plain connection has completed, what is left is being written. -/
theorem advanceSend_io (n : Nat) (c : Cell) : Io [] c (advanceSend n c) ∧
    (c.conn.ssl = false → .noSqe ∉ (advanceSend n c).conn.log → (advanceSend n c).conn.Flows) := by
  unfold advanceSend
  dsimp only
  split
  · exact ⟨.of_conn rfl rfl rfl (.of_empty rfl rfl rfl (Nat.le_refl 0)),
      fun _ _ h => absurd h (Nat.lt_irrefl 0)⟩
  · have hstep : Io [] c { c with conn := { c.conn with sendOff := c.conn.sendOff + n } } :=
      .of_conn rfl rfl rfl (.of_sent _ (Nat.le_add_right _ _))
    obtain ⟨hio, -, -, hflows⟩ :=
      submitSend_io { c with conn := { c.conn with sendOff := c.conn.sendOff + n } }
    exact ⟨hstep.trans hio, hflows⟩

end
