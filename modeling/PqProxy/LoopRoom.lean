import PqProxy.LoopOutput

/-! The submission queue never fills. Within one iteration a connection prepares at most one request of
its frontend and one to its backend, so 512 entries are enough for 256 connections. -/

/-- A request of the output side of a frontend. -/
def Op.isOut (op : Op) : Bool := op = .send ∨ op = .poll

/-- A request to a backend. -/
def Op.isBe (op : Op) : Bool := op = .beSend ∨ op = .beRecv

/-- The entries of a slot of one of the two kinds. -/
def entriesOf (kind : Op → Bool) (sq : List Request) (i : Slot) : Nat :=
  sq.countP fun r => kind r.op && r.slot == i

/-- The request that moves the output of a connection. -/
def Conn.sender (c : Conn) : Op := if c.ssl then .poll else .send

/-- The requests of the frontend side that are pending. -/
def Conn.pending (c : Conn) : Op → Bool
  | .recv => c.recvPending
  | .send => c.sendPending
  | .poll => c.pollPending
  | _ => false

def Conn.armed (c : Conn) : Bool := c.pending c.sender

/-- A pipeline of the connection waits for its backend. -/
def Conn.engaged (c : Conn) : Bool := c.beWait = .sending ∨ c.beWait = .reading

/-- What the use of the submission queue depends on. -/
def Conn.outline (c : Conn) : (Bool × Nat × Bool × BeWait) × (Bool × Bool × Bool) × Bool × Bool :=
  ((decide (c.state = .free), c.gen, c.ssl, c.beWait), (c.recvPending, c.sendPending, c.pollPending),
    decide (.noSqe ∈ c.log), decide (.unarmed ∈ c.log))

/-- Two connections use the queue alike. -/
structure Conn.Alike (a b : Conn) : Prop where
  free : b.state = .free ↔ a.state = .free
  gen : b.gen = a.gen
  ssl : b.ssl = a.ssl
  wait : b.beWait = a.beWait
  pending : ∀ op, b.pending op = a.pending op
  noSqe : .noSqe ∈ b.log ↔ .noSqe ∈ a.log
  unarmed : .unarmed ∈ b.log ↔ .unarmed ∈ a.log

/-- The entries prepared so far in an iteration: of each connection at most one of each kind, and what was
prepared for a connection is still pending on it. No request was left without an entry. -/
structure Server.Roomy (s : Server) : Prop where
  kinds : ∀ r ∈ s.sq, r.op.isOut = true ∨ r.op.isBe = true
  out_le : ∀ i, entriesOf Op.isOut s.sq i ≤ 1
  be_le : ∀ i, entriesOf Op.isBe s.sq i ≤ 1
  armed : ∀ i, (s.conns i).state ≠ .free → entriesOf Op.isOut s.sq i = 1 → (s.conns i).armed = true
  engaged : ∀ i, (s.conns i).state ≠ .free → entriesOf Op.isBe s.sq i = 1 →
    (s.conns i).engaged = true
  calm : ∀ i, .noSqe ∉ (s.conns i).log

section

variable {w : Pqwire} {env : Env} {kind : Op → Bool} {i j : Slot} {sq : List Request} {r : Request} {s t u : Server}

theorem entriesOf_append (l m : List Request) :
    entriesOf kind (l ++ m) i = entriesOf kind l i + entriesOf kind m i := List.countP_append

theorem entriesOf_concat_of_ne (hslot : r.slot ≠ i) : entriesOf kind (sq ++ [r]) i = entriesOf kind sq i := by
  rw [entriesOf_append, entriesOf, entriesOf, List.countP_singleton]
  have hne : (kind r.op && r.slot == i) = false := by
    rw [beq_eq_false_iff_ne.mpr hslot, Bool.and_false]
  rw [hne]
  exact Nat.add_zero _

theorem entriesOf_concat_other (hkind : kind r.op = false) :
    entriesOf kind (sq ++ [r]) i = entriesOf kind sq i := by
  rw [entriesOf_append, entriesOf, entriesOf, List.countP_singleton, hkind]
  exact Nat.add_zero _

theorem entriesOf_concat_self (hkind : kind r.op = true) (hslot : r.slot = i) :
    entriesOf kind (sq ++ [r]) i = entriesOf kind sq i + 1 := by
  rw [entriesOf_append, entriesOf, entriesOf, List.countP_singleton, hkind, hslot, beq_self_eq_true]
  rfl

theorem not_isBe_of_isOut {op : Op} (h : op.isOut = true) : op.isBe = false := by
  cases op <;> first | rfl | cases h

theorem not_isOut_of_isBe {op : Op} (h : op.isBe = true) : op.isOut = false := by
  cases op <;> first | rfl | cases h

/-- The entries of the queue are those of the slots. -/
theorem length_eq_sum (hkinds : ∀ r ∈ sq, r.op.isOut = true ∨ r.op.isBe = true) :
    sq.length = ∑ i : Slot, (entriesOf Op.isOut sq i + entriesOf Op.isBe sq i) := by
  induction sq using List.reverseRecOn with
  | nil => simp [entriesOf]
  | append_singleton sq r ih =>
      have hone : ∀ i : Slot, entriesOf Op.isOut (sq ++ [r]) i + entriesOf Op.isBe (sq ++ [r]) i =
          entriesOf Op.isOut sq i + entriesOf Op.isBe sq i + if i = r.slot then 1 else 0 := by
        intro i
        by_cases hi : i = r.slot
        · rw [if_pos hi]
          rcases hkinds r (List.mem_append_right _ List.mem_cons_self) with hout | hbe
          · rw [entriesOf_concat_self hout hi.symm, entriesOf_concat_other (not_isBe_of_isOut hout)]
            omega
          · rw [entriesOf_concat_self hbe hi.symm, entriesOf_concat_other (not_isOut_of_isBe hbe)]
            omega
        · rw [if_neg hi, entriesOf_concat_of_ne (Ne.symm hi), entriesOf_concat_of_ne (Ne.symm hi)]
          rfl
      calc (sq ++ [r]).length = sq.length + 1 := List.length_append
        _ = ∑ i, (entriesOf Op.isOut sq i + entriesOf Op.isBe sq i) + 1 := by
          rw [ih fun r hr => hkinds r (List.mem_append_left _ hr)]
        _ = ∑ i, (entriesOf Op.isOut sq i + entriesOf Op.isBe sq i + if i = r.slot then 1 else 0) := by
          rw [Finset.sum_add_distrib (f := fun i => entriesOf Op.isOut sq i + entriesOf Op.isBe sq i),
            Finset.sum_ite_eq' Finset.univ r.slot, if_pos (Finset.mem_univ _)]
        _ = _ := Finset.sum_congr rfl fun i _ => (hone i).symm

namespace Server.Roomy

/-- An entry is left for a connection that did not use both of its own. -/
theorem left (hs : s.Roomy) (hi : entriesOf Op.isOut s.sq i = 0 ∨ entriesOf Op.isBe s.sq i = 0) :
    s.sq.length < uringEntries := by
  have hother : ∑ j ∈ Finset.univ.erase i, (entriesOf Op.isOut s.sq j + entriesOf Op.isBe s.sq j) ≤
      ∑ _j ∈ Finset.univ.erase i, 2 :=
    Finset.sum_le_sum fun j _ => Nat.add_le_add (hs.out_le j) (hs.be_le j)
  have hcard : (Finset.univ.erase i).card = 255 := by
    rw [Finset.card_erase_of_mem (Finset.mem_univ i), Finset.card_univ, Fintype.card_fin]
    rfl
  rw [Finset.sum_const, hcard, smul_eq_mul] at hother
  have hsum := length_eq_sum hs.kinds
  rw [← Finset.add_sum_erase _ _ (Finset.mem_univ i)] at hsum
  have hout := hs.out_le i
  have hbe := hs.be_le i
  change s.sq.length < 512
  omega

/-- A connection that waits for no backend has no request to one among the entries. -/
theorem be_eq_zero (hs : s.Roomy) (hlive : (s.conns i).state ≠ .free)
    (hwait : (s.conns i).engaged = false) : entriesOf Op.isBe s.sq i = 0 := by
  have hle := hs.be_le i
  have hne : entriesOf Op.isBe s.sq i ≠ 1 := fun hone =>
    absurd ((hs.engaged i hlive hone).symm.trans hwait) Bool.true_eq_false.mp
  omega

/-- When one connection prepared everything, there are two entries at most. -/
theorem length_le (hs : s.Roomy) (hall : ∀ r ∈ s.sq, r.slot = i) : s.sq.length ≤ 2 := by
  have hnone : ∀ (kind : Op → Bool) j, j ≠ i → entriesOf kind s.sq j = 0 := by
    intro kind j hj
    refine List.countP_eq_zero.mpr fun r hr => ?_
    rw [hall r hr, beq_eq_false_iff_ne.mpr (Ne.symm hj), Bool.and_false]
    exact Bool.false_ne_true
  calc s.sq.length = ∑ j, (entriesOf Op.isOut s.sq j + entriesOf Op.isBe s.sq j) := length_eq_sum hs.kinds
    _ = entriesOf Op.isOut s.sq i + entriesOf Op.isBe s.sq i := by
      refine Finset.sum_eq_single i (fun j _ hj => ?_) fun hnot => absurd (Finset.mem_univ i) hnot
      rw [hnone _ j hj, hnone _ j hj, Nat.add_zero]
    _ ≤ 2 := Nat.add_le_add (hs.out_le i) (hs.be_le i)

/-- Nothing is prepared at the start of an iteration. -/
theorem of_nil (hsq : s.sq = []) (hcalm : ∀ i, .noSqe ∉ (s.conns i).log) : s.Roomy where
  kinds := by
    rw [hsq]
    exact fun _ hr => absurd hr List.not_mem_nil
  out_le := by
    rw [hsq]
    exact fun _ => Nat.zero_le _
  be_le := by
    rw [hsq]
    exact fun _ => Nat.zero_le _
  armed := by
    rw [hsq]
    exact fun _ _ hone => absurd hone Nat.zero_ne_one
  engaged := by
    rw [hsq]
    exact fun _ _ hone => absurd hone Nat.zero_ne_one
  calm := hcalm

end Server.Roomy

theorem alike_of_outline {a b : Conn} (h : b.outline = a.outline) : a.Alike b := by
  simp only [Conn.outline, Prod.mk.injEq, decide_eq_decide] at h
  obtain ⟨⟨hfree, hgen, hssl, hwait⟩, ⟨hrecv, hsend, hpoll⟩, hnoSqe, hunarmed⟩ := h
  refine ⟨hfree, hgen, hssl, hwait, fun op => ?_, hnoSqe, hunarmed⟩
  cases op with
  | recv => exact hrecv
  | send => exact hsend
  | poll => exact hpoll
  | _ => rfl

/-- Entries that do not tell of the queue do not concern it. -/
theorem outline_note (c : Conn) {o : Obs} (ho : o.strands = false) : (c.note o).outline = c.outline := by
  have hmem : ∀ x : Obs, x.strands = true → (x ∈ c.log ++ [o] ↔ x ∈ c.log) := by
    intro x hx
    have hne : x ≠ o := fun heq => Bool.true_eq_false.mp (hx.symm.trans (heq ▸ ho))
    rw [List.mem_append, List.mem_singleton, or_iff_left hne]
  unfold Conn.outline
  rw [decide_eq_decide.mpr (show .noSqe ∈ (c.note o).log ↔ .noSqe ∈ c.log from hmem .noSqe rfl),
    decide_eq_decide.mpr (show .unarmed ∈ (c.note o).log ↔ .unarmed ∈ c.log from hmem .unarmed rfl)]
  rfl

/-- What the output side does with the queue: at most one entry is prepared, and none while one of an
earlier call is pending. -/
structure Puts (c c' : Cell) : Prop where
  slot : c'.slot = c.slot
  free : c'.conn.state = .free ↔ c.conn.state = .free
  gen : c'.conn.gen = c.conn.gen
  ssl : c'.conn.ssl = c.conn.ssl
  wait : c'.conn.beWait = c.conn.beWait
  entry : (c'.sq = c.sq ∧ ∀ op, c'.conn.pending op = c.conn.pending op) ∨
    ∃ r, c'.sq = c.sq ++ [r] ∧ r.slot = c.slot ∧ r.gen = c.conn.gen ∧ r.op = c.conn.sender ∧
      c.conn.armed = false ∧ ∀ op, c'.conn.pending op = true ↔ c.conn.pending op = true ∨ op = r.op
  calm : .noSqe ∈ c'.conn.log → .noSqe ∈ c.conn.log ∨
    c.conn.armed = false ∧ uringEntries ≤ c.sq.length
  unarmed : .unarmed ∈ c'.conn.log → .unarmed ∈ c.conn.log ∨ c.conn.ssl = true

theorem sender_isOut (c : Conn) : c.sender.isOut = true := by
  unfold Conn.sender
  split <;> rfl

namespace Puts

variable {a b c : Cell}

theorem of_outline (hslot : b.slot = a.slot) (hsq : b.sq = a.sq) (h : b.conn.outline = a.conn.outline) :
    Puts a b where
  slot := hslot
  free := (alike_of_outline h).free
  gen := (alike_of_outline h).gen
  ssl := (alike_of_outline h).ssl
  wait := (alike_of_outline h).wait
  entry := Or.inl ⟨hsq, (alike_of_outline h).pending⟩
  calm := fun hmem => Or.inl ((alike_of_outline h).noSqe.mp hmem)
  unarmed := fun hmem => Or.inl ((alike_of_outline h).unarmed.mp hmem)

theorem refl (c : Cell) : Puts c c := .of_outline rfl rfl rfl

theorem sender (h : Puts a b) : b.conn.sender = a.conn.sender := by
  unfold Conn.sender
  rw [h.ssl]

/-- An entry is prepared at most once. -/
theorem armed (h : Puts a b) : b.sq = a.sq ∧ b.conn.armed = a.conn.armed ∨ b.conn.armed = true := by
  unfold Conn.armed
  rw [h.sender]
  rcases h.entry with ⟨hsq, hsame⟩ | ⟨r, -, -, -, hop, -, hafter⟩
  · exact Or.inl ⟨hsq, hsame _⟩
  · exact Or.inr ((hafter _).mpr (Or.inr hop.symm))

theorem trans (h : Puts a b) (k : Puts b c) : Puts a c where
  slot := k.slot.trans h.slot
  free := k.free.trans h.free
  gen := k.gen.trans h.gen
  ssl := k.ssl.trans h.ssl
  wait := k.wait.trans h.wait
  entry := by
    rcases k.entry with ⟨hsq', hsame'⟩ | ⟨r, hsq', hslot, hgen, hop, hbefore, hafter⟩
    · rcases h.entry with ⟨hsq, hsame⟩ | ⟨r, hsq, hslot, hgen, hop, hbefore, hafter⟩
      · exact Or.inl ⟨hsq'.trans hsq, fun op => (hsame' op).trans (hsame op)⟩
      · exact Or.inr ⟨r, hsq'.trans hsq, hslot, hgen, hop, hbefore,
          fun op => by rw [hsame' op]; exact hafter op⟩
    · rcases h.entry with ⟨hsq, hsame⟩ | ⟨r', -, -, -, hop', -, hafter'⟩
      · refine Or.inr ⟨r, by rw [hsq', hsq], hslot.trans h.slot, hgen.trans h.gen, hop.trans h.sender,
          ?_, fun op => by rw [hafter op, hsame op]⟩
        unfold Conn.armed at hbefore ⊢
        rwa [h.sender, hsame] at hbefore
      · have harmed : b.conn.armed = true := by
          unfold Conn.armed
          rw [h.sender]
          exact (hafter' _).mpr (Or.inr hop'.symm)
        exact absurd (harmed.symm.trans hbefore) Bool.true_eq_false.mp
  calm := by
    intro hmem
    rcases k.calm hmem with hmem | ⟨hunarmed, hfull⟩
    · exact h.calm hmem
    · rcases h.armed with ⟨hsq, hsame⟩ | harmed
      · exact Or.inr ⟨hsame ▸ hunarmed, hsq ▸ hfull⟩
      · exact absurd (harmed.symm.trans hunarmed) Bool.true_eq_false.mp
  unarmed := by
    intro hmem
    rcases k.unarmed hmem with hmem | hssl
    · exact h.unarmed hmem
    · exact Or.inr (h.ssl ▸ hssl)

/-- No request to a backend is prepared. -/
theorem be_eq (h : Puts a b) (j : Slot) : entriesOf Op.isBe b.sq j = entriesOf Op.isBe a.sq j := by
  rcases h.entry with ⟨hsq, -⟩ | ⟨r, hsq, -, -, hop, -, -⟩
  · rw [hsq]
  · rw [hsq, entriesOf_concat_other (not_isBe_of_isOut (hop ▸ sender_isOut a.conn))]

/-- Start from a connection that differs in nothing that concerns the queue. -/
theorem after (k : Puts b c) (hslot : b.slot = a.slot) (hsq : b.sq = a.sq)
    (h : b.conn.outline = a.conn.outline) : Puts a c := (of_outline hslot hsq h).trans k

/-- The preparation of the entry that moves the output of the connection. -/
theorem prep {r : Request} {mark : Conn → Conn} (hslot : r.slot = c.slot) (hgen : r.gen = c.conn.gen)
    (hop : r.op = c.conn.sender) (hunarmed : c.conn.armed = false)
    (hmark : ((mark c.conn).state, (mark c.conn).gen, (mark c.conn).ssl, (mark c.conn).beWait,
      (mark c.conn).log) = (c.conn.state, c.conn.gen, c.conn.ssl, c.conn.beWait, c.conn.log))
    (hpending : ∀ op, (mark c.conn).pending op = true ↔ c.conn.pending op = true ∨ op = r.op) :
    Puts c (c.prep r mark).1 := by
  simp only [Prod.mk.injEq] at hmark
  obtain ⟨hstate, hgen', hssl, hwait, hlog⟩ := hmark
  unfold Cell.prep
  split
  · refine ⟨rfl, by rw [hstate], hgen', hssl, hwait,
      Or.inr ⟨r, rfl, hslot, hgen, hop, hunarmed, hpending⟩, fun hmem => ?_, fun hmem => ?_⟩
    · exact Or.inl (hlog ▸ hmem)
    · exact Or.inl (hlog ▸ hmem)
  · rename_i hfull
    refine ⟨rfl, Iff.rfl, rfl, rfl, rfl, Or.inl ⟨rfl, fun _ => rfl⟩,
      fun _ => Or.inr ⟨hunarmed, Nat.not_lt.mp hfull⟩, fun hmem => Or.inl ?_⟩
    exact (List.mem_append.mp hmem).resolve_right fun hmem => Obs.noConfusion (List.mem_singleton.mp hmem)

end Puts

theorem puts_submitSend (c : Cell) : Puts c (submitSend c).1 := by
  unfold submitSend
  split
  · exact .refl c
  · rename_i hskip
    push Not at hskip
    have hsender : Op.send = c.conn.sender := by
      unfold Conn.sender
      rw [if_neg hskip.1]
    refine .prep rfl rfl hsender ?_ rfl fun op => ?_
    · unfold Conn.armed
      rw [← hsender]
      exact Bool.eq_false_iff.mpr hskip.2.1
    · cases op <;> simp [Conn.pending, Cell.sendRequest, Cell.request]

theorem puts_submitPoll (c : Cell) : Puts c (submitPoll c).1 := by
  unfold submitPoll
  split
  · exact .refl c
  · rename_i hskip
    push Not at hskip
    have hsender : Op.poll = c.conn.sender := by
      unfold Conn.sender
      rw [if_pos (Bool.eq_true_of_not_eq_false hskip.1)]
    refine .prep rfl rfl hsender ?_ rfl fun op => ?_
    · unfold Conn.armed
      rw [← hsender]
      exact Bool.eq_false_iff.mpr hskip.2.1
    · cases op <;> simp [Conn.pending, Cell.request]

theorem outline_makeRoom (c : Conn) (len : Nat) : (makeRoom c len).outline = c.outline := by
  unfold makeRoom
  split <;> rfl

/-- A TLS connection may have output that its pending poll does not wait for. -/
theorem puts_noteUnarmed {c : Cell} (hssl : c.conn.ssl = true) :
    Puts c { c with conn := { c.conn.noteUnarmed with wantPollOut := true } } := by
  unfold Conn.noteUnarmed
  split
  · refine ⟨rfl, Iff.rfl, rfl, rfl, rfl, Or.inl ⟨rfl, fun _ => rfl⟩, fun hmem => Or.inl ?_,
      fun _ => Or.inr hssl⟩
    exact (List.mem_append.mp hmem).resolve_right fun hmem => Obs.noConfusion (List.mem_singleton.mp hmem)
  · exact .of_outline rfl rfl rfl

theorem puts_queuePlainSend (c : Cell) (data : Bytes) : Puts c (queuePlainSend c data).1 := by
  unfold queuePlainSend
  split
  · exact .refl c
  · have hroom := outline_makeRoom c.conn data.length
    dsimp only
    generalize makeRoom c.conn data.length = m at hroom
    split
    · exact .of_outline rfl rfl ((outline_note m rfl).trans hroom)
    · have hqueued : ∀ buf len, (({ m with sendBuf := buf, sendLen := len } : Conn).note
          (.queued data)).outline = c.conn.outline := fun buf len =>
        (outline_note { m with sendBuf := buf, sendLen := len } rfl).trans hroom
      specialize hqueued (m.sendBuf.write m.sendLen data) (m.sendLen + data.length)
      generalize Conn.note _ (.queued data) = q at hqueued
      split
      · rename_i hssl
        exact ((puts_noteUnarmed (c := { c with conn := q }) hssl).trans (puts_submitPoll _)).after rfl rfl
          hqueued
      · exact (puts_submitSend _).after rfl rfl hqueued

theorem puts_drainFrontendOutFrom (fuel : Nat) (c : Cell) : Puts c (drainFrontendOutFrom fuel c).1 := by
  induction fuel generalizing c with
  | zero => exact .refl c
  | succ fuel ih =>
      unfold drainFrontendOutFrom
      dsimp only
      split
      · exact .refl c
      · have hfirst : Puts c (queuePlainSend { c with conn := { c.conn with
            frontend := c.conn.frontend.drop ioBuf } } (c.conn.frontend.take ioBuf)).1 :=
          (puts_queuePlainSend _ _).after rfl rfl rfl
        generalize queuePlainSend _ _ = r at hfirst
        obtain ⟨d, _ | _⟩ := r
        · exact hfirst
        · exact hfirst.trans (ih d)

theorem puts_drainFrontendOut (c : Cell) : Puts c (drainFrontendOut c).1 := puts_drainFrontendOutFrom _ c

theorem puts_queueBackend (c : Cell) (data : Bytes) : Puts c (queueBackend c data).1 :=
  (puts_queuePlainSend _ data).after rfl rfl (outline_note c.conn rfl)

/-! ### The handlers of one connection -/

theorem outline_reply (c : Conn) (r : Reply) : (reply w c r).1.outline = c.outline := by
  rcases reply_cases w c r with ⟨-, h⟩ | ⟨-, h⟩
  · rw [h]
    exact outline_note _ rfl
  · rw [h]

theorem outline_replyThen (c : Conn) (r r' : Reply) : (replyThen w c r r').1.outline = c.outline := by
  have hfirst := outline_reply (w := w) c r
  unfold replyThen
  generalize reply w c r = x at hfirst
  obtain ⟨d, _ | _⟩ := x
  · exact hfirst
  · exact (outline_reply d r').trans hfirst

theorem outline_replyBoth (c : Conn) (r r' : Reply) : (replyBoth w c r r').outline = c.outline :=
  (outline_reply _ r').trans (outline_reply c r)

theorem outline_answerParse (cfg : Config) (c : Conn) (parse : PqParse) :
    (answerParse w cfg c parse).outline = c.outline := by
  obtain ⟨cache, h | h⟩ := answerParse_cases (w := w) cfg c parse
  · rw [h]
    exact outline_note _ rfl
  · rw [h]
    exact (outline_replyBoth _ _ _).trans (outline_note _ rfl)

theorem outline_answerExecute (hasPool : Bool) (c : Conn) :
    (answerExecute w hasPool c).1.outline = c.outline := by
  rcases answerExecute_cases w hasPool c with ⟨-, h⟩ | ⟨-, -, h⟩
  · rw [h]
    exact (outline_reply _ _).trans (outline_note c rfl)
  · rw [h]
    exact outline_note c rfl

theorem outline_answerBind (c : Conn) (why : Unrun) (r : Option ExecResult) :
    (answerBind w c why r).1.outline = c.outline := by
  unfold answerBind
  cases r with
  | none => exact (outline_reply _ _).trans (outline_note c rfl)
  | some r =>
      dsimp only
      split
      · exact (outline_reply _ _).trans (outline_note _ rfl)
      · exact (outline_reply _ _).trans (outline_note _ rfl)

theorem outline_feqPush (c : Conn) (it : FeqItem) : (feqPush c it).1.outline = c.outline := by
  rcases feqPush_cases c it with ⟨q, -, h⟩ | h
  · rw [h]
    exact outline_note _ rfl
  · rw [h]
    exact outline_note c rfl

theorem outline_feqPushBind (c : Conn) (bind : PqBind) : (feqPushBind w c bind).1.outline = c.outline := by
  rcases feqPushBind_cases (w := w) c bind with ⟨it, -, h⟩ | h
  · rw [h]
    exact outline_feqPush c _
  · rw [h]
    exact outline_note c rfl

theorem outline_feqPop {c c' : Conn} {it : FeqItem} (h : feqPop c = some (c', it)) :
    c'.outline = c.outline := by
  obtain ⟨q, -, rfl⟩ := feqPop_some h
  exact outline_note _ rfl

theorem outline_feqPutBack {c c' : Conn} {it : FeqItem} (h : feqPutBack c it = some c') :
    c'.outline = c.outline := by
  obtain ⟨q, -, rfl⟩ := feqPutBack_some h
  exact outline_note _ rfl

theorem outline_queueEvent (c : Conn) (e : Event) : (queueEvent w c e).outline = c.outline := by
  have hpush := outline_feqPush c
  cases e with
  | parse msg =>
      specialize hpush (.parse msg)
      simp only [queueEvent, feqPushParse]
      generalize feqPush c (.parse msg) = x at hpush
      obtain ⟨d, _ | _⟩ := x
      · exact (outline_reply d _).trans hpush
      · exact hpush
  | bind msg =>
      have hbind := outline_feqPushBind (w := w) c msg
      simp only [queueEvent]
      generalize feqPushBind w c msg = x at hbind
      obtain ⟨d, _ | _⟩ := x
      · exact (outline_replyBoth d _ _).trans hbind
      · exact hbind
  | execute =>
      specialize hpush .execute
      simp only [queueEvent]
      generalize feqPush c .execute = x at hpush
      obtain ⟨d, _ | _⟩ := x
      · exact hpush
      · exact hpush
  | sync => exact hpush .sync
  | query sql =>
      specialize hpush (.query (sql.copyTo w.maxQueryLen))
      simp only [queueEvent]
      generalize feqPush c _ = x at hpush
      obtain ⟨d, _ | _⟩ := x
      · exact (outline_replyBoth d _ _).trans hpush
      · exact hpush
  | _ => rfl

theorem outline_tlsDriveWriteFrom (fails : Bool) (written : List Nat) (c : Conn) :
    (tlsDriveWriteFrom fails written c).1.outline = c.outline := by
  induction written generalizing c with
  | nil =>
      unfold tlsDriveWriteFrom
      split
      · rfl
      · split <;> rfl
  | cons n written ih =>
      unfold tlsDriveWriteFrom
      split
      · rfl
      · exact ih _

theorem puts_answerSync (c : Cell) : Puts c (answerSync w c).1 := by
  unfold answerSync
  split
  · have hqueue := puts_queueBackend c c.conn.beResp.bytes
    generalize queueBackend c c.conn.beResp.bytes = x at hqueue
    obtain ⟨d, _ | _⟩ := x
    · exact hqueue
    · exact hqueue.trans (.of_outline rfl rfl rfl)
  · exact .of_outline rfl rfl (outline_reply c.conn _)

theorem puts_answerQueuedSync (c : Cell) : Puts c (answerQueuedSync w c) := by
  unfold answerQueuedSync
  split
  · exact (puts_queueBackend c c.conn.beResp.bytes).trans (.of_outline rfl rfl rfl)
  · exact .of_outline rfl rfl (outline_reply c.conn _)

/-- A query was run on a backend. -/
theorem outline_forwarded (c : Conn) (r : ExecResult) :
    ((c.note (.forwarded c.beResp.len)).fillResp r).outline = c.outline :=
  outline_note c rfl

theorem puts_answerQuery (c : Cell) (r : ExecResult) : Puts c (answerQuery w c r).1 := by
  unfold answerQuery
  dsimp only
  split
  · exact (puts_queueBackend _ _).after rfl rfl (outline_forwarded c.conn r)
  · exact .of_outline rfl rfl ((outline_replyThen _ _ _).trans (outline_forwarded c.conn r))

theorem puts_answerQueuedQuery (c : Cell) (r : ExecResult) : Puts c (answerQueuedQuery w c r) := by
  unfold answerQueuedQuery
  dsimp only
  split
  · exact (puts_queueBackend _ _).after rfl rfl (outline_forwarded c.conn r)
  · exact .of_outline rfl rfl ((outline_replyBoth _ _ _).trans (outline_forwarded c.conn r))

theorem puts_sendResult (c : Cell) (hadError : Bool) : Puts c (sendResult w c hadError).1 := by
  have hqueue := puts_queueBackend c c.conn.beResp.bytes
  unfold sendResult
  generalize queueBackend c c.conn.beResp.bytes = x at hqueue
  obtain ⟨d, _ | _⟩ := x
  · split
    · exact hqueue
    · split
      · exact hqueue
      · split
        · exact .of_outline rfl rfl (outline_reply c.conn _)
        · exact .refl c
  · split
    · exact hqueue.trans (.of_outline rfl rfl rfl)
    · split
      · exact hqueue.trans (.of_outline rfl rfl rfl)
      · split
        · exact .of_outline rfl rfl (outline_reply c.conn _)
        · exact .refl c

theorem outline_feqClearAll (c : Conn) : (feqClearAll c).outline = c.outline :=
  outline_note { c with feQ := (feqClearAll c).feQ } rfl

theorem puts_deliverResult (c : Cell) (hadError : Bool) : Puts c (deliverResult w c hadError).1 := by
  have hdone : (c.conn.note (.completed hadError)).outline = c.conn.outline :=
    outline_note c.conn rfl
  unfold deliverResult
  generalize c.conn.note (.completed hadError) = d at hdone ⊢
  dsimp only
  have hfirst : (if hadError = true then ({ feqClearAll d with gotExecute := false }, true)
      else reply w d .bindComplete).1.outline = c.conn.outline := by
    split
    · exact (outline_feqClearAll d).trans hdone
    · exact (outline_reply d _).trans hdone
  generalize (if hadError = true then ({ feqClearAll d with gotExecute := false }, true)
      else reply w d .bindComplete) = x at hfirst ⊢
  obtain ⟨e, _ | _⟩ := x
  · exact .of_outline rfl rfl hfirst
  · have hsend := (puts_sendResult (w := w) { c with conn := e } hadError).after (a := c) rfl rfl hfirst
    dsimp only
    rw [if_neg Bool.true_eq_false.mp]
    generalize sendResult w { c with conn := e } hadError = y at hsend
    obtain ⟨f, _ | _⟩ := y
    · exact hsend
    · exact hsend.trans (puts_drainFrontendOut f)

theorem puts_reportLost (c : Cell) : Puts c (reportLost w c).1 :=
  (puts_drainFrontendOut _).after rfl rfl ((outline_replyBoth _ _ _).trans
    (outline_note c.conn rfl))

theorem puts_advanceSend (n : Nat) (c : Cell) : Puts c (advanceSend n c) := by
  unfold advanceSend
  dsimp only
  split
  · exact .of_outline rfl rfl rfl
  · exact (puts_submitSend _).after rfl rfl rfl

/-! ### The server -/

/-- The same, whatever the backend side waits for. -/
def Conn.shape (c : Conn) : (Bool × Nat × Bool × BeWait) × (Bool × Bool × Bool) × Bool × Bool :=
  Conn.outline { c with beWait := .idle }

/-- What becomes of a connection while the entries of `sq` are prepared: the requests that are pending
stay so, and those that were not have an entry now. -/
structure Entered (sq : List Request) (j : Slot) (c c' : Conn) : Prop where
  free : c'.state = .free ↔ c.state = .free
  gen : c'.gen = c.gen
  ssl : c'.ssl = c.ssl
  stays : ∀ op, c.pending op = true → c'.pending op = true
  rises : ∀ op, c'.pending op = true → c.pending op = true ∨
    ∃ r ∈ sq, r.op = op ∧ r.slot = j ∧ r.gen = c'.gen
  unarmed : .unarmed ∈ c'.log → .unarmed ∈ c.log ∨ c.ssl = true

namespace Entered

variable {sq' : List Request} {a b c : Conn}

theorem of_shape (h : b.shape = a.shape) : Entered sq j a b where
  free := (alike_of_outline h).free
  gen := (alike_of_outline h).gen
  ssl := (alike_of_outline h).ssl
  stays := fun op hop => ((alike_of_outline h).pending op).trans hop
  rises := fun op hop => Or.inl (((alike_of_outline h).pending op).symm.trans hop)
  unarmed := fun hmem => Or.inl ((alike_of_outline h).unarmed.mp hmem)

theorem refl (c : Conn) : Entered sq j c c := of_shape rfl

theorem trans (h : Entered sq j a b) (k : Entered sq' j b c) (hsub : ∀ r ∈ sq, r ∈ sq') : Entered sq' j a c where
  free := k.free.trans h.free
  gen := k.gen.trans h.gen
  ssl := k.ssl.trans h.ssl
  stays := fun op hop => k.stays op (h.stays op hop)
  rises := by
    intro op hop
    rcases k.rises op hop with hop | hnew
    · rcases h.rises op hop with hop | ⟨r, hr, hkind, hslot, hgen⟩
      · exact Or.inl hop
      · exact Or.inr ⟨r, hsub r hr, hkind, hslot, hgen.trans k.gen.symm⟩
    · exact Or.inr hnew
  unarmed := by
    intro hmem
    rcases k.unarmed hmem with hmem | hssl
    · exact h.unarmed hmem
    · exact Or.inr (h.ssl ▸ hssl)

theorem armed (h : Entered sq j a b) (harmed : a.armed = true) : b.armed = true := by
  have hsender : b.sender = a.sender := by
    unfold Conn.sender
    rw [h.ssl]
  unfold Conn.armed at harmed ⊢
  rw [hsender]
  exact h.stays _ harmed

/-- The output side keeps a connection. -/
theorem of_puts {c c' : Cell} (h : Puts c c') : Entered c'.sq c.slot c.conn c'.conn where
  free := h.free
  gen := h.gen
  ssl := h.ssl
  stays := by
    intro op hop
    rcases h.entry with ⟨-, hsame⟩ | ⟨r, -, -, -, -, -, hafter⟩
    · exact (hsame op).trans hop
    · exact (hafter op).mpr (Or.inl hop)
  rises := by
    intro op hop
    rcases h.entry with ⟨-, hsame⟩ | ⟨r, hsq, hslot, hgen, -, -, hafter⟩
    · exact Or.inl ((hsame op).symm.trans hop)
    · refine ((hafter op).mp hop).imp_right fun hkind => ⟨r, ?_, hkind.symm, hslot, hgen.trans h.gen.symm⟩
      rw [hsq]
      exact List.mem_append_right _ List.mem_cons_self
  unarmed := h.unarmed

end Entered

/-- The entries stay within the bounds; with a connection given, only entries of it are prepared. -/
structure Roomed (x : Option Slot) (s t : Server) : Prop where
  room : t.Roomy
  sq : ∀ r ∈ s.sq, r ∈ t.sq
  entered : ∀ j, Entered t.sq j (s.conns j) (t.conns j)
  mine : ∀ i, x = some i → ∀ r ∈ t.sq, r ∈ s.sq ∨ r.slot = i

namespace Roomed

variable {x : Option Slot}

theorem refl (hs : s.Roomy) : Roomed x s s := ⟨hs, fun _ => id, fun _ => .refl _, fun _ _ _ hr => Or.inl hr⟩

theorem trans (h : Roomed x s t) (k : Roomed x t u) : Roomed x s u where
  room := k.room
  sq := fun r hr => k.sq r (h.sq r hr)
  entered := fun j => (h.entered j).trans (k.entered j) k.sq
  mine := fun i hi r hr => (k.mine i hi r hr).elim (h.mine i hi r) Or.inr

theorem any (h : Roomed x s t) : Roomed none s t :=
  ⟨h.room, h.sq, h.entered, fun i hi => absurd hi.symm (Option.some_ne_none i)⟩

theorem live (h : Roomed x s t) (hlive : (s.conns i).state ≠ .free) : (t.conns i).state ≠ .free :=
  fun hfree => hlive ((h.entered i).free.mp hfree)

/-- One connection changes. -/
theorem entered_of {conns conns' : Slot → Conn} (hothers : ∀ j, j ≠ i → conns' j = conns j)
    (hentered : Entered sq i (conns i) (conns' i)) (j : Slot) : Entered sq j (conns j) (conns' j) := by
  by_cases hj : j = i
  · exact hj ▸ hentered
  · rw [hothers j hj]
    exact .refl _

/-- One connection changes, and nothing is prepared. -/
theorem of_conn (hs : s.Roomy) (hothers : ∀ j, j ≠ i → t.conns j = s.conns j) (hsq : t.sq = s.sq)
    (hentered : Entered t.sq i (s.conns i) (t.conns i))
    (hwait : (t.conns i).beWait = (s.conns i).beWait ∨ entriesOf Op.isBe s.sq i = 0)
    (hcalm : .noSqe ∈ (t.conns i).log → .noSqe ∈ (s.conns i).log) : Roomed x s t := by
  refine ⟨⟨?_, ?_, ?_, fun j hlive hone => ?_, fun j hlive hone => ?_, fun j hmem => ?_⟩, ?_,
    entered_of hothers hentered, ?_⟩
  · rw [hsq]
    exact hs.kinds
  · rw [hsq]
    exact hs.out_le
  · rw [hsq]
    exact hs.be_le
  · rw [hsq] at hone
    by_cases hj : j = i
    · subst hj
      exact hentered.armed (hs.armed j (fun h => hlive (hentered.free.mpr h)) hone)
    · rw [hothers j hj] at hlive ⊢
      exact hs.armed j hlive hone
  · rw [hsq] at hone
    by_cases hj : j = i
    · subst hj
      rcases hwait with hwait | hzero
      · have hengaged := hs.engaged j (fun h => hlive (hentered.free.mpr h)) hone
        unfold Conn.engaged at hengaged ⊢
        rwa [hwait]
      · exact absurd (hzero.symm.trans hone) Nat.zero_ne_one
    · rw [hothers j hj] at hlive ⊢
      exact hs.engaged j hlive hone
  · by_cases hj : j = i
    · subst hj
      exact hs.calm j (hcalm hmem)
    · rw [hothers j hj] at hmem
      exact hs.calm j hmem
  · rw [hsq]
    exact fun _ => id
  · rw [hsq]
    exact fun _ _ _ hr => Or.inl hr

/-- One connection changes, and an entry of it is prepared. -/
theorem of_entry {r : Request} (hs : s.Roomy) (hothers : ∀ j, j ≠ i → t.conns j = s.conns j)
    (hsq : t.sq = s.sq ++ [r]) (hslot : r.slot = i) (hentered : Entered t.sq i (s.conns i) (t.conns i))
    (hkind : r.op.isOut = true ∧ entriesOf Op.isOut s.sq i = 0 ∧ (t.conns i).armed = true ∧
        (t.conns i).beWait = (s.conns i).beWait ∨
      r.op.isBe = true ∧ entriesOf Op.isBe s.sq i = 0 ∧ (t.conns i).engaged = true)
    (hcalm : .noSqe ∉ (t.conns i).log) : Roomed (some i) s t := by
  have hother : ∀ (kind : Op → Bool) j, j ≠ i → entriesOf kind t.sq j = entriesOf kind s.sq j := by
    intro kind j hj
    rw [hsq]
    exact entriesOf_concat_of_ne fun h => hj (h.symm.trans hslot)
  have hcounts : entriesOf Op.isOut t.sq i ≤ 1 ∧ entriesOf Op.isBe t.sq i ≤ 1 := by
    rw [hsq]
    rcases hkind with ⟨hout, hzero, -⟩ | ⟨hbe, hzero, -⟩
    · rw [entriesOf_concat_self hout hslot, entriesOf_concat_other (not_isBe_of_isOut hout), hzero]
      exact ⟨Nat.le_refl 1, hs.be_le i⟩
    · rw [entriesOf_concat_other (not_isOut_of_isBe hbe), entriesOf_concat_self hbe hslot, hzero]
      exact ⟨hs.out_le i, Nat.le_refl 1⟩
  refine ⟨⟨fun x hx => ?_, fun j => ?_, fun j => ?_, fun j hlive hj => ?_, fun j hlive hj => ?_,
    fun j hmem => ?_⟩, fun x hx => ?_, entered_of hothers hentered, fun j hj x hx => ?_⟩
  · rw [hsq] at hx
    rcases List.mem_append.mp hx with hx | hx
    · exact hs.kinds x hx
    · rw [List.mem_singleton.mp hx]
      exact hkind.imp And.left And.left
  · by_cases hji : j = i
    · exact hji ▸ hcounts.1
    · rw [hother _ j hji]
      exact hs.out_le j
  · by_cases hji : j = i
    · exact hji ▸ hcounts.2
    · rw [hother _ j hji]
      exact hs.be_le j
  · by_cases hji : j = i
    · subst hji
      rcases hkind with ⟨-, -, harmed, -⟩ | ⟨hbe, -, -⟩
      · exact harmed
      · rw [hsq, entriesOf_concat_other (not_isOut_of_isBe hbe)] at hj
        exact hentered.armed (hs.armed j (fun h => hlive (hentered.free.mpr h)) hj)
    · rw [hother _ j hji] at hj
      rw [hothers j hji] at hlive ⊢
      exact hs.armed j hlive hj
  · by_cases hji : j = i
    · subst hji
      rcases hkind with ⟨hout, -, -, hwait⟩ | ⟨-, -, hengaged⟩
      · rw [hsq, entriesOf_concat_other (not_isBe_of_isOut hout)] at hj
        have hengaged := hs.engaged j (fun h => hlive (hentered.free.mpr h)) hj
        unfold Conn.engaged at hengaged ⊢
        rwa [hwait]
      · exact hengaged
    · rw [hother _ j hji] at hj
      rw [hothers j hji] at hlive ⊢
      exact hs.engaged j hlive hj
  · by_cases hji : j = i
    · subst hji
      exact hcalm hmem
    · rw [hothers j hji] at hmem
      exact hs.calm j hmem
  · rw [hsq]
    exact List.mem_append_left _ hx
  · rw [hsq] at hx
    cases hj
    exact (List.mem_append.mp hx).imp_right fun hx =>
      (congrArg Request.slot (List.mem_singleton.mp hx)).trans hslot

/-- Neither connections nor entries are concerned. -/
theorem of_eq (hs : s.Roomy) (hconns : t.conns = s.conns) (hsq : t.sq = s.sq) : Roomed x s t := by
  refine .of_conn (i := ⟨0, by decide⟩) hs (fun j _ => congrFun hconns j) hsq ?_ (Or.inl ?_) ?_
  · rw [hconns]
    exact .refl _
  · rw [hconns]
  · rw [hconns]
    exact id

/-- Something changes that does not concern the queue. -/
theorem setConn {c : Conn} (hs : s.Roomy) (h : c.outline = (s.conns i).outline) :
    Roomed x s (s.setConn i c) := by
  have hself : (s.setConn i c).conns i = c := Function.update_self ..
  have halike := alike_of_outline h
  refine .of_conn hs (fun j hj => Function.update_of_ne hj ..) rfl ?_ (Or.inl ?_) ?_
  · rw [hself]
    exact ⟨halike.free, halike.gen, halike.ssl, fun op hop => (halike.pending op).trans hop,
      fun op hop => Or.inl ((halike.pending op).symm.trans hop), fun hmem => Or.inl (halike.unarmed.mp hmem)⟩
  · rw [hself]
    exact halike.wait
  · rw [hself]
    exact halike.noSqe.mp

theorem updConn {f : Conn → Conn} (hs : s.Roomy) (h : (f (s.conns i)).outline = (s.conns i).outline) :
    Roomed x s (s.updConn i f) := .setConn hs h

theorem onConn {f : Conn → Conn × Bool} (hs : s.Roomy)
    (h : (f (s.conns i)).1.outline = (s.conns i).outline) : Roomed x s (s.onConn i f).1 := .setConn hs h

/-- The backend side stops waiting, or waits for the pool. -/
theorem rests {f : Conn → Conn} (hs : s.Roomy) (h : (f (s.conns i)).shape = (s.conns i).shape)
    (hzero : entriesOf Op.isBe s.sq i = 0) : Roomed x s (s.updConn i f) := by
  have hself : (s.updConn i f).conns i = f (s.conns i) := Function.update_self ..
  refine .of_conn hs (fun j hj => Function.update_of_ne hj ..) rfl ?_ (Or.inr hzero) ?_
  · rw [hself]
    exact .of_shape h
  · rw [hself]
    exact (alike_of_outline h).noSqe.mp

/-- The output side of a connection moves. -/
theorem onCell {f : Cell → Cell × Bool} (hs : s.Roomy) (hlive : (s.conns i).state ≠ .free)
    (h : Puts (s.cell i) (f (s.cell i)).1) : Roomed (some i) s (s.onCell i f).1 := by
  have hself : (s.onCell i f).1.conns i = (f (s.cell i)).1.conn := conns_onCell ..
  have hothers : ∀ j, j ≠ i → (s.onCell i f).1.conns j = s.conns j :=
    fun j hj => Function.update_of_ne hj ..
  have hzero : (s.conns i).armed = false → entriesOf Op.isOut s.sq i = 0 := by
    intro hunarmed
    have hle := hs.out_le i
    have hne : entriesOf Op.isOut s.sq i ≠ 1 := fun hone =>
      absurd ((hs.armed i hlive hone).symm.trans hunarmed) Bool.true_eq_false.mp
    omega
  have hcalm : .noSqe ∉ (f (s.cell i)).1.conn.log := by
    intro hmem
    rcases h.calm hmem with hmem | ⟨hunarmed, hfull⟩
    · exact hs.calm i hmem
    · exact absurd (hs.left (Or.inl (hzero hunarmed))) (Nat.not_lt.mpr hfull)
  have hentered : Entered (s.onCell i f).1.sq i (s.conns i) ((s.onCell i f).1.conns i) := by
    rw [hself]
    exact .of_puts h
  have hwait : ((s.onCell i f).1.conns i).beWait = (s.conns i).beWait := by
    rw [hself]
    exact h.wait
  rcases h.entry with ⟨hsq, -⟩ | ⟨r, hsq, hslot, -, hop, hunarmed, hafter⟩
  · exact .of_conn hs hothers hsq hentered (Or.inl hwait) fun hmem => absurd (hself ▸ hmem) hcalm
  · have hout : r.op.isOut = true := hop ▸ sender_isOut _
    refine .of_entry hs hothers hsq hslot hentered (Or.inl ⟨hout, hzero hunarmed, ?_, hwait⟩) ?_
    · unfold Conn.armed
      rw [hself, h.sender]
      exact (hafter _).mpr (Or.inr hop.symm)
    · rwa [hself]

end Roomed

/-- A connection prepares at most one request to its backend, and waits for it. -/
structure Asks (c c' : Cell) : Prop where
  slot : c'.slot = c.slot
  shape : c'.conn.shape = c.conn.shape
  entry : c'.sq = c.sq ∨
    ∃ r, c'.sq = c.sq ++ [r] ∧ r.slot = c.slot ∧ r.op.isBe = true ∧ c'.conn.engaged = true

/-- With room in the queue the preparation of a request succeeds. -/
theorem prep_eq {c : Cell} (hroom : c.sq.length < uringEntries) (r : Request) (mark : Conn → Conn) :
    c.prep r mark = ({ c with conn := mark c.conn, sq := c.sq ++ [r] }, true) := if_pos hroom

theorem asks_submitBeRecv (f : Nat → BackendConn) {c : Cell} (hroom : c.sq.length < uringEntries) :
    Asks c (submitBeRecv f c).1 ∧ (submitBeRecv f c).2 = true := by
  unfold submitBeRecv
  split
  · exact ⟨⟨rfl, rfl, Or.inl rfl⟩, rfl⟩
  · split
    · exact ⟨⟨rfl, rfl, Or.inl rfl⟩, rfl⟩
    · rw [prep_eq hroom]
      exact ⟨⟨rfl, rfl, Or.inr ⟨_, rfl, rfl, rfl, rfl⟩⟩, rfl⟩

theorem shape_note (c : Conn) {o : Obs} (ho : o.strands = false) : (c.note o).shape = c.shape :=
  outline_note { c with beWait := .idle } ho

theorem asks_submitBeSend (f : Nat → BackendConn) {c : Cell} (hroom : c.sq.length < uringEntries) :
    Asks c (submitBeSend f c).1 ∧ (submitBeSend f c).2 = true := by
  unfold submitBeSend
  split
  · exact ⟨⟨rfl, rfl, Or.inl rfl⟩, rfl⟩
  · split
    · exact ⟨⟨rfl, shape_note c.conn rfl, Or.inl rfl⟩, rfl⟩
    · split
      · obtain ⟨⟨hslot, hshape, hentry⟩, hok⟩ := asks_submitBeRecv f
          (c := { c with conn := { c.conn with beWait := .reading } }) hroom
        exact ⟨⟨hslot, hshape, hentry⟩, hok⟩
      · rw [prep_eq hroom]
        exact ⟨⟨rfl, rfl, Or.inr ⟨_, rfl, rfl, rfl, rfl⟩⟩, rfl⟩

theorem Roomed.asks {f : Cell → Cell × Bool} (hs : s.Roomy) (hzero : entriesOf Op.isBe s.sq i = 0)
    (h : Asks (s.cell i) (f (s.cell i)).1) : Roomed (some i) s (s.onCell i f).1 := by
  have hself : (s.onCell i f).1.conns i = (f (s.cell i)).1.conn := conns_onCell ..
  have hothers : ∀ j, j ≠ i → (s.onCell i f).1.conns j = s.conns j :=
    fun j hj => Function.update_of_ne hj ..
  have hentered : Entered (s.onCell i f).1.sq i (s.conns i) ((s.onCell i f).1.conns i) := by
    rw [hself]
    exact .of_shape h.shape
  have hcalm : .noSqe ∈ ((s.onCell i f).1.conns i).log → .noSqe ∈ (s.conns i).log := by
    rw [hself]
    exact (alike_of_outline h.shape).noSqe.mp
  rcases h.entry with hsq | ⟨r, hsq, hslot, hbe, hengaged⟩
  · exact .of_conn hs hothers hsq hentered (Or.inr hzero) hcalm
  · refine .of_entry hs hothers hsq hslot hentered (Or.inr ⟨hbe, hzero, ?_⟩) fun hmem => hs.calm i (hcalm hmem)
    rwa [hself]
end
