import PqProxy.LoopTurn

/-! The send buffer of a connection over all the calls that put bytes into it and all the writes that
take them out: what was accepted is what was transmitted and what still lies between the offsets. A
write without a copy reads the buffer on after its completion, until a notification that nobody waits
for, so there new bytes must not come down on its region. -/

/-- The bytes that wait in the send buffer. -/
def Conn.unsent (c : Conn) : Bytes := c.sendBuf.read c.sendOff (c.sendLen - c.sendOff)

/-- A write that the kernel works on: its region of the send buffer, with what stood there when it
was handed over. -/
structure InFlight where
  off : Nat
  region : Bytes
  zerocopy : Bool

/-- The part of a write that was reported as sent: the kernel has a copy of it, or reads it from the
send buffer until it is done with it. -/
inductive Chunk where
  | copied (data : Bytes)
  | lent (off len : Nat)
  deriving DecidableEq

def Chunk.bytes (buf : Mem) : Chunk → Bytes
  | .copied data => data
  | .lent off len => buf.read off len

/-- What the kernel takes of a write. -/
def InFlight.chunk (p : InFlight) (buf : Mem) (n : Nat) : Chunk :=
  if p.zerocopy then .lent p.off n else .copied (buf.read p.off n)

/-- A connection with the writes in flight and what was transmitted so far. -/
structure Sending where
  cell : Cell
  pending : List InFlight
  chunks : List Chunk

namespace Sending

def conn (m : Sending) : Conn := m.cell.conn

/-- The bytes that were accepted, in order. -/
def accepted (m : Sending) : Bytes := wireBytes m.conn.log

/-- The bytes that the client gets of what was reported as sent. -/
def transmitted (m : Sending) : Bytes := m.chunks.flatMap (Chunk.bytes m.conn.sendBuf)

/-- The writes that are prepared between two states. -/
def prepared (c c' : Cell) : List InFlight :=
  ((c'.sq.drop c.sq.length).filter fun r => r.op = .send).map fun r =>
    ⟨r.off, c'.conn.sendBuf.read r.off r.len, r.zerocopy⟩

/-- The connection changes, which can hand over writes. -/
def next (m : Sending) (c : Cell) : Sending :=
  { m with cell := c, pending := m.pending ++ prepared m.cell c }

end Sending

/-- Everything else that happens on the connection: it leaves the send buffer alone. -/
structure SameBuffer (c c' : Conn) : Prop where
  buf : c'.sendBuf = c.sendBuf
  len : c'.sendLen = c.sendLen
  off : c'.sendOff = c.sendOff
  sending : c'.sendPending = c.sendPending
  ssl : c'.ssl = c.ssl
  zerocopyOk : c'.zerocopyOk = c.zerocopyOk
  accepted : wireBytes c'.log = wireBytes c.log

/-- The bytes that `tls_drive_write` hands to the TLS library. -/
def tlsWritten : List Nat → Conn → Bytes
  | [], _ => []
  | n :: written, c =>
      if c.sendLen ≤ c.sendOff then []
      else c.sendBuf.read c.sendOff (min n (c.sendLen - c.sendOff)) ++
        tlsWritten written { c with sendOff := min (c.sendOff + n) c.sendLen }

theorem advanceSend_of_le {n : Nat} {c : Cell} (h : c.conn.sendLen ≤ c.conn.sendOff + n) :
    advanceSend n c = c.upd fun conn => { conn with sendOff := 0, sendLen := 0 } :=
  if_pos h

theorem advanceSend_of_lt {n : Nat} {c : Cell} (h : ¬c.conn.sendLen ≤ c.conn.sendOff + n) :
    advanceSend n c = (submitSend (c.upd fun conn => { conn with sendOff := conn.sendOff + n })).1 :=
  if_neg h

theorem tlsDriveWriteFrom_of_le (fails : Bool) (written : List Nat) {c : Conn} (h : c.sendLen ≤ c.sendOff) :
    (tlsDriveWriteFrom fails written c).1 =
      { c with sendOff := 0, sendLen := 0, wantPollOut := false } := by
  cases written <;> rw [tlsDriveWriteFrom, if_pos h]

theorem tlsDriveWriteFrom_of_lt (fails : Bool) (n : Nat) (written : List Nat) {c : Conn}
    (h : ¬c.sendLen ≤ c.sendOff) :
    (tlsDriveWriteFrom fails (n :: written) c).1 =
      (tlsDriveWriteFrom fails written { c with sendOff := min (c.sendOff + n) c.sendLen }).1 := by
  rw [tlsDriveWriteFrom, if_neg h]

/-- What happens to the send buffer: `queue_plain_send`, the completion of any of the writes in flight
with any part of it, the end of the kernel's use of a chunk, `tls_drive_write`, or something else. -/
inductive SendEvent where
  | queue (data : Bytes)
  | sent (k n : Nat)
  | released (k : Nat)
  | wrote (t : TlsWrites)
  | other (c : Cell)

def SendEvent.Happens (m : Sending) : SendEvent → Prop
  | .queue _ | .released _ => True
  | .sent k n => ∃ p, m.pending[k]? = some p ∧ n ≤ p.region.length
  | .wrote _ => m.conn.ssl = true
  | .other c => SameBuffer m.conn c.conn

/-- New bytes come down on nothing that the kernel still reads. -/
def SendEvent.Spares (m : Sending) : SendEvent → Prop
  | .queue data =>
      data ≠ [] → (makeRoom m.conn data.length).sendLen + data.length ≤ ioBuf →
        ∀ off len, .lent off len ∈ m.chunks →
          off + len ≤ (makeRoom m.conn data.length).sendLen ∨
            (makeRoom m.conn data.length).sendLen + data.length ≤ off
  | _ => True

def sendStep (m : Sending) : SendEvent → Sending
  | .queue data => m.next (queuePlainSend m.cell data).1
  | .sent k n =>
      match m.pending[k]? with
      | none => m
      | some p =>
          { m with
            pending := m.pending.eraseIdx k
            chunks := m.chunks ++ [p.chunk m.conn.sendBuf n] : Sending }.next
              (advanceSend n (m.cell.upd fun c => { c with sendPending := false }))
  | .released k =>
      { m with chunks := m.chunks.modify k fun chunk => .copied (chunk.bytes m.conn.sendBuf) }
  | .wrote t => { m with
      cell := m.cell.upd fun c => (tlsDriveWrite t c).1
      chunks := m.chunks ++ [.copied (tlsWritten t.written m.conn)] }
  | .other c => { m with cell := c }

/-- What is asked of the send buffer: the bytes that were accepted are those that were transmitted
and, behind them, those between the offsets; the offsets stay in the buffer; at most one write is in
flight, and nobody writes to its region. -/
structure Sending.Intact (m : Sending) : Prop where
  off_le : m.conn.sendOff ≤ m.conn.sendLen
  len_le : m.conn.sendLen ≤ ioBuf
  bytes : m.accepted = m.transmitted ++ m.conn.unsent
  single : m.pending.length ≤ 1
  region : ∀ p ∈ m.pending, m.conn.sendBuf.read p.off p.region.length = p.region

/-- The invariant. -/
structure Sending.Sound (m : Sending) : Prop where
  off_le : m.conn.sendOff ≤ m.conn.sendLen
  len_le : m.conn.sendLen ≤ ioBuf
  bytes : m.accepted = m.transmitted ++ m.conn.unsent
  pending : m.pending = [] ∧ m.conn.sendPending = false ∨
    ∃ p, m.pending = [p] ∧ m.conn.sendPending = true ∧ m.conn.ssl = false ∧ p.off = m.conn.sendOff ∧
      p.region ≠ [] ∧ p.off + p.region.length ≤ m.conn.sendLen ∧
      m.conn.sendBuf.read p.off p.region.length = p.region ∧
      (p.zerocopy = true → m.conn.zerocopyOk = true)
  lent : ∀ off len, .lent off len ∈ m.chunks → m.conn.ssl = false ∧ m.conn.zerocopyOk = true

namespace Sending.Sound

variable {m : Sending}

theorem intact (h : m.Sound) : m.Intact := by
  refine ⟨h.off_le, h.len_le, h.bytes, ?_, fun p hp => ?_⟩
  · rcases h.pending with ⟨hnone, -⟩ | ⟨p, hone, -⟩
    · rw [hnone]
      exact Nat.zero_le 1
    · rw [hone]
      exact Nat.le_refl 1
  · rcases h.pending with ⟨hnone, -⟩ | ⟨q, hone, -, -, -, -, -, hread, -⟩
    · rw [hnone] at hp
      cases hp
    · rw [hone, List.mem_singleton] at hp
      rw [hp]
      exact hread

/-- A write in flight covers bytes that were not transmitted. -/
theorem none_of_sent (h : m.Sound) (hsent : m.conn.sendLen ≤ m.conn.sendOff) : m.pending = [] := by
  rcases h.pending with ⟨hnone, -⟩ | ⟨p, -, -, -, hoff, hne, hle, -⟩
  · exact hnone
  · have hpos := List.length_pos_of_ne_nil hne
    omega

theorem none_of_tls (h : m.Sound) (hssl : m.conn.ssl = true) : m.pending = [] := by
  rcases h.pending with ⟨hnone, -⟩ | ⟨p, -, -, hplain, -⟩
  · exact hnone
  · rw [hssl] at hplain
    cases hplain

theorem pending_none (h : m.Sound) (hnone : m.pending = []) : m.conn.sendPending = false := by
  rcases h.pending with ⟨-, hflag⟩ | ⟨p, hone, -⟩
  · exact hflag
  · rw [hnone] at hone
    cases hone

theorem other (h : m.Sound) {c : Cell} (hsame : SameBuffer m.conn c.conn) :
    Sending.Sound { m with cell := c } := by
  obtain ⟨hbuf, hlen, hoff, hsending, hssl, hzerocopy, haccepted⟩ := hsame
  have hunsent : c.conn.unsent = m.conn.unsent := by rw [Conn.unsent, Conn.unsent, hbuf, hlen, hoff]
  have htransmitted : ({ m with cell := c } : Sending).transmitted = m.transmitted :=
    congrArg (fun buf => m.chunks.flatMap (Chunk.bytes buf)) hbuf
  refine ⟨?_, ?_, ?_, ?_, fun off len hmem => ?_⟩
  · change c.conn.sendOff ≤ c.conn.sendLen
    rw [hoff, hlen]
    exact h.off_le
  · change c.conn.sendLen ≤ ioBuf
    rw [hlen]
    exact h.len_le
  · rw [htransmitted]
    exact haccepted.trans (h.bytes.trans (congrArg (m.transmitted ++ ·) hunsent.symm))
  · have hpending := h.pending
    rw [← hbuf, ← hlen, ← hoff, ← hsending, ← hssl, ← hzerocopy] at hpending
    exact hpending
  · change c.conn.ssl = false ∧ c.conn.zerocopyOk = true
    rw [hssl, hzerocopy]
    exact h.lent off len hmem

/-- A buffer that is used from its start again had nothing left, and no write in flight. -/
theorem room (h : m.Sound) (len : Nat) :
    Sending.Sound { m with cell := m.cell.upd fun c => makeRoom c len } := by
  unfold makeRoom Cell.upd
  dsimp only
  split
  · rename_i hreset
    have hsame : m.conn.sendOff = m.conn.sendLen := hreset.2
    have hnone := h.none_of_sent (Nat.le_of_eq hsame.symm)
    have hempty : m.conn.unsent = [] := by
      rw [Conn.unsent, hsame, Nat.sub_self]
      rfl
    refine ⟨Nat.le_refl 0, Nat.zero_le _, ?_, .inl ⟨hnone, h.pending_none hnone⟩, h.lent⟩
    have hbytes := h.bytes
    rw [hempty] at hbytes
    exact hbytes
  · exact h

/-- New bytes go behind those that wait, and spare what the kernel still reads. -/
theorem append (h : m.Sound) {data : Bytes} (hfits : m.conn.sendLen + data.length ≤ ioBuf)
    (hspares : ∀ off len, .lent off len ∈ m.chunks →
      off + len ≤ m.conn.sendLen ∨ m.conn.sendLen + data.length ≤ off) :
    Sending.Sound { m with cell := m.cell.upd fun c => { c with
      sendBuf := c.sendBuf.write c.sendLen data, sendLen := c.sendLen + data.length,
      log := c.log ++ [.queued data] } } := by
  have htransmitted : m.chunks.flatMap (Chunk.bytes (m.conn.sendBuf.write m.conn.sendLen data)) =
      m.transmitted := by
    refine List.flatMap_congr fun chunk hmem => ?_
    cases chunk with
    | copied data => rfl
    | lent off len =>
        rcases hspares off len hmem with hbelow | habove
        · exact Mem.read_write_below _ _ _ _ _ hbelow
        · exact Mem.read_write_above _ _ _ _ _ habove
  refine ⟨h.off_le.trans (Nat.le_add_right _ _), hfits, ?_, ?_, h.lent⟩
  · change wireBytes (m.conn.log ++ [.queued data]) =
      m.chunks.flatMap (Chunk.bytes (m.conn.sendBuf.write m.conn.sendLen data)) ++
        (m.conn.sendBuf.write m.conn.sendLen data).read m.conn.sendOff
          (m.conn.sendLen + data.length - m.conn.sendOff)
    rw [htransmitted, Mem.read_write_append_off _ _ _ _ h.off_le, wireBytes_append,
      ← List.append_assoc]
    have hbytes := h.bytes
    exact congrArg₂ (· ++ ·) hbytes (List.append_nil data)
  · rcases h.pending with hnone | ⟨p, hone, hflag, hssl, hoff, hne, hle, hread, hzero⟩
    · exact .inl hnone
    · exact .inr ⟨p, hone, hflag, hssl, hoff, hne, hle.trans (Nat.le_add_right _ _),
        (Mem.read_write_below _ _ _ _ _ hle).trans hread, hzero⟩

/-- Nothing is prepared. -/
theorem next_same (h : m.Sound) {c : Cell} (hsame : SameBuffer m.conn c.conn)
    (hsq : ∃ new, c.sq = m.cell.sq ++ new ∧ ∀ r ∈ new, r.op ≠ .send) : (m.next c).Sound := by
  obtain ⟨new, hnew, hops⟩ := hsq
  have hnone : prepared m.cell c = [] := by
    unfold prepared
    rw [hnew, List.drop_left, List.map_eq_nil_iff, List.filter_eq_nil_iff]
    intro r hr
    simpa using hops r hr
  unfold Sending.next
  rw [hnone, List.append_nil]
  exact h.other hsame

/-- What waits in the buffer of a plain connection is handed over, unless a write is in flight. -/
theorem submit (h : m.Sound) : (m.next (submitSend m.cell).1).Sound := by
  have hrefl : SameBuffer m.conn m.conn := ⟨rfl, rfl, rfl, rfl, rfl, rfl, rfl⟩
  unfold submitSend
  split
  · exact h.next_same hrefl ⟨[], (List.append_nil _).symm, by simp⟩
  rename_i hgo
  rw [not_or, not_or] at hgo
  obtain ⟨hssl, hidle, hunsent⟩ := hgo
  have hplain : m.conn.ssl = false := Bool.eq_false_iff.mpr hssl
  have hlt : m.conn.sendOff < m.conn.sendLen := Nat.not_le.mp hunsent
  have hnone : m.pending = [] := by
    rcases h.pending with ⟨hnone, -⟩ | ⟨p, -, hflag, -⟩
    · exact hnone
    · exact absurd hflag hidle
  rcases prep_cases m.cell m.cell.sendRequest (fun conn => { conn with sendPending := true }) with heq | heq
  · rw [heq]
    dsimp only
    have hprepared : prepared m.cell { m.cell with
        conn := { m.cell.conn with sendPending := true }
        sq := m.cell.sq ++ [m.cell.sendRequest] } =
        [⟨m.conn.sendOff, m.conn.unsent, m.cell.sendRequest.zerocopy⟩] := by
      unfold prepared
      rw [List.drop_left]
      rfl
    unfold Sending.next
    rw [hprepared, hnone, List.nil_append]
    have hlen : m.conn.unsent.length = m.conn.sendLen - m.conn.sendOff := Mem.read_length ..
    refine ⟨h.off_le, h.len_le, h.bytes, .inr ⟨_, rfl, rfl, hplain, rfl, ?_, ?_, ?_, fun hzero => ?_⟩,
      h.lent⟩
    · apply List.ne_nil_of_length_pos
      rw [hlen]
      omega
    · dsimp only
      rw [hlen]
      change m.conn.sendOff + (m.conn.sendLen - m.conn.sendOff) ≤ m.conn.sendLen
      omega
    · dsimp only
      rw [hlen]
      rfl
    · exact (Bool.and_eq_true_iff.mp (Bool.and_eq_true_iff.mp hzero).1).1
  · rw [heq]
    have hnote : SameBuffer m.conn (m.cell.note .noSqe).conn :=
      ⟨rfl, rfl, rfl, rfl, rfl, rfl, by simp [Cell.note, Conn.note, wireBytes, Sending.conn]⟩
    exact h.next_same hnote ⟨[], (List.append_nil _).symm, by simp⟩

/-- A poll reads no buffer. -/
theorem poll (h : m.Sound) {c : Cell} (hsame : SameBuffer m.conn c.conn) (hsq : c.sq = m.cell.sq) :
    (m.next (submitPoll c).1).Sound := by
  unfold submitPoll
  split
  · exact h.next_same hsame ⟨[], by rw [hsq, List.append_nil], by simp⟩
  dsimp only
  obtain ⟨hbuf, hlen, hoff, hsending, hssl, hzerocopy, haccepted⟩ := hsame
  generalize (c.conn.wantPollOut || decide (c.conn.sendOff < c.conn.sendLen)) = out
  rcases prep_cases c { c.request .poll with pollOut := out }
      (fun conn => { conn with pollPending := true, polledOut := out }) with heq | heq
  · rw [heq]
    exact h.next_same ⟨hbuf, hlen, hoff, hsending, hssl, hzerocopy, haccepted⟩
      ⟨[_], congrArg (· ++ _) hsq, by simp [Cell.request]⟩
  · rw [heq]
    have hnote : wireBytes (c.note .noSqe).conn.log = wireBytes c.conn.log := by
      simp [Cell.note, Conn.note, wireBytes]
    exact h.next_same ⟨hbuf, hlen, hoff, hsending, hssl, hzerocopy, hnote.trans haccepted⟩
      ⟨[], by rw [List.append_nil]; exact hsq, by simp⟩

theorem sameBuffer_unarmed (c : Conn) : SameBuffer c { c.noteUnarmed with wantPollOut := true } := by
  unfold Conn.noteUnarmed
  split
  · exact ⟨rfl, rfl, rfl, rfl, rfl, rfl, by simp [Conn.note, wireBytes]⟩
  · exact ⟨rfl, rfl, rfl, rfl, rfl, rfl, rfl⟩

/-- `queue_plain_send` keeps the invariant. -/
theorem queue (h : m.Sound) {data : Bytes} (hspares : (SendEvent.queue data).Spares m) :
    (m.next (queuePlainSend m.cell data).1).Sound := by
  unfold queuePlainSend
  split
  · exact h.next_same ⟨rfl, rfl, rfl, rfl, rfl, rfl, rfl⟩ ⟨[], (List.append_nil _).symm, by simp⟩
  dsimp only
  have hroom := h.room data.length
  split
  · exact hroom.next_same ⟨rfl, rfl, rfl, rfl, rfl, rfl, by simp [Conn.note, wireBytes, Sending.conn, Cell.upd]⟩
      ⟨[], (List.append_nil _).symm, by simp⟩
  rename_i hne hfits
  have happend := hroom.append (Nat.le_of_not_lt hfits) (hspares hne (Nat.le_of_not_lt hfits))
  split
  · exact happend.poll (sameBuffer_unarmed _) rfl
  · exact happend.submit

/-- It does not matter how what was transmitted is cut. -/
theorem recut (h : m.Sound) {chunks : List Chunk}
    (hbytes : chunks.flatMap (Chunk.bytes m.conn.sendBuf) = m.transmitted)
    (hlent : ∀ off len, .lent off len ∈ chunks → .lent off len ∈ m.chunks) :
    Sending.Sound { m with chunks := chunks } :=
  ⟨h.off_le, h.len_le, h.bytes.trans (congrArg (· ++ m.conn.unsent) hbytes.symm), h.pending,
    fun off len hmem => h.lent off len (hlent off len hmem)⟩

theorem nothing (h : m.Sound) : Sending.Sound { m with chunks := m.chunks ++ [.copied []] } := by
  refine h.recut ?_ fun off len hmem => (List.mem_append.mp hmem).resolve_right ?_
  · rw [List.flatMap_append]
    exact List.append_nil _
  · rw [List.mem_singleton]
    exact nofun

/-- A part of the write in flight was transmitted; the rest is handed over again. -/
theorem sent (h : m.Sound) {k n : Nat} (hhappens : (SendEvent.sent k n).Happens m) :
    (sendStep m (.sent k n)).Sound := by
  obtain ⟨p, hp, hn⟩ := hhappens
  rw [sendStep, hp]
  dsimp only
  rcases h.pending with ⟨hnone, -⟩ | ⟨q, hone, -, hssl, hoff, hne, hle, -, hzero⟩
  · rw [hnone] at hp
    cases hp
  obtain ⟨rfl, rfl⟩ : k = 0 ∧ q = p := by
    rw [hone] at hp
    cases k with
    | zero => exact ⟨rfl, Option.some.inj hp⟩
    | succ k => cases hp
  rw [hone, List.eraseIdx_zero, List.tail_cons]
  have htaken : (q.chunk m.conn.sendBuf n).bytes m.conn.sendBuf =
      m.conn.sendBuf.read m.conn.sendOff n := by
    unfold InFlight.chunk
    rw [hoff]
    split <;> rfl
  have hunsent : m.conn.unsent = m.conn.sendBuf.read m.conn.sendOff n ++
      m.conn.sendBuf.read (m.conn.sendOff + n) (m.conn.sendLen - (m.conn.sendOff + n)) := by
    rw [Conn.unsent, ← Mem.read_add]
    congr 1
    omega
  have hbytes : m.accepted =
      (m.chunks ++ [q.chunk m.conn.sendBuf n]).flatMap (Chunk.bytes m.conn.sendBuf) ++
        m.conn.sendBuf.read (m.conn.sendOff + n) (m.conn.sendLen - (m.conn.sendOff + n)) := by
    rw [List.flatMap_append, List.flatMap_singleton, htaken, h.bytes, hunsent, ← List.append_assoc]
    rfl
  have hlent : ∀ off len, .lent off len ∈ m.chunks ++ [q.chunk m.conn.sendBuf n] →
      m.conn.ssl = false ∧ m.conn.zerocopyOk = true := by
    intro off len hmem
    rcases List.mem_append.mp hmem with hmem | hmem
    · exact h.lent off len hmem
    · rw [List.mem_singleton, InFlight.chunk] at hmem
      split at hmem
      · rename_i hq
        exact ⟨hssl, hzero hq⟩
      · cases hmem
  by_cases hdone : m.conn.sendLen ≤ m.conn.sendOff + n
  · rw [advanceSend_of_le (c := m.cell.upd fun c => { c with sendPending := false }) hdone]
    rw [Nat.sub_eq_zero_of_le hdone, Mem.read_zero] at hbytes
    have hnone : prepared m.cell ((m.cell.upd fun c => { c with sendPending := false }).upd
        fun c => { c with sendOff := 0, sendLen := 0 }) = [] := by
      unfold prepared Cell.upd
      rw [List.drop_length]
      rfl
    unfold Sending.next
    rw [hnone]
    exact ⟨Nat.le_refl 0, Nat.zero_le _, hbytes, .inl ⟨rfl, rfl⟩, hlent⟩
  · rw [advanceSend_of_lt (c := m.cell.upd fun c => { c with sendPending := false }) hdone]
    have hmore : Sending.Sound { m with
        cell := (m.cell.upd fun c => { c with sendPending := false }).upd
          fun c => { c with sendOff := c.sendOff + n }
        pending := []
        chunks := m.chunks ++ [q.chunk m.conn.sendBuf n] } :=
      ⟨Nat.le_of_not_le hdone, h.len_le, hbytes, .inl ⟨rfl, rfl⟩, hlent⟩
    exact hmore.submit

/-- The kernel has read what it was lent. -/
theorem released (h : m.Sound) (k : Nat) : (sendStep m (.released k)).Sound := by
  have hmodify : ∀ (chunks : List Chunk) (k : Nat),
      (chunks.modify k fun chunk => .copied (chunk.bytes m.conn.sendBuf)).flatMap
          (Chunk.bytes m.conn.sendBuf) = chunks.flatMap (Chunk.bytes m.conn.sendBuf) ∧
        ∀ off len, .lent off len ∈ chunks.modify k (fun chunk => .copied (chunk.bytes m.conn.sendBuf)) →
          .lent off len ∈ chunks := by
    intro chunks
    induction chunks with
    | nil =>
        intro k
        rw [List.modify_nil]
        exact ⟨rfl, fun _ _ hmem => hmem⟩
    | cons chunk chunks ih =>
        rintro (_ | k)
        · rw [List.modify_zero_cons]
          refine ⟨rfl, fun off len hmem => ?_⟩
          rcases List.mem_cons.mp hmem with heq | hmem
          · cases heq
          · exact List.mem_cons_of_mem _ hmem
        · obtain ⟨hsame, hlent⟩ := ih k
          rw [List.modify_succ_cons, List.flatMap_cons, List.flatMap_cons, hsame]
          refine ⟨rfl, fun off len hmem => ?_⟩
          rcases List.mem_cons.mp hmem with heq | hmem
          · exact heq ▸ List.mem_cons_self
          · exact List.mem_cons_of_mem _ (hlent off len hmem)
  obtain ⟨hsame, hlent⟩ := hmodify m.chunks k
  exact h.recut hsame hlent

/-- A buffer that is used up is used from its start again. -/
theorem drained (h : m.Sound) (hssl : m.conn.ssl = true) (hle : m.conn.sendLen ≤ m.conn.sendOff) :
    Sending.Sound { m with
      cell := m.cell.upd fun c => { c with sendOff := 0, sendLen := 0, wantPollOut := false } } := by
  have hempty : m.conn.unsent = [] := by
    rw [Conn.unsent, Nat.sub_eq_zero_of_le hle, Mem.read_zero]
  have hnone := h.none_of_tls hssl
  have hbytes := h.bytes
  rw [hempty] at hbytes
  exact ⟨Nat.le_refl 0, Nat.zero_le _, hbytes, .inl ⟨hnone, h.pending_none hnone⟩, h.lent⟩

/-- One write of the TLS library. -/
theorem written (h : m.Sound) (hssl : m.conn.ssl = true) (n : Nat) :
    Sending.Sound { m with
      cell := m.cell.upd fun c => { c with sendOff := min (c.sendOff + n) c.sendLen }
      chunks := m.chunks ++
        [.copied (m.conn.sendBuf.read m.conn.sendOff (min n (m.conn.sendLen - m.conn.sendOff)))] } := by
  have hnone := h.none_of_tls hssl
  have hoff := h.off_le
  refine ⟨Nat.min_le_right _ _, h.len_le, ?_, .inl ⟨hnone, h.pending_none hnone⟩, fun off len hmem => ?_⟩
  · change m.accepted = (m.chunks ++ [_]).flatMap (Chunk.bytes m.conn.sendBuf) ++ m.conn.sendBuf.read
      (min (m.conn.sendOff + n) m.conn.sendLen) (m.conn.sendLen - min (m.conn.sendOff + n) m.conn.sendLen)
    have hstart : min (m.conn.sendOff + n) m.conn.sendLen =
        m.conn.sendOff + min n (m.conn.sendLen - m.conn.sendOff) := by omega
    rw [List.flatMap_append, List.flatMap_singleton, Chunk.bytes, List.append_assoc, hstart, ← Mem.read_add,
      h.bytes, Conn.unsent, transmitted]
    congr 2
    omega
  · rcases List.mem_append.mp hmem with hmem | hmem
    · exact h.lent off len hmem
    · rw [List.mem_singleton] at hmem
      cases hmem

/-- The writes of the TLS library move the same offset, and no other write is in flight. -/
theorem wroteFrom (fails : Bool) (written : List Nat) (h : m.Sound) (hssl : m.conn.ssl = true) :
    Sending.Sound { m with
      cell := m.cell.upd fun c => (tlsDriveWriteFrom fails written c).1
      chunks := m.chunks ++ [.copied (tlsWritten written m.conn)] } := by
  induction written generalizing m with
  | nil =>
      by_cases hle : m.conn.sendLen ≤ m.conn.sendOff
      · have hsame : (m.cell.upd fun c => (tlsDriveWriteFrom fails [] c).1) =
            m.cell.upd fun c => { c with sendOff := 0, sendLen := 0, wantPollOut := false } :=
          congrArg (fun conn => { m.cell with conn := conn }) (tlsDriveWriteFrom_of_le fails [] hle)
        rw [tlsWritten, hsame]
        exact (h.drained hssl hle).nothing
      · have hother : Sending.Sound { m with
            cell := m.cell.upd fun c => (tlsDriveWriteFrom fails [] c).1 } := by
          refine h.other ?_
          unfold Cell.upd tlsDriveWriteFrom
          dsimp only
          rw [if_neg (show ¬m.cell.conn.sendLen ≤ m.cell.conn.sendOff from hle)]
          cases fails <;> exact ⟨rfl, rfl, rfl, rfl, rfl, rfl, rfl⟩
        rw [tlsWritten]
        exact hother.nothing
  | cons n written ih =>
      by_cases hle : m.conn.sendLen ≤ m.conn.sendOff
      · have hsame : (m.cell.upd fun c => (tlsDriveWriteFrom fails (n :: written) c).1) =
            m.cell.upd fun c => { c with sendOff := 0, sendLen := 0, wantPollOut := false } :=
          congrArg (fun conn => { m.cell with conn := conn }) (tlsDriveWriteFrom_of_le fails _ hle)
        rw [tlsWritten, if_pos hle, hsame]
        exact (h.drained hssl hle).nothing
      · have hsame : (m.cell.upd fun c => (tlsDriveWriteFrom fails (n :: written) c).1) =
            (m.cell.upd fun c => { c with sendOff := min (c.sendOff + n) c.sendLen }).upd
              fun c => (tlsDriveWriteFrom fails written c).1 :=
          congrArg (fun conn => { m.cell with conn := conn }) (tlsDriveWriteFrom_of_lt fails n written hle)
        rw [tlsWritten, if_neg hle, hsame]
        refine (ih (h.written hssl n) hssl).recut ?_ fun off len hmem => ?_
        · simp [transmitted, Chunk.bytes]
          rfl
        · rcases List.mem_append.mp hmem with hmem | hmem
          · exact List.mem_append_left _ (List.mem_append_left _ hmem)
          · rw [List.mem_singleton] at hmem
            cases hmem

/-- `tls_drive_write` keeps the invariant. -/
theorem wrote (h : m.Sound) (hssl : m.conn.ssl = true) (t : TlsWrites) :
    (sendStep m (.wrote t)).Sound := h.wroteFrom t.fails t.written hssl

/-- One step keeps the invariant. -/
theorem step (h : m.Sound) {e : SendEvent} (hhappens : e.Happens m) (hspares : e.Spares m) :
    (sendStep m e).Sound := by
  cases e with
  | queue data => exact h.queue hspares
  | sent k n => exact h.sent hhappens
  | released k => exact h.released k
  | wrote t => exact h.wrote hhappens t
  | other c => exact h.other hhappens

end Sending.Sound

/-! Which writes are made without a copy is decided when the connection is accepted. -/

/-- Whether the kernel is never lent a region of the send buffer. -/
def Conn.Copying (c : Conn) : Prop := c.ssl = true ∨ c.zerocopyOk = false

theorem copying_prep {c : Cell} (h : c.conn.Copying) (r : Request) {mark : Conn → Conn}
    (hmark : (mark c.conn).Copying) : (c.prep r mark).1.conn.Copying := by
  rcases prep_cases c r mark with heq | heq
  · rw [heq]
    exact hmark
  · rw [heq]
    exact h

theorem copying_submitSend {c : Cell} (h : c.conn.Copying) : (submitSend c).1.conn.Copying := by
  unfold submitSend
  split
  · exact h
  · exact copying_prep h _ h

theorem copying_submitPoll {c : Cell} (h : c.conn.Copying) : (submitPoll c).1.conn.Copying := by
  unfold submitPoll
  split
  · exact h
  · exact copying_prep h _ h

theorem copying_queuePlainSend {c : Cell} (h : c.conn.Copying) (data : Bytes) :
    (queuePlainSend c data).1.conn.Copying := by
  have hroom : (makeRoom c.conn data.length).Copying := by
    unfold makeRoom
    split <;> exact h
  unfold queuePlainSend
  split
  · exact h
  dsimp only
  split
  · exact hroom
  split
  · have hunarmed : ∀ conn : Conn, conn.Copying →
        Conn.Copying { conn.noteUnarmed with wantPollOut := true } := by
      intro conn hconn
      unfold Conn.noteUnarmed
      split <;> exact hconn
    exact copying_submitPoll (hunarmed _ hroom)
  · exact copying_submitSend hroom

theorem copying_advanceSend {c : Cell} (h : c.conn.Copying) (n : Nat) :
    (advanceSend n c).conn.Copying := by
  unfold advanceSend
  dsimp only
  split
  · exact h
  · exact copying_submitSend h

theorem copying_tlsDriveWriteFrom {c : Conn} (h : c.Copying) (fails : Bool) (written : List Nat) :
    (tlsDriveWriteFrom fails written c).1.Copying := by
  induction written generalizing c with
  | nil =>
      unfold tlsDriveWriteFrom
      split
      · exact h
      · split <;> exact h
  | cons n written ih =>
      unfold tlsDriveWriteFrom
      split
      · exact h
      · exact ih h

theorem copying_step {m : Sending} (h : m.conn.Copying) {e : SendEvent} (hhappens : e.Happens m) :
    (sendStep m e).conn.Copying := by
  cases e with
  | queue data => exact copying_queuePlainSend h data
  | sent k n =>
      obtain ⟨p, hp, -⟩ := hhappens
      rw [sendStep, hp]
      exact copying_advanceSend (c := m.cell.upd fun c => { c with sendPending := false }) h n
  | released k => exact h
  | wrote t => exact copying_tlsDriveWriteFrom h t.fails t.written
  | other c =>
      obtain ⟨-, -, -, -, hssl, hzerocopy, -⟩ := hhappens
      change c.conn.ssl = true ∨ c.conn.zerocopyOk = false
      rw [hssl, hzerocopy]
      exact h

namespace Sending

/-- A connection that was just accepted: zeroed, but for its descriptor, its TLS session and whether
its socket allows writes without a copy. -/
def start (fd : Option Nat) (gen : Nat) (ssl zerocopyOk : Bool) (slot : Slot) (sq : List Request) :
    Sending :=
  ⟨⟨{ Conn.fresh gen with fd := fd, ssl := ssl, zerocopyOk := zerocopyOk }, slot, sq⟩, [], []⟩

theorem sound_start (fd : Option Nat) (gen : Nat) (ssl zerocopyOk : Bool) (slot : Slot)
    (sq : List Request) : (start fd gen ssl zerocopyOk slot sq).Sound :=
  ⟨Nat.le_refl 0, Nat.zero_le _, rfl, .inl ⟨rfl, rfl⟩, fun _ _ hmem => by cases hmem⟩

/-- In every run of a connection in which no new bytes come down on what the kernel still reads, the
send buffer is intact. -/
theorem buffer_intact (fd : Option Nat) (gen : Nat) (ssl zerocopyOk : Bool) (slot : Slot)
    (sq : List Request) {events : List SendEvent}
    (hrun : Runs.Along sendStep (fun m e => e.Happens m ∧ e.Spares m)
      (start fd gen ssl zerocopyOk slot sq) events) :
    (Runs.run sendStep (start fd gen ssl zerocopyOk slot sq) events).Intact :=
  (hrun.invariant (fun _ _ hm he => hm.step he.1 he.2)
    (sound_start fd gen ssl zerocopyOk slot sq)).intact

/-- Without writes that are not copied it is intact in every run. -/
theorem buffer_intact_copied (fd : Option Nat) (gen : Nat) (ssl zerocopyOk : Bool) (slot : Slot)
    (sq : List Request) (hcopying : ssl = true ∨ zerocopyOk = false) {events : List SendEvent}
    (hrun : Runs.Along sendStep (fun m e => e.Happens m) (start fd gen ssl zerocopyOk slot sq) events) :
    (Runs.run sendStep (start fd gen ssl zerocopyOk slot sq) events).Intact := by
  have hstep : ∀ (m : Sending) (e : SendEvent), m.Sound ∧ m.conn.Copying → e.Happens m →
      (sendStep m e).Sound ∧ (sendStep m e).conn.Copying := by
    intro m e hm he
    refine ⟨hm.1.step he ?_, copying_step hm.2 he⟩
    cases e with
    | queue data =>
        intro _ _ off len hmem
        obtain ⟨hplain, hzerocopy⟩ := hm.1.lent off len hmem
        rcases hm.2 with h | h
        · cases hplain.symm.trans h
        · cases hzerocopy.symm.trans h
    | _ => trivial
  exact (hrun.invariant hstep ⟨sound_start fd gen ssl zerocopyOk slot sq, hcopying⟩).1.intact

/-- A plain connection whose socket allows writes without a copy, and a reply that is large enough for
one. -/
def lending (slot : Slot) : Sending := start none 1 false true slot []

def largeReply : Bytes := List.replicate 4096 1

theorem happens_sent {m : Sending} {k n : Nat}
    (h : (m.pending[k]?).any (fun p => n ≤ p.region.length) = true) : (SendEvent.sent k n).Happens m := by
  obtain ⟨p, hp, hn⟩ := (Option.any_eq_true _ _).mp h
  exact ⟨p, hp, of_decide_eq_true hn⟩

/-- Of the reply all but one byte is sent, and the kernel still reads it. -/
def lentReply (slot : Slot) : Sending := sendStep (sendStep (lending slot) (.queue largeReply)) (.sent 0 4095)

theorem lentReply_spares : (SendEvent.queue [2]).Spares (lentReply ⟨0, by decide⟩) := by
  have hchunks : (lentReply ⟨0, by decide⟩).chunks = [.lent 0 4095] := by decide +kernel
  have hstart : (makeRoom (lentReply ⟨0, by decide⟩).conn 1).sendLen = 4096 := by decide +kernel
  intro _ _ off len hmem
  rw [hchunks, List.mem_singleton] at hmem
  cases hmem
  refine .inl ?_
  rw [List.length_singleton, hstart]
  decide

/-- The last byte is taken while another one waits. -/
theorem buffer_intact_large : (Runs.run sendStep (lending ⟨0, by decide⟩)
    [.queue largeReply, .sent 0 4095, .queue [2], .sent 0 1]).Intact := by
  have hempty : (SendEvent.queue largeReply).Spares (lending ⟨0, by decide⟩) :=
    fun _ _ _ _ hmem => by cases hmem
  have hmost : (SendEvent.sent 0 4095).Happens (sendStep (lending ⟨0, by decide⟩) (.queue largeReply)) :=
    happens_sent (by decide +kernel)
  have hlast : (SendEvent.sent 0 1).Happens (sendStep (lentReply ⟨0, by decide⟩) (.queue [2])) :=
    happens_sent (by decide +kernel)
  have hrun : Runs.Along sendStep (fun m e => e.Happens m ∧ e.Spares m) (lending ⟨0, by decide⟩)
      [.queue largeReply, .sent 0 4095, .queue [2], .sent 0 1] :=
    ⟨⟨trivial, hempty⟩, ⟨hmost, trivial⟩, ⟨trivial, lentReply_spares⟩, ⟨hlast, trivial⟩, trivial⟩
  exact buffer_intact none 1 false true ⟨0, by decide⟩ [] hrun

/-- The buffer is used from its start again as soon as the reply is reported as sent, and the first
byte of the reply becomes another one. -/
theorem not_buffer_intact :
    Runs.Along sendStep (fun m e => e.Happens m) (lending ⟨0, by decide⟩)
        [.queue largeReply, .sent 0 4096, .queue [2]] ∧
      ¬ (Runs.run sendStep (lending ⟨0, by decide⟩)
        [.queue largeReply, .sent 0 4096, .queue [2]]).Intact := by
  refine ⟨⟨trivial, happens_sent (by decide +kernel), trivial, trivial⟩, fun h => ?_⟩
  have hfirst := congrArg List.head? h.bytes
  revert hfirst
  decide +kernel

end Sending
