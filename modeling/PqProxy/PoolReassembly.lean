import PqProxy.PoolClean
import PqProxy.LoopConn

/-! Reassembly of a response from received chunks. A chunk may end anywhere inside a message; what is
left of it waits in an accumulator that is as large as one chunk, and the next chunk is refused when
both together exceed it. Hence a stream that fits the accumulator as a whole is reassembled from all
chunks alike, and a longer one from some and not from others. -/

/-- The accumulated bytes that no message has been taken from. -/
def BackendConn.unread (c : BackendConn) : Bytes := c.recvAcc.read 0 c.recvAccLen

@[simp] theorem RespBuf.length_bytes (resp : RespBuf) : resp.bytes.length = resp.len :=
  Mem.read_length ..

theorem lengthField_read (m : Mem) (off : Nat) {n : Nat} (h : 5 ≤ n) :
    Framing.lengthField (m.read off n) =
      some (Framing.be32 (m (off + 1)) (m (off + 2)) (m (off + 3)) (m (off + 4))) := by
  obtain ⟨k, rfl⟩ := Nat.exists_eq_add_of_le h
  rw [Mem.read_add, Framing.lengthField_append (by simp)]
  rfl

section

variable {w : Pqwire} (cap : Nat)

theorem beFilterAppend_framed (hw : w.FollowsPipeline) (hp : w.PeeksLength) {m : Bytes}
    (hm : Framing.Framed m) (c : BackendConn) (resp : RespBuf) :
    beFilterAppend w c m resp cap =
      if w.filterBackendType (m.headD 0) c.skipParseBind then
        ({ c with pipeSt := c.pipeSt.fed m }, resp, some (c.pipeSt.fed m).complete)
      else if cap < resp.len + m.length then ({ c with pipeSt := c.pipeSt.fed m }, resp, none)
      else
        ({ c with pipeSt := c.pipeSt.fed m }, ⟨resp.buf.write resp.len m, resp.len + m.length⟩,
          some (c.pipeSt.fed m).complete) := by
  have hfive := hm.2
  rw [beFilterAppend, if_neg (by omega), hp.peek m hm]
  dsimp only
  rw [if_neg (by simp), hw.feed _ m hm]
  rfl

theorem recvLoop_unfinished {off : Nat} {c : BackendConn}
    (h : Framing.Unfinished (c.recvAcc.read off (c.recvAccLen - off))) (fuel : Nat)
    (resp : RespBuf) : recvLoop w cap fuel off c resp = (c, resp, off, .more) := by
  cases fuel with
  | zero => rfl
  | succ fuel =>
      rw [recvLoop]
      split
      · rfl
      · rename_i hlen
        rcases h with hshort | ⟨len, hfield, hfour, hshort⟩
        · rw [Mem.read_length] at hshort
          omega
        · rw [Mem.read_length] at hshort
          rw [lengthField_read _ _ (by omega), Option.some.injEq] at hfield
          dsimp only
          rw [hfield, if_neg (by omega), if_pos (by omega)]

theorem recvLoop_message {off : Nat} {c : BackendConn} {m rest : Bytes} (hm : Framing.Framed m)
    (h : c.recvAcc.read off (c.recvAccLen - off) = m ++ rest) (fuel : Nat) (resp : RespBuf) :
    recvLoop w cap (fuel + 1) off c resp =
      match beFilterAppend w c m resp cap with
      | (c, resp, none) => (c, resp, off, .failed)
      | (c, resp, some true) => (c, resp, off + m.length, .complete)
      | (c, resp, some false) => recvLoop w cap fuel (off + m.length) c resp := by
  have hfive := hm.2
  have hlen := congrArg List.length h
  rw [Mem.read_length, List.length_append] at hlen
  have hfield : Framing.be32 (c.recvAcc (off + 1)) (c.recvAcc (off + 2)) (c.recvAcc (off + 3))
      (c.recvAcc (off + 4)) = m.length - 1 := by
    have hread := lengthField_read c.recvAcc off (n := c.recvAccLen - off) (by omega)
    rw [h, Framing.lengthField_append hfive, hm.1] at hread
    exact (Option.some.inj hread).symm
  have hmsg : c.recvAcc.read off m.length = m := by
    rw [← Mem.take_read c.recvAcc off (n := c.recvAccLen - off) (by omega), h, List.take_left]
  rw [recvLoop, if_neg (by omega)]
  dsimp only
  rw [hfield, Nat.add_sub_cancel' (by omega), hmsg, if_neg (by omega)]
  exact if_neg (by omega)

/-- The messages before a ReadyForQuery are taken one by one, until one does not fit the caller's
buffer. -/
theorem recvLoop_messages (hw : w.FollowsPipeline) (hp : w.PeeksLength) (ms : List Bytes)
    (hms : ∀ m ∈ ms, Framing.Framed m ∧ Framing.typeOf m ≠ some msgReadyForQuery) {tail : Bytes}
    (fuel : Nat) {off : Nat} {c : BackendConn} {resp : RespBuf} (hst : c.pipeSt.complete = false)
    (hroom : resp.len ≤ cap) (hoff : off ≤ c.recvAccLen)
    (h : c.recvAcc.read off (c.recvAccLen - off) = ms.flatten ++ tail) :
    (cap < resp.len + (keptBytes w c.skipParseBind ms).length ∧
        (recvLoop w cap (fuel + ms.length) off c resp).2.2.2 = .failed) ∨
      ∃ resp', resp'.bytes = resp.bytes ++ keptBytes w c.skipParseBind ms ∧ resp'.len ≤ cap ∧
        recvLoop w cap (fuel + ms.length) off c resp =
          recvLoop w cap fuel (off + ms.flatten.length)
            { c with pipeSt := c.pipeSt.fedAll ms } resp' := by
  induction ms generalizing off c resp with
  | nil => exact Or.inr ⟨resp, by simp [keptBytes], hroom, rfl⟩
  | cons m ms ih =>
      obtain ⟨hm, htype⟩ := hms m List.mem_cons_self
      have hrest : ∀ x ∈ ms, Framing.Framed x ∧ Framing.typeOf x ≠ some msgReadyForQuery :=
        fun x hx => hms x (List.mem_cons_of_mem _ hx)
      rw [List.flatten_cons, List.append_assoc] at h
      have hlen := congrArg List.length h
      rw [Mem.read_length, List.length_append] at hlen
      have hfed : (c.pipeSt.fed m).complete = false := by simp [PipelineStatus.fed, hst, htype]
      -- what lies behind `m` is what the rest of the loop starts from
      have hnext : c.recvAcc.read (off + m.length) (c.recvAccLen - (off + m.length)) =
          ms.flatten ++ tail := by
        rw [show c.recvAccLen - off = m.length + (c.recvAccLen - (off + m.length)) by omega,
          Mem.read_add] at h
        exact (List.append_inj h (Mem.read_length ..)).2
      rw [List.length_cons, ← Nat.add_assoc, recvLoop_message cap hm h,
        beFilterAppend_framed cap hw hp hm, keptBytes_cons, hfed, List.flatten_cons,
        List.length_append, ← Nat.add_assoc]
      by_cases hskip : w.filterBackendType (m.headD 0) c.skipParseBind = true
      · rw [if_pos hskip, if_pos hskip]
        exact @ih hrest (off + m.length) { c with pipeSt := c.pipeSt.fed m } resp hfed hroom
          (by dsimp only; omega) hnext
      · rw [if_neg hskip, if_neg hskip, List.length_append]
        by_cases hfull : cap < resp.len + m.length
        · rw [if_pos hfull]
          exact Or.inl ⟨by omega, rfl⟩
        · rw [if_neg hfull]
          have hgrown : (⟨resp.buf.write resp.len m, resp.len + m.length⟩ : RespBuf).bytes =
              resp.bytes ++ m := Mem.read_write_append _ _ _
          rcases @ih hrest (off + m.length) { c with pipeSt := c.pipeSt.fed m }
            ⟨resp.buf.write resp.len m, resp.len + m.length⟩ hfed (Nat.le_of_not_lt hfull)
            (by dsimp only; omega) hnext with ⟨hover, hfail⟩ | ⟨resp', hbytes, hroom', hloop⟩
          · exact Or.inl ⟨by dsimp only at hover; omega, hfail⟩
          · refine Or.inr ⟨resp', ?_, hroom', hloop⟩
            rw [hbytes, hgrown, List.append_assoc]

/-- A chunk that does not fit behind the bytes that are left is refused. -/
theorem asyncOnRecv_overflow {c : BackendConn} {data : Bytes}
    (h : beRecvCap < c.recvAccLen + data.length) (resp : RespBuf) :
    (asyncOnRecv w c data resp cap).2.2 = .failed := by
  rw [asyncOnRecv, if_pos h]

/-- The accumulator with a new chunk in it. -/
def BackendConn.filled (c : BackendConn) (data : Bytes) : BackendConn :=
  { c with
    recvAcc := c.recvAcc.write c.recvAccLen data, recvAccLen := c.recvAccLen + data.length }

theorem unread_filled (c : BackendConn) (data : Bytes) :
    (c.filled data).unread = c.unread ++ data := Mem.read_write_append _ _ _

theorem length_unread (c : BackendConn) : c.unread.length = c.recvAccLen := Mem.read_length ..

theorem read_behind {c : BackendConn} {used rest : Bytes} (h : c.unread = used ++ rest) :
    c.recvAcc.read used.length (c.recvAccLen - used.length) = rest := by
  have hlen := congrArg List.length h
  rw [length_unread, List.length_append] at hlen
  rw [BackendConn.unread,
    show c.recvAccLen = used.length + (c.recvAccLen - used.length) by omega, Mem.read_add,
    Nat.zero_add] at h
  exact (List.append_inj h (Mem.read_length ..)).2

theorem asyncOnRecv_eq {c : BackendConn} {data : Bytes}
    (hfit : c.recvAccLen + data.length ≤ beRecvCap) (resp : RespBuf) :
    asyncOnRecv w c data resp cap =
      match recvLoop w cap ((c.filled data).recvAccLen + 1) 0 (c.filled data) resp with
      | (c, resp, _, .failed) => (c, resp, .failed)
      | (c, resp, off, exit) =>
          ({ c with
              recvAcc := c.recvAcc.write 0 (c.recvAcc.read off (c.recvAccLen - off)),
              recvAccLen := c.recvAccLen - off }, resp, exit) := by
  rw [asyncOnRecv, if_neg (Nat.not_lt.mpr hfit)]
  rfl

theorem asyncOnRecv_failed {c : BackendConn} {data : Bytes}
    (hfit : c.recvAccLen + data.length ≤ beRecvCap) {resp : RespBuf}
    (h : (recvLoop w cap ((c.filled data).recvAccLen + 1) 0 (c.filled data) resp).2.2.2 = .failed) :
    (asyncOnRecv w c data resp cap).2.2 = .failed := by
  rw [asyncOnRecv_eq _ hfit]
  split
  · rfl
  · rename_i hne heq
    rw [heq] at h
    exact absurd h hne

theorem asyncOnRecv_loop {c c' : BackendConn} {data : Bytes}
    (hfit : c.recvAccLen + data.length ≤ beRecvCap) {resp resp' : RespBuf} {off : Nat}
    {exit : RecvExit} (hexit : exit ≠ .failed)
    (h : recvLoop w cap ((c.filled data).recvAccLen + 1) 0 (c.filled data) resp =
      (c', resp', off, exit)) :
    asyncOnRecv w c data resp cap =
      ({ c' with
          recvAcc := c'.recvAcc.write 0 (c'.recvAcc.read off (c'.recvAccLen - off)),
          recvAccLen := c'.recvAccLen - off }, resp', exit) := by
  rw [asyncOnRecv_eq _ hfit, h]
  cases exit with
  | failed => exact absurd rfl hexit
  | more => rfl
  | complete => rfl

/-- The bytes behind the messages that were taken move to the front of the accumulator. -/
theorem unread_moved {c : BackendConn} {used rest : Bytes} (h : c.unread = used ++ rest)
    (st : PipelineStatus) :
    BackendConn.unread { c with
      pipeSt := st,
      recvAcc := c.recvAcc.write 0 (c.recvAcc.read used.length (c.recvAccLen - used.length)),
      recvAccLen := c.recvAccLen - used.length } = rest := by
  have hlen := congrArg List.length h
  rw [length_unread, List.length_append] at hlen
  rw [BackendConn.unread]
  dsimp only
  rw [read_behind h, show c.recvAccLen - used.length = rest.length by omega, Mem.read_write_self]

/-- The loop on a new chunk, after the messages before a ReadyForQuery. -/
theorem filled_messages (hw : w.FollowsPipeline) (hp : w.PeeksLength) {ms : List Bytes}
    (hms : ∀ m ∈ ms, Framing.Framed m ∧ Framing.typeOf m ≠ some msgReadyForQuery) {tail : Bytes}
    {c : BackendConn} {data : Bytes} {resp : RespBuf} (hst : c.pipeSt.complete = false)
    (hroom : resp.len ≤ cap) (h : c.unread ++ data = ms.flatten ++ tail) :
    (cap < resp.len + (keptBytes w c.skipParseBind ms).length ∧
        (recvLoop w cap ((c.filled data).recvAccLen + 1) 0 (c.filled data) resp).2.2.2 =
          .failed) ∨
      ∃ resp' fuel, resp'.bytes = resp.bytes ++ keptBytes w c.skipParseBind ms ∧
        resp'.len ≤ cap ∧ recvLoop w cap ((c.filled data).recvAccLen + 1) 0 (c.filled data) resp =
          recvLoop w cap (fuel + 1) ms.flatten.length
            { c.filled data with pipeSt := c.pipeSt.fedAll ms } resp' := by
  have hread := unread_filled c data
  rw [h] at hread
  have hlen := length_unread (c.filled data)
  rw [hread, List.length_append] at hlen
  have hcount := Framing.length_le_flatten fun m hm => (hms m hm).1
  have hfuel : (c.filled data).recvAccLen + 1 =
      (c.filled data).recvAccLen - ms.length + 1 + ms.length := by omega
  rw [hfuel]
  rcases recvLoop_messages cap hw hp ms hms ((c.filled data).recvAccLen - ms.length + 1)
    (c := c.filled data) hst hroom
    (Nat.zero_le _) hread with hfail | ⟨resp', hbytes, hroom', hloop⟩
  · exact Or.inl hfail
  · rw [Nat.zero_add] at hloop
    exact Or.inr ⟨resp', _, hbytes, hroom', hloop⟩

/-- A chunk that fits and ends inside a message, or between two. -/
theorem asyncOnRecv_more (hw : w.FollowsPipeline) (hp : w.PeeksLength) {ms : List Bytes}
    (hms : ∀ m ∈ ms, Framing.Framed m ∧ Framing.typeOf m ≠ some msgReadyForQuery) {tail : Bytes}
    (htail : Framing.Unfinished tail) {c : BackendConn} (data : Bytes) (resp : RespBuf)
    (hst : c.pipeSt.complete = false) (hroom : resp.len ≤ cap)
    (hfit : c.recvAccLen + data.length ≤ beRecvCap)
    (h : c.unread ++ data = ms.flatten ++ tail) :
    (cap < resp.len + (keptBytes w c.skipParseBind ms).length ∧
        (asyncOnRecv w c data resp cap).2.2 = .failed) ∨
      ∃ c' resp', asyncOnRecv w c data resp cap = (c', resp', .more) ∧ c'.unread = tail ∧
        c'.pipeSt = c.pipeSt.fedAll ms ∧ c'.skipParseBind = c.skipParseBind ∧
        resp'.bytes = resp.bytes ++ keptBytes w c.skipParseBind ms ∧ resp'.len ≤ cap := by
  rcases filled_messages cap hw hp hms hst hroom h with
    ⟨hover, hfail⟩ | ⟨resp', fuel, hbytes, hroom', hloop⟩
  · exact Or.inl ⟨hover, asyncOnRecv_failed cap hfit hfail⟩
  · let c₁ : BackendConn := { c.filled data with pipeSt := c.pipeSt.fedAll ms }
    have hread : c₁.unread = ms.flatten ++ tail := (unread_filled c data).trans h
    have hstop := recvLoop_unfinished cap (w := w)
      (show Framing.Unfinished (c₁.recvAcc.read ms.flatten.length _) by
        rw [read_behind hread]; exact htail) (fuel + 1) resp'
    exact Or.inr ⟨_, resp', asyncOnRecv_loop cap hfit (by decide) (hloop.trans hstop),
      unread_moved hread _, rfl, rfl, hbytes, hroom'⟩

theorem Pqwire.FollowsPipeline.keeps_last (hw : w.FollowsPipeline) {last : Bytes}
    (h : Framing.typeOf last = some msgReadyForQuery) (skip : Bool) :
    w.filterBackendType (last.headD 0) skip = false := by
  have hhead : last.headD 0 = msgReadyForQuery := by
    rw [List.headD_eq_head?_getD, show last.head? = _ from h]
    rfl
  rw [hhead]
  exact (hw.keeps skip).1

theorem Pqwire.FollowsPipeline.keptBytes_last (hw : w.FollowsPipeline) {last : Bytes}
    (h : Framing.typeOf last = some msgReadyForQuery) (skip : Bool) :
    keptBytes w skip [last] = last := by
  rw [keptBytes_cons, hw.keeps_last h skip, if_neg (by decide)]
  exact List.append_nil last

/-- A chunk that fits and ends with the ReadyForQuery. -/
theorem asyncOnRecv_last (hw : w.FollowsPipeline) (hp : w.PeeksLength) {ms : List Bytes}
    (hms : ∀ m ∈ ms, Framing.Framed m ∧ Framing.typeOf m ≠ some msgReadyForQuery) {last : Bytes}
    (hlast : Framing.Framed last ∧ Framing.typeOf last = some msgReadyForQuery)
    {c : BackendConn} (data : Bytes) (resp : RespBuf) (hst : c.pipeSt.complete = false)
    (hroom : resp.len ≤ cap) (hfit : c.recvAccLen + data.length ≤ beRecvCap)
    (h : c.unread ++ data = ms.flatten ++ last) :
    (cap < resp.len + (keptBytes w c.skipParseBind (ms ++ [last])).length ∧
        (asyncOnRecv w c data resp cap).2.2 = .failed) ∨
      ∃ c' resp', asyncOnRecv w c data resp cap = (c', resp', .complete) ∧
        c'.pipeSt = c.pipeSt.fedAll (ms ++ [last]) ∧
        resp'.bytes = resp.bytes ++ keptBytes w c.skipParseBind (ms ++ [last]) ∧
        resp'.len ≤ cap := by
  have hkept := keptBytes_append w c.skipParseBind ms [last]
  rcases filled_messages cap hw hp hms hst hroom h with
    ⟨hover, hfail⟩ | ⟨resp', fuel, hbytes, hroom', hloop⟩
  · refine Or.inl ⟨?_, asyncOnRecv_failed cap hfit hfail⟩
    rw [hkept, List.length_append]
    omega
  · let c₁ : BackendConn := { c.filled data with pipeSt := c.pipeSt.fedAll ms }
    have hread : c₁.unread = ms.flatten ++ last := (unread_filled c data).trans h
    have hbehind := read_behind hread
    rw [← List.append_nil last] at hbehind
    have hstatus : c₁.pipeSt.fed last = c.pipeSt.fedAll (ms ++ [last]) := by
      rw [PipelineStatus.fedAll, List.foldl_append]
      rfl
    have hdone : (c.pipeSt.fedAll (ms ++ [last])).complete = true := by
      rw [← hstatus]
      simp [PipelineStatus.fed, hlast.2]
    have hkeep := hw.keeps_last hlast.2 c.skipParseBind
    have hstop := recvLoop_message cap (w := w) hlast.1 hbehind fuel resp'
    rw [beFilterAppend_framed cap hw hp hlast.1, hstatus,
      show c₁.skipParseBind = c.skipParseBind from rfl, hkeep, hdone, if_neg (by decide)] at hstop
    have hlen := congrArg List.length hbytes
    rw [RespBuf.length_bytes, List.length_append, RespBuf.length_bytes] at hlen
    rw [hkept, hw.keptBytes_last hlast.2, List.length_append, ← Nat.add_assoc, ← hlen]
    by_cases hfull : cap < resp'.len + last.length
    · rw [if_pos hfull] at hstop
      exact Or.inl ⟨hfull, asyncOnRecv_failed cap hfit (by rw [hloop, hstop])⟩
    · rw [if_neg hfull] at hstop
      refine Or.inr ⟨_, _, asyncOnRecv_loop cap hfit (by decide) (hloop.trans hstop), rfl, ?_,
        Nat.le_of_not_lt hfull⟩
      rw [← List.append_assoc, ← hbytes]
      exact Mem.read_write_append _ _ _

/-! ### All chunks of a response -/

/-- How the receives of one response end: at a chunk that fails, at one that completes the pipeline,
or with the last chunk. -/
inductive RecvOutcome where
  | failed
  | waiting
  | complete (unfed : List Bytes) (out : Bytes) (st : PipelineStatus)
  deriving DecidableEq

variable (w) in
/-- Feed the chunks in order until a call fails or completes the pipeline. -/
def recvChunks : List Bytes → BackendConn → RespBuf → RecvOutcome
  | [], _, _ => .waiting
  | data :: rest, c, resp =>
      match asyncOnRecv w c data resp cap with
      | (_, _, .failed) => .failed
      | (c, resp, .more) => recvChunks rest c resp
      | (c, resp, .complete) => .complete rest resp.bytes c.pipeSt

/-- The connection and the caller's buffer while `body` and then `last` are awaited, of which less
than one message has come. -/
structure Awaits (cap : Nat) (c : BackendConn) (resp : RespBuf) (body : List Bytes) (last : Bytes) :
    Prop where
  status : c.pipeSt.complete = false
  room : resp.len ≤ cap
  body_framed : ∀ m ∈ body, Framing.Framed m ∧ Framing.typeOf m ≠ some msgReadyForQuery
  last_framed : Framing.Framed last ∧ Framing.typeOf last = some msgReadyForQuery
  part : ∀ m ∈ (body ++ [last]).head?, c.unread.length < m.length

/-- A receive that took the messages `whole` and waits for `rest`. -/
structure Advances (w : Pqwire) (cap : Nat) (c : BackendConn) (resp : RespBuf) (data : Bytes)
    (c' : BackendConn) (resp' : RespBuf) (whole rest : List Bytes) (last : Bytes) : Prop where
  call : asyncOnRecv w c data resp cap = (c', resp', .more)
  awaits : Awaits cap c' resp' rest last
  bytes : c.unread ++ data = whole.flatten ++ c'.unread
  status : c'.pipeSt = c.pipeSt.fedAll whole
  skip : c'.skipParseBind = c.skipParseBind
  resp : resp'.bytes = resp.bytes ++ keptBytes w c.skipParseBind whole

/-- A receive that took everything up to the ReadyForQuery. -/
structure Finishes (w : Pqwire) (cap : Nat) (c : BackendConn) (resp : RespBuf) (data : Bytes)
    (c' : BackendConn) (resp' : RespBuf) (all : List Bytes) : Prop where
  call : asyncOnRecv w c data resp cap = (c', resp', .complete)
  bytes : c.unread ++ data = all.flatten
  room : resp'.len ≤ cap
  status : c'.pipeSt = c.pipeSt.fedAll all
  resp : resp'.bytes = resp.bytes ++ keptBytes w c.skipParseBind all

section

variable {cap} {c : BackendConn} {resp : RespBuf} {body : List Bytes} {last : Bytes}

/-- Why a receive fails: the accumulator is full, or the caller's buffer. -/
def Overflows (w : Pqwire) (cap : Nat) (c : BackendConn) (resp : RespBuf) (data : Bytes)
    (all : List Bytes) : Prop :=
  beRecvCap < c.recvAccLen + data.length ∨
    cap < resp.len + (keptBytes w c.skipParseBind all).length

theorem Awaits.receive (hw : w.FollowsPipeline) (hp : w.PeeksLength)
    (h : Awaits cap c resp body last) {data rem : Bytes}
    (hstream : c.unread ++ data ++ rem = (body ++ [last]).flatten) :
    ((asyncOnRecv w c data resp cap).2.2 = .failed ∧
        Overflows w cap c resp data (body ++ [last])) ∨
      (c.recvAccLen + data.length ≤ beRecvCap ∧ ∃ c' resp',
        (∃ whole rest, body = whole ++ rest ∧ Advances w cap c resp data c' resp' whole rest last) ∨
          Finishes w cap c resp data c' resp' (body ++ [last])) := by
  by_cases hfit : beRecvCap < c.recvAccLen + data.length
  · exact Or.inl ⟨asyncOnRecv_overflow cap hfit resp, Or.inl hfit⟩
  have hfit' := Nat.le_of_not_lt hfit
  obtain ⟨whole, rest, part, hms, hbytes, hdone, hnext⟩ :=
    Framing.exists_cut (body ++ [last]) hstream
  rcases List.eq_nil_or_concat rest with rfl | ⟨rest, m, rfl⟩
  · -- nothing is left behind the ReadyForQuery
    rw [List.append_nil] at hms
    rw [hdone rfl, List.append_nil, ← hms] at hbytes
    have hsplit : c.unread ++ data = body.flatten ++ last := by simpa using hbytes
    rcases asyncOnRecv_last cap hw hp h.body_framed h.last_framed data resp h.status h.room hfit' hsplit with
      ⟨hover, hfail⟩ | ⟨c', resp', hcall, hst, hresp, hroom⟩
    · exact Or.inl ⟨hfail, Or.inr hover⟩
    · exact Or.inr ⟨hfit', c', resp', Or.inr ⟨hcall, hbytes, hroom, hst, hresp⟩⟩
  · rw [List.concat_eq_append, ← List.append_assoc] at hms
    rw [List.concat_eq_append] at hnext
    obtain ⟨rfl, hm⟩ := List.append_inj' hms rfl
    obtain rfl := (List.cons.inj hm).1
    have hwhole : ∀ m ∈ whole, Framing.Framed m ∧ Framing.typeOf m ≠ some msgReadyForQuery :=
      fun m hm => h.body_framed m (List.mem_append_left _ hm)
    have hrest : ∀ m ∈ rest, Framing.Framed m ∧ Framing.typeOf m ≠ some msgReadyForQuery :=
      fun m hm => h.body_framed m (List.mem_append_right _ hm)
    have hunfinished : Framing.Unfinished part := by
      cases hfirst : (rest ++ [last]).head? with
      | none => simp at hfirst
      | some m =>
          obtain ⟨hlt, left, hleft⟩ := hnext m hfirst
          refine Framing.Framed.unfinished ?_ hleft hlt
          rcases List.mem_append.mp (List.mem_of_mem_head? hfirst) with hm | hm
          · exact (hrest m hm).1
          · rw [List.mem_singleton.mp hm]
            exact h.last_framed.1
    rcases asyncOnRecv_more cap hw hp hwhole hunfinished data resp h.status h.room hfit' hbytes with
      ⟨hover, hfail⟩ | ⟨c', resp', hcall, hunread, hst, hskip, hresp, hroom⟩
    · refine Or.inl ⟨hfail, Or.inr ?_⟩
      rw [List.append_assoc, keptBytes_append, List.length_append]
      omega
    · rw [← hunread] at hbytes hnext
      refine Or.inr ⟨hfit', c', resp', Or.inl ⟨whole, rest, rfl, hcall, ?_, hbytes, hst, hskip, hresp⟩⟩
      refine ⟨?_, hroom, hrest, h.last_framed, fun m hm => (hnext m hm).1⟩
      rw [hst]
      exact fedAll_complete _ _ h.status fun m hm => (hwhole m hm).2

/-- What a run over all chunks comes to. It fails only where something overflows, and when it
completes, every message fitted the accumulator and the response the caller's buffer. -/
theorem Awaits.outcome (hw : w.FollowsPipeline) (hp : w.PeeksLength) (chunks : List Bytes)
    (h : Awaits cap c resp body last) (hchunks : ∀ d ∈ chunks, d ≠ [])
    (hstream : c.unread ++ chunks.flatten = (body ++ [last]).flatten) :
    (recvChunks w cap chunks c resp = .failed ∧
        Overflows w cap c resp chunks.flatten (body ++ [last])) ∨
      (recvChunks w cap chunks c resp =
          .complete [] (resp.bytes ++ keptBytes w c.skipParseBind (body ++ [last]))
            (c.pipeSt.fedAll (body ++ [last])) ∧
        (∀ m ∈ body ++ [last], m.length ≤ beRecvCap) ∧
        resp.len + (keptBytes w c.skipParseBind (body ++ [last])).length ≤ cap) := by
  induction chunks generalizing c resp body with
  | nil =>
      -- less than the first message has come, so the stream goes on
      have hpart := h.part
      rw [List.flatten_nil, List.append_nil] at hstream
      cases hall : body ++ [last] with
      | nil => simp at hall
      | cons m ms =>
          rw [hall] at hpart hstream
          have hlt := hpart m rfl
          rw [hstream, List.flatten_cons, List.length_append] at hlt
          omega
  | cons data rest ih =>
      rw [List.flatten_cons, ← List.append_assoc] at hstream
      have hrest : ∀ d ∈ rest, d ≠ [] := fun d hd => hchunks d (List.mem_cons_of_mem _ hd)
      rcases h.receive hw hp hstream with ⟨hfail, hover⟩ | ⟨hfit, c', resp', hgo⟩
      · refine Or.inl ⟨?_, ?_⟩
        · cases hx : asyncOnRecv w c data resp cap with
          | mk c₁ r =>
              obtain ⟨resp₁, exit⟩ := r
              rw [hx] at hfail
              dsimp only at hfail
              rw [recvChunks, hx, hfail]
        · rw [Overflows, List.flatten_cons, List.length_append]
          exact hover.imp (by omega) id
      rcases hgo with ⟨whole, after, rfl, hmore⟩ | hdone
      · have hbytes := hmore.bytes
        have hresp := congrArg List.length hmore.resp
        rw [RespBuf.length_bytes, List.length_append, RespBuf.length_bytes] at hresp
        rw [hbytes, List.append_assoc, List.append_assoc, List.flatten_append] at hstream
        have hlen := congrArg List.length hbytes
        rw [List.length_append, List.length_append, length_unread, length_unread] at hlen
        have hnext := ih hmore.awaits hrest (List.append_cancel_left hstream)
        rw [Overflows, hmore.skip, hmore.status, hmore.resp, hresp] at hnext
        rw [recvChunks, hmore.call, List.append_assoc, keptBytes_append, List.length_append,
          Overflows, List.flatten_cons, List.length_append, keptBytes_append, List.length_append]
        dsimp only
        rcases hnext with ⟨hfail, hover⟩ | ⟨hdone, hsize, hroom⟩
        · exact Or.inl ⟨hfail, hover.imp (by omega) (by omega)⟩
        · refine Or.inr ⟨?_, ?_, by omega⟩
          · rw [hdone, List.append_assoc, PipelineStatus.fedAll, PipelineStatus.fedAll,
              ← List.foldl_append]
            rfl
          · intro m hm
            rcases List.mem_append.mp hm with hm | hm
            · have hle := List.Sublist.length_le (List.sublist_flatten_of_mem hm)
              omega
            · exact hsize m hm
      · -- the ReadyForQuery ends the stream, so no chunk is left
        have hbytes := hdone.bytes
        have hresp := congrArg List.length hdone.resp
        rw [RespBuf.length_bytes, List.length_append, RespBuf.length_bytes] at hresp
        have hroom := hdone.room
        rw [hbytes] at hstream
        have hnone : rest = [] := by
          have hempty := List.flatten_eq_nil_iff.mp (List.append_cancel_left (hstream.trans (List.append_nil _).symm))
          exact List.eq_nil_iff_forall_not_mem.mpr fun d hd => hrest d hd (hempty d hd)
        refine Or.inr ⟨?_, ?_, by omega⟩
        · rw [recvChunks, hdone.call, ← hdone.resp, ← hdone.status, hnone]
        · intro m hm
          have hle := List.Sublist.length_le (List.sublist_flatten_of_mem hm)
          have hlen := congrArg List.length hbytes
          rw [List.length_append, length_unread] at hlen
          omega

end

/-- A stream cut into receive chunks. -/
structure Segments (stream : Bytes) (chunks : List Bytes) : Prop where
  whole : chunks.flatten = stream
  sized : ∀ d ∈ chunks, 1 ≤ d.length ∧ d.length ≤ ioBuf

/-- The messages of a response. -/
def Response.messages (r : Response) : List Bytes := r.body ++ [r.last]

/-- A pipeline that nothing has been received of. -/
structure Fresh (c : BackendConn) (resp : RespBuf) : Prop where
  status : c.pipeSt = .init
  unread : c.recvAccLen = 0
  resp : resp.len = 0

variable (w) in
/-- Any two ways of cutting a response into chunks have the same outcome: both runs fail, or both
complete at their last chunk with the messages that the filter keeps. -/
def SameOutcome (c : BackendConn) (resp : RespBuf) (r : Response) : Prop :=
  ∀ cs ds, Segments r.bytes cs → Segments r.bytes ds →
    (recvChunks w cap cs c resp = .failed ∧ recvChunks w cap ds c resp = .failed) ∨
      ∃ st, recvChunks w cap cs c resp =
          .complete [] (keptBytes w c.skipParseBind r.messages) st ∧
        recvChunks w cap ds c resp = .complete [] (keptBytes w c.skipParseBind r.messages) st

section

variable {cap} {c : BackendConn} {resp : RespBuf}

theorem Fresh.awaits (h : Fresh c resp) (cap : Nat) (r : Response) :
    Awaits cap c resp r.body r.last where
  status := by rw [h.status]; rfl
  room := by rw [h.resp]; exact Nat.zero_le _
  body_framed := r.body_framed
  last_framed := r.last_framed
  part := by
    intro m hm
    have hframed : Framing.Framed m := by
      rcases List.mem_append.mp (List.mem_of_mem_head? hm) with hm | hm
      · exact (r.body_framed m hm).1
      · rw [List.mem_singleton.mp hm]
        exact r.last_framed.1
    have hfive := hframed.2
    rw [length_unread, h.unread]
    omega

theorem Response.flatten_messages (r : Response) : r.messages.flatten = r.bytes := by
  rw [messages, List.flatten_append, List.flatten_singleton, bytes]

/-- The outcome of every way of cutting a response into chunks. -/
theorem recvChunks_outcome (cap : Nat) (hw : w.FollowsPipeline) (hp : w.PeeksLength) (hc : Fresh c resp)
    {r : Response} {chunks : List Bytes} (hchunks : Segments r.bytes chunks) :
    (recvChunks w cap chunks c resp = .failed ∧
        (beRecvCap < r.bytes.length ∨ cap < (keptBytes w c.skipParseBind r.messages).length)) ∨
      (recvChunks w cap chunks c resp =
          .complete [] (keptBytes w c.skipParseBind r.messages) (PipelineStatus.init.fedAll r.messages) ∧
        (∀ m ∈ r.messages, m.length ≤ beRecvCap) ∧
        (keptBytes w c.skipParseBind r.messages).length ≤ cap) := by
  have hunread : c.unread = [] := by rw [BackendConn.unread, hc.unread, Mem.read_zero]
  have hbytes : resp.bytes = [] := by rw [RespBuf.bytes, hc.resp, Mem.read_zero]
  have hstream : c.unread ++ chunks.flatten = (r.body ++ [r.last]).flatten := by
    rw [hunread, hchunks.whole, List.nil_append]
    exact r.flatten_messages.symm
  have hne : ∀ d ∈ chunks, d ≠ [] := by
    rintro d hd rfl
    exact absurd (hchunks.sized _ hd).1 (by decide)
  have h := (hc.awaits cap r).outcome hw hp chunks hne hstream
  rw [Overflows, hc.unread, hc.resp, hc.status, hbytes, hchunks.whole] at h
  simpa [Response.messages] using h

theorem recvChunks_failed {data : Bytes} {rest : List Bytes}
    (h : (asyncOnRecv w c data resp cap).2.2 = .failed) :
    recvChunks w cap (data :: rest) c resp = .failed := by
  cases hx : asyncOnRecv w c data resp cap with
  | mk c' r =>
      obtain ⟨resp', exit⟩ := r
      rw [hx] at h
      dsimp only at h
      rw [recvChunks, hx, h]

/-- Received message by message, a response needs no more room than its longest message. -/
theorem recvChunks_messages (cap : Nat) (hw : w.FollowsPipeline) (hp : w.PeeksLength) {last : Bytes}
    (hlast : Framing.Framed last ∧ Framing.typeOf last = some msgReadyForQuery) (body : List Bytes)
    (hbody : ∀ m ∈ body, Framing.Framed m ∧ Framing.typeOf m ≠ some msgReadyForQuery)
    (hsize : ∀ m ∈ body ++ [last], m.length ≤ beRecvCap) (hst : c.pipeSt.complete = false)
    (hunread : c.unread = [])
    (hroom : resp.len + (keptBytes w c.skipParseBind (body ++ [last])).length ≤ cap) :
    recvChunks w cap (body ++ [last]) c resp ≠ .failed := by
  induction body generalizing c resp with
  | nil =>
      have hlen := length_unread c
      rw [hunread, List.length_nil] at hlen
      have hfit := hsize last (by simp)
      rw [List.nil_append] at hroom
      rcases asyncOnRecv_last cap hw hp (List.forall_mem_nil _) hlast last resp hst (by omega)
        (by omega) (by rw [hunread]; rfl) with ⟨hover, -⟩ | ⟨c', resp', hcall, -⟩
      · rw [List.nil_append] at hover
        omega
      · rw [List.nil_append, recvChunks, hcall]
        nofun
  | cons m body ih =>
      have hlen := length_unread c
      rw [hunread, List.length_nil] at hlen
      have hfit := hsize m (by simp)
      have hrest : ∀ x ∈ body, Framing.Framed x ∧ Framing.typeOf x ≠ some msgReadyForQuery :=
        fun x hx => hbody x (List.mem_cons_of_mem _ hx)
      have hm : ∀ x ∈ [m], Framing.Framed x ∧ Framing.typeOf x ≠ some msgReadyForQuery := by
        simpa using hbody m List.mem_cons_self
      rw [show m :: body ++ [last] = [m] ++ (body ++ [last]) from rfl, keptBytes_append,
        List.length_append] at hroom
      rcases asyncOnRecv_more cap hw hp hm Framing.Unfinished.nil m resp hst (by omega) (by omega)
        (by rw [hunread]; simp) with
        ⟨hover, -⟩ | ⟨c', resp', hcall, hleft, hst', hskip, hresp, -⟩
      · omega
      · have hgrown := congrArg List.length hresp
        rw [RespBuf.length_bytes, List.length_append, RespBuf.length_bytes] at hgrown
        rw [List.cons_append, recvChunks, hcall]
        refine ih hrest (fun x hx => hsize x (List.mem_cons_of_mem _ hx)) ?_ hleft ?_
        · rw [hst']
          exact fedAll_complete _ _ hst fun x hx => (hm x hx).2
        · rw [hskip]
          omega

/-- A chunk as large as the accumulator is refused behind a single byte. -/
theorem recvChunks_late (hw : w.FollowsPipeline) (hp : w.PeeksLength) (b : UInt8) {data : Bytes}
    (hdata : data.length = beRecvCap) (rest : List Bytes) (hst : c.pipeSt.complete = false)
    (hunread : c.unread = []) (hroom : resp.len ≤ cap) :
    recvChunks w cap ([b] :: data :: rest) c resp = .failed := by
  have hlen := length_unread c
  rw [hunread, List.length_nil] at hlen
  have hpart : Framing.Unfinished [b] := Or.inl (by simp)
  rcases asyncOnRecv_more cap hw hp (List.forall_mem_nil _) hpart [b] resp hst hroom
    (by rw [← hlen]; exact (by decide : 0 + 1 ≤ beRecvCap)) (by rw [hunread]; rfl) with
    ⟨-, hfail⟩ | ⟨c', resp', hcall, hleft, -⟩
  · exact recvChunks_failed hfail
  · have hone := length_unread c'
    rw [hleft, List.length_singleton] at hone
    rw [recvChunks, hcall]
    exact recvChunks_failed (asyncOnRecv_overflow cap (by omega) resp')

/-- The messages of a response that fit the accumulator are chunks. -/
theorem segments_messages {r : Response} (h : ∀ m ∈ r.messages, m.length ≤ beRecvCap) :
    Segments r.bytes r.messages where
  whole := r.flatten_messages
  sized := by
    intro m hm
    refine ⟨?_, h m hm⟩
    have hfive : 5 ≤ m.length := by
      rcases List.mem_append.mp hm with hm | hm
      · exact (r.body_framed m hm).1.2
      · rw [List.mem_singleton.mp hm]
        exact r.last_framed.1.2
    omega

/-- A long stream can be cut into one byte, one full chunk, and the rest. -/
theorem exists_late {stream : Bytes} (h : beRecvCap < stream.length) :
    ∃ b data rest, data.length = beRecvCap ∧ Segments stream ([b] :: data :: rest) := by
  cases stream with
  | nil => exact absurd h (by decide)
  | cons b bs =>
      rw [List.length_cons] at h
      have hdata : (bs.take beRecvCap).length = beRecvCap := by
        rw [List.length_take]
        omega
      refine ⟨b, bs.take beRecvCap, (bs.drop beRecvCap).map fun b => [b], hdata, ?_, ?_⟩
      · have hsingle : ∀ l : Bytes, (l.map fun b => [b]).flatten = l := by
          intro l
          induction l with
          | nil => rfl
          | cons b l ih => rw [List.map_cons, List.flatten_cons, ih, List.singleton_append]
        rw [List.flatten_cons, List.flatten_cons, hsingle, List.take_append_drop,
          List.singleton_append]
      · intro d hd
        rcases List.mem_cons.mp hd with rfl | hd
        · exact ⟨Nat.le_refl _, (by decide : 1 ≤ ioBuf)⟩
        · rcases List.mem_cons.mp hd with rfl | hd
          · rw [hdata]
            decide
          · obtain ⟨b, -, rfl⟩ := List.mem_map.mp hd
            exact ⟨Nat.le_refl _, (by decide : 1 ≤ ioBuf)⟩

/-- A response that can be delivered at all is reassembled from all chunks alike only if it fits the
accumulator as a whole. -/
theorem SameOutcome.fits (hw : w.FollowsPipeline) (hp : w.PeeksLength) (hc : Fresh c resp)
    {r : Response} (h : SameOutcome w cap c resp r) (hsize : ∀ m ∈ r.messages, m.length ≤ beRecvCap)
    (hroom : (keptBytes w c.skipParseBind r.messages).length ≤ cap) :
    r.bytes.length ≤ beRecvCap := by
  by_contra hlong
  have hstart := hc.awaits cap r
  have hunread : c.unread = [] := by rw [BackendConn.unread, hc.unread, Mem.read_zero]
  obtain ⟨b, data, rest, hdata, hlate⟩ := exists_late (Nat.lt_of_not_le hlong)
  have hfail := recvChunks_late hw hp b hdata rest hstart.status hunread hstart.room
  have hgood := recvChunks_messages cap hw hp r.last_framed r.body r.body_framed hsize
    hstart.status hunread (by rw [hc.resp, Nat.zero_add]; exact hroom)
  rcases h _ _ (segments_messages hsize) hlate with ⟨h, -⟩ | ⟨st, -, h⟩
  · exact hgood h
  · rw [hfail] at h
    cases h

/-- Reassembly is independent of segmentation exactly for the responses that fit the accumulator as a
whole, and for those that no segmentation can deliver. -/
theorem sameOutcome_iff (hw : w.FollowsPipeline) (hp : w.PeeksLength) (hc : Fresh c resp)
    (r : Response) :
    SameOutcome w cap c resp r ↔
      r.bytes.length ≤ beRecvCap ∨ (∃ m ∈ r.messages, beRecvCap < m.length) ∨
        cap < (keptBytes w c.skipParseBind r.messages).length := by
  constructor
  · intro hsame
    by_cases hsize : ∃ m ∈ r.messages, beRecvCap < m.length
    · exact Or.inr (Or.inl hsize)
    by_cases hroom : cap < (keptBytes w c.skipParseBind r.messages).length
    · exact Or.inr (Or.inr hroom)
    refine Or.inl (hsame.fits hw hp hc ?_ (Nat.le_of_not_lt hroom))
    exact fun m hm => Nat.le_of_not_lt fun hlong => hsize ⟨m, hm, hlong⟩
  · intro hcond cs ds hcs hds
    -- a response that one segmentation fails on and another delivers is longer than the accumulator
    have hno : ¬((beRecvCap < r.bytes.length ∨
        cap < (keptBytes w c.skipParseBind r.messages).length) ∧
        (∀ m ∈ r.messages, m.length ≤ beRecvCap) ∧
          (keptBytes w c.skipParseBind r.messages).length ≤ cap) := by
      rintro ⟨hover, hsize, hroom⟩
      rcases hcond with h | ⟨m, hm, hlong⟩ | h
      · omega
      · exact absurd (hsize m hm) (by omega)
      · omega
    rcases recvChunks_outcome cap hw hp hc hcs with ⟨hc1, hc2⟩ | ⟨hc1, hc2⟩
    · rcases recvChunks_outcome cap hw hp hc hds with ⟨hd1, -⟩ | ⟨-, hd2⟩
      · exact Or.inl ⟨hc1, hd1⟩
      · exact absurd ⟨hc2, hd2⟩ hno
    · rcases recvChunks_outcome cap hw hp hc hds with ⟨-, hd2⟩ | ⟨hd1, -⟩
      · exact absurd ⟨hd2, hc2⟩ hno
      · exact Or.inr ⟨_, hc1, hd1⟩

end

end

/-! A row that fills the response buffer of the event loop to the last byte, with the messages that
every pipeline begins with: these are left out of the response, but they pass the accumulator. -/

def fullRow : Bytes := WirePg.frame 68 (List.replicate 16373 0)

theorem fullRow_length : fullRow.length = 16378 := by
  rw [fullRow, WirePg.length_frame, List.length_replicate]

def fullResponse : Response where
  body := [WirePg.encode .parseComplete, WirePg.encode .bindComplete, fullRow]
  last := WirePg.encode .readyForQuery
  body_framed := by
    have hrow : Framing.Framed fullRow ∧ Framing.typeOf fullRow ≠ some msgReadyForQuery :=
      ⟨WirePg.framed_frame 68 (by rw [List.length_replicate]; decide), by
        rw [fullRow, WirePg.frame, Framing.typeOf, List.cons_append, List.head?_cons]
        decide⟩
    intro m hm
    simp only [List.mem_cons, List.not_mem_nil, or_false] at hm
    rcases hm with rfl | rfl | rfl
    · decide
    · decide
    · exact hrow
  last_framed := by decide

theorem messages_fullResponse : fullResponse.messages =
    [WirePg.encode .parseComplete, WirePg.encode .bindComplete, fullRow,
      WirePg.encode .readyForQuery] := rfl

/-- A connection as `pqproxy_backend_async_begin` hands it out, as far as receiving goes. -/
def freshConn : BackendConn := { BackendConn.fresh 0 with skipParseBind := true }

theorem fresh_freshConn : Fresh freshConn ⟨Mem.zero, 0⟩ := ⟨rfl, rfl, rfl⟩

/-- What is sent for an INSERT. -/
def insertResponse : Response where
  body := [WirePg.encode .parseComplete, WirePg.encode .bindComplete,
    WirePg.encode (.commandComplete "INSERT 0 1".toList)]
  last := WirePg.encode .readyForQuery
  body_framed := by decide
  last_framed := by decide

theorem sameOutcome_insert : SameOutcome pgWire ioBuf freshConn ⟨Mem.zero, 0⟩ insertResponse :=
  (sameOutcome_iff WirePg.followsPipeline WirePg.peeksLength fresh_freshConn insertResponse).mpr
    (Or.inl (by decide))

/-- Received message by message the response arrives; it does not when its first byte comes alone and
a full chunk follows. -/
theorem not_sameOutcome : ¬ SameOutcome pgWire ioBuf freshConn ⟨Mem.zero, 0⟩ fullResponse := by
  intro h
  have hrow := fullRow_length
  have hkept : keptBytes pgWire true fullResponse.messages =
      fullRow ++ WirePg.encode .readyForQuery := by
    have hkeep : pgWire.filterBackendType (fullRow.headD 0) true = false := rfl
    rw [messages_fullResponse, keptBytes_cons, if_pos (by decide), keptBytes_cons, if_pos (by decide),
      keptBytes_cons, hkeep, if_neg (by decide)]
    rfl
  have hfits := h.fits WirePg.followsPipeline WirePg.peeksLength fresh_freshConn (r := fullResponse)
    (by
      intro m hm
      rw [messages_fullResponse] at hm
      simp only [List.mem_cons, List.not_mem_nil, or_false] at hm
      rcases hm with rfl | rfl | rfl | rfl
      · decide
      · decide
      · rw [hrow]
        decide
      · decide)
    (by
      rw [show freshConn.skipParseBind = true from rfl, hkept, List.length_append, hrow]
      decide)
  rw [← fullResponse.flatten_messages, messages_fullResponse, List.flatten_cons, List.flatten_cons,
    List.flatten_cons, List.length_append, List.length_append, List.length_append, hrow] at hfits
  exact absurd hfits (by decide)
