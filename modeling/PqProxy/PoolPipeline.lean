import PqProxy.Pool

/-! Running a pipeline on a pooled connection: at once with blocking reads, or in steps driven by
the completions of the event loop. -/

section Blocking

variable (w : Pqwire) (env : Env)

/-- What a blocking call returns. -/
structure ExecResult where
  /-- The bytes written to the caller's buffer, also when the call fails. -/
  written : Bytes
  outLen : Nat
  ok : Bool
  /-- The pipeline went to a backend. This is not part of the program. -/
  flushed : Bool

def ExecResult.failed : ExecResult := ⟨[], 0, false, false⟩

/-- Check out a connection, drop what an earlier user left in its context, put a pipeline there and
run it. -/
def execOn (p : Pool) (group : Text) (cap : Nat) (skip : Bool) (fill : Bytes × Bool) :
    Pool × ExecResult :=
  match checkout w env p group with
  | (p, none) => (p, .failed)
  | (p, some b) =>
      let p := p.setConn b { p.conns b with wire := some fill.1 }
      if fill.2 = false then (checkin p b, .failed)
      else
        let (p, r) := flushPipelineEx w env p b cap skip
        (checkin p b, ⟨r.written, r.outLen, r.ok, true⟩)

/-- What `pqproxy_on_bind` leaves in a drained context. -/
def bindPipeline (cache : StmtCache) (bind : PqBind) (id : Identity) : Bytes × Bool :=
  let (o, ok) := onBind w ⟨[], []⟩ cache bind id
  (o.out, ok)

/-- `pqproxy_backend_exec_bind_ex`. -/
def execBindEx (p : Pool) (cache : StmtCache) (bind : PqBind) (id : Identity) (cap : Nat) :
    Pool × ExecResult :=
  execOn w env p id.group cap true (bindPipeline w cache bind id)

/-- `pqproxy_backend_exec_query`. -/
def execQuery (p : Pool) (group sql : Text) (cap : Nat) : Pool × ExecResult :=
  execOn w env p group cap false
    (match sendQuery w [] sql with
      | some out => (out, true)
      | none => ([], false))

end Blocking

/-! ### The pipeline in steps -/

section Async

variable (w : Pqwire) (env : Env)

/-- Move the output of the context into the send buffer, 4096 bytes at a time; the flag tells
whether everything fitted. -/
def fillSend : Nat → Bytes → BackendConn → BackendConn × Bool
  | 0, out, c => ({ c with wire := some out }, true)
  | fuel + 1, out, c =>
      let chunk := out.take 4096
      let rest := out.drop 4096
      if chunk = [] then ({ c with wire := some [] }, true)
      else if beSendCap < c.sendLen + chunk.length then ({ c with wire := some rest }, false)
      else
        fillSend fuel rest
          { c with sendBuf := c.sendBuf.write c.sendLen chunk, sendLen := c.sendLen + chunk.length }

/-- `pqproxy_backend_async_begin`. -/
def asyncBegin (p : Pool) (cache : StmtCache) (bind : PqBind) (id : Identity) :
    Pool × Option Nat :=
  match checkout w env p id.group with
  | (p, none) => (p, none)
  | (p, some b) =>
      let c := { p.conns b with
        wire := some [], sendLen := 0, sendOff := 0, recvAccLen := 0, skipParseBind := true,
        pipeSt := .init }
      match bindPipeline w cache bind id with
      | (out, false) => (checkin (p.setConn b { c with wire := some out }) b, none)
      | (out, true) =>
          let (c, fits) := fillSend (out.length + 1) out c
          let p := p.setConn b c
          if fits = false ∨ c.sendLen = 0 then (checkin p b, none)
          else (p.wrote [c.sendBuf.read 0 c.sendLen], some b)

/-- Whether `pqproxy_backend_async_begin` succeeds for a Bind once it has a connection. -/
def startable (cache : StmtCache) (bind : PqBind) (id : Identity) : Bool :=
  let (out, ok) := bindPipeline w cache bind id
  ok && decide (0 < out.length) && decide (out.length ≤ beSendCap)

/-- `pqproxy_backend_async_send_ptr`: offset and length of the bytes that are still to be sent. -/
def asyncSendPtr (c : BackendConn) : Option (Nat × Nat) :=
  if c.sendLen ≤ c.sendOff then none else some (c.sendOff, c.sendLen - c.sendOff)

/-- `pqproxy_backend_async_send_advance`. -/
def asyncSendAdvance (c : BackendConn) (n : Nat) : BackendConn :=
  { c with sendOff := min (c.sendOff + n) c.sendLen }

/-- The caller's response buffer and the number of valid bytes in it. -/
structure RespBuf where
  buf : Mem
  len : Nat

/-- The valid bytes. -/
def RespBuf.bytes (r : RespBuf) : Bytes := r.buf.read 0 r.len

/-- `be_filter_append` on one message; the flag is `saw_rfq`. -/
def beFilterAppend (c : BackendConn) (msg : Bytes) (resp : RespBuf) (cap : Nat) :
    BackendConn × RespBuf × Option Bool :=
  if msg.length < 5 then (c, resp, none)
  else
    match w.msgPeek msg with
    | none => (c, resp, none)
    | some (type, total) =>
        if total ≠ msg.length then (c, resp, none)
        else
          match w.feedBackendMsg c.pipeSt msg with
          | none => (c, resp, none)
          | some st =>
              let c := { c with pipeSt := st }
              if w.filterBackendType type c.skipParseBind then (c, resp, some st.complete)
              else if cap < resp.len + msg.length then (c, resp, none)
              else (c, ⟨resp.buf.write resp.len msg, resp.len + msg.length⟩, some st.complete)

/-- How a received chunk leaves the pipeline. -/
inductive RecvExit where
  | failed
  | more
  | complete
  deriving DecidableEq

/-- The loop of `pqproxy_backend_async_on_recv`: the offset reached tells how many accumulated
bytes were used up. -/
def recvLoop (cap : Nat) : Nat → Nat → BackendConn → RespBuf → BackendConn × RespBuf × Nat × RecvExit
  | 0, off, c, resp => (c, resp, off, .more)
  | fuel + 1, off, c, resp =>
      if c.recvAccLen < off + 5 then (c, resp, off, .more)
      else
        let mlen := Framing.be32 (c.recvAcc (off + 1)) (c.recvAcc (off + 2)) (c.recvAcc (off + 3))
          (c.recvAcc (off + 4))
        if mlen < 4 then (c, resp, off, .failed)
        else if c.recvAccLen < off + (1 + mlen) then (c, resp, off, .more)
        else
          match beFilterAppend w c (c.recvAcc.read off (1 + mlen)) resp cap with
          | (c, resp, none) => (c, resp, off, .failed)
          | (c, resp, some true) => (c, resp, off + (1 + mlen), .complete)
          | (c, resp, some false) => recvLoop cap fuel (off + (1 + mlen)) c resp

/-- `pqproxy_backend_async_on_recv`. -/
def asyncOnRecv (c : BackendConn) (data : Bytes) (resp : RespBuf) (cap : Nat) :
    BackendConn × RespBuf × RecvExit :=
  if beRecvCap < c.recvAccLen + data.length then (c, resp, .failed)
  else
    let c := { c with
      recvAcc := c.recvAcc.write c.recvAccLen data, recvAccLen := c.recvAccLen + data.length }
    match recvLoop w cap (c.recvAccLen + 1) 0 c resp with
    | (c, resp, _, .failed) => (c, resp, .failed)
    | (c, resp, off, exit) =>
        let left := c.recvAcc.read off (c.recvAccLen - off)
        ({ c with recvAcc := c.recvAcc.write 0 left, recvAccLen := c.recvAccLen - off }, resp, exit)

/-- The bytes that a receive used up, of those that were left before it and the new ones. -/
def usedUp (before after : BackendConn) (data : Bytes) : Bytes :=
  (before.recvAcc.read 0 before.recvAccLen ++ data).take
    (before.recvAccLen + data.length - after.recvAccLen)

/-- `pqproxy_backend_async_finish`. -/
def asyncFinish (p : Pool) (b : Nat) (failed : Bool) : Pool :=
  let p :=
    if failed = false then p
    else
      let p := p.setConn b (p.conns b).teardownIo
      if p.cfg.autoReconnect = true ∧ (p.conns b).loginUser ≠ [] then
        let p := (reconnect env p b).1
        p.setConn b { p.conns b with busy := false }
      else p
  let p := p.setConn b { p.conns b with sendLen := 0, sendOff := 0, recvAccLen := 0 }
  checkin p b

end Async
