import PqProxy.LoopReply
import Mathlib

/-! The event loop: connections in slots, the ring of frontends that wait for a backend, and the
dispatch of one completion at a time. `drain_fe_queue` can call itself for another connection, through
the release of a backend, at most once for each connection; the depth is a counter here. -/

/-- The ring of waiting frontends: no slot is in it twice. -/
structure Waiters where
  ring : RingBuffer Slot maxConns
  nodup : ring.toList.Nodup

namespace Waiters

def slots (q : Waiters) : List Slot := q.ring.toList

/-- An empty ring. -/
def empty : Waiters := ⟨.empty ⟨0, by decide⟩ (by decide), List.nodup_nil⟩

/-- The part of `waiters_push` behind the check of the option. -/
def push (q : Waiters) (i : Slot) : Option Waiters :=
  if hmem : i ∈ q.ring.toList then some q
  else if h : q.ring.count < maxConns then
    some ⟨q.ring.push i h, by
      rw [RingBuffer.toList_push, List.nodup_append]
      refine ⟨q.nodup, List.nodup_singleton i, ?_⟩
      intro a ha b hb hab
      rw [List.mem_singleton.mp hb] at hab
      exact hmem (hab ▸ ha)⟩
  else none

/-- Take the slot at the head. -/
def pop (q : Waiters) : Option (Slot × Waiters) :=
  if h : 0 < q.ring.count then
    some (q.ring.cells q.ring.head, ⟨q.ring.advance h, by
      have hnodup := q.nodup
      rw [q.ring.toList_eq_cons h] at hnodup
      exact (List.nodup_cons.mp hnodup).2⟩)
  else none

/-- `waiters_remove`: the others move to the start of the ring when the slot was in it. -/
def remove (q : Waiters) (i : Slot) : Waiters :=
  if (q.ring.toList.filter (· ≠ i)).length = q.ring.count then q
  else
    ⟨q.ring.compact (q.ring.toList.filter (· ≠ i))
        ((List.length_filter_le _ _).trans (by rw [q.ring.length_toList]; exact q.ring.count_le)), by
      rw [RingBuffer.toList_compact]
      exact q.nodup.filter _⟩

end Waiters

/-- Whether a connection that is alive and idle could be handed out for the group. -/
def Pool.idleFor (p : Pool) (group : Text) : Bool :=
  (List.range p.maxConns).any fun b =>
    (p.conns b).alive && !(p.conns b).busy && (!p.useGroupAsUser || (p.conns b).loginUser == group)

/-- What a prepared backend write did when it was submitted: the session its descriptor belonged to
by then, and the bytes that were in the buffer by then. -/
structure Delivery where
  request : Request
  session : Nat
  data : Bytes

/-- A pipeline handed to a backend by a call for a connection, which was in this state. -/
structure Written where
  conn : Conn
  data : Bytes

/-- `server_t`. The last four fields are not part of the program: the requests the kernel has, what
was written to backends, the pipelines handed to them, and whether the depth of `drain_fe_queue` ran
out. -/
structure Server where
  cfg : Config
  tls : Bool
  pool : Option Pool
  asyncBackend : Bool
  fairSchedule : Bool
  conns : Slot → Conn
  waiters : Waiters
  sq : List Request
  lastMaintainMs : Nat
  inflight : List Request
  sends : List Delivery
  writes : List Written
  stuck : Bool

namespace Server

def setConn (s : Server) (i : Slot) (c : Conn) : Server :=
  { s with conns := Function.update s.conns i c }

def updConn (s : Server) (i : Slot) (f : Conn → Conn) : Server := s.setConn i (f (s.conns i))

def updPool (s : Server) (f : Pool → Pool) : Server := { s with pool := s.pool.map f }

/-- The pipelines that were handed to backends so far. -/
def written (s : Server) : List Bytes :=
  match s.pool with
  | some p => p.written
  | none => []

/-- The pool was used on behalf of a connection. -/
def afterCall (s : Server) (i : Slot) (p : Pool) : Server :=
  { s with
    pool := some p
    writes := s.writes ++ (p.written.drop s.written.length).map fun data => ⟨s.conns i, data⟩ }

/-- Run a function of a connection and its place in the submission queue. -/
def onCell (s : Server) (i : Slot) (f : Cell → Cell × Bool) : Server × Bool :=
  let r := f ⟨s.conns i, i, s.sq⟩
  ({ s.setConn i r.1.conn with sq := r.1.sq }, r.2)

/-- Run a function of a connection that can fail. -/
def onConn (s : Server) (i : Slot) (f : Conn → Conn × Bool) : Server × Bool :=
  (s.setConn i (f (s.conns i)).1, (f (s.conns i)).2)

/-- Whether an idle backend could be handed out to a connection. -/
def idleFor (s : Server) (i : Slot) : Bool :=
  match s.pool with
  | some p => p.idleFor (s.conns i).id.group
  | none => false

/-- The connections of the pool. -/
def backends (s : Server) (b : Nat) : BackendConn :=
  match s.pool with
  | some p => p.conns b
  | none => .fresh b

end Server

/-- `submit_be_recv`. -/
def submitBeRecv (backends : Nat → BackendConn) (c : Cell) : Cell × Bool :=
  match c.conn.be with
  | none => (c, true)
  | some b =>
      if c.conn.beRecvPending then (c, true)
      else
        c.prep { c.request .beRecv with fd := (backends b).fd, session := (backends b).session }
          fun conn => { conn with beRecvPending := true, beWait := .reading }

/-- `submit_be_send`. -/
def submitBeSend (backends : Nat → BackendConn) (c : Cell) : Cell × Bool :=
  match c.conn.be with
  | none => (c, true)
  | some b =>
      if c.conn.beSendPending then (c.note .crossed, true)
      else
        match asyncSendPtr (backends b) with
        | none => submitBeRecv backends { c with conn := { c.conn with beWait := .reading } }
        | some (off, len) =>
            c.prep { c.request .beSend with
              fd := (backends b).fd, backend := some b, off := off, len := len,
              session := (backends b).session }
              fun conn => { conn with beSendPending := true, beWait := .sending }

/-- A backend is about to be checked out. -/
def Conn.checkingOut (c : Conn) : Conn := c.note (.checkout c.identityReady c.id)

/-- The frontend holds backend `b` for a new pipeline. -/
def Conn.begin (c : Conn) (b : Nat) : Conn :=
  { c.emptyResp with be := some b, pipe := c.pipe + 1 }.note .began

/-- A receive went into the response buffer. -/
def Conn.gotData (c : Conn) (resp : RespBuf) (used : Bytes) : Conn :=
  { c with beResp := resp }.note (.beData used)

/-- `got_execute = got_sync = 0`. -/
def Conn.clearGot (c : Conn) : Conn := { c with gotExecute := false, gotSync := false }

/-- The first lines of `after_backend_release`. -/
def Conn.release (c : Conn) : Conn := { c.clearGot with beWait := .idle }

/-- What `close_conn` leaves of a connection. -/
def Conn.close (c : Conn) : Conn :=
  { feqClearAll c with
    ssl := false, frontend := [], fd := none, state := .free, sendPending := false,
    recvPending := false, pollPending := false, beSendPending := false, beRecvPending := false,
    beWait := .idle }

/-- `waiters_push`. -/
def waitersPush (s : Server) (i : Slot) : Option Waiters :=
  if s.fairSchedule then s.waiters.push i else none

/-- `park_for_backend`. -/
def parkForBackend (s : Server) (i : Slot) : Server × Bool :=
  match waitersPush s i with
  | none => (s.updConn i fun c => { c with beWait := .idle }, false)
  | some q =>
      ({ s with waiters := q }.updConn i fun c =>
        { c.note (.parked (s.idleFor i)) with beWait := .waitingPool }, true)

section

variable (w : Pqwire) (env : Env)

section

-- `drain` is `drain_fe_queue`, called on another connection
variable (drain : Server → Slot → Server × Bool)

/-- One round of `fair_schedule_waiters` for the slot taken from the ring. -/
def grant (s : Server) (j : Slot) : Server :=
  if (s.conns j).state = .free ∨ (s.conns j).beWait ≠ .waitingPool then s
  else
    let s := s.updConn j fun c => { c with beWait := .idle }
    if (s.conns j).feQ.count = 0 then s
    else
      match drain s j with
      | (s, false) => s
      | (s, true) =>
          if (s.conns j).beWait = .idle ∧ 0 < (s.conns j).feQ.count then (parkForBackend s j).1 else s

/-- The loop of `fair_schedule_waiters`. -/
def grantWaiters : Nat → Server → Server
  | 0, s => s
  | attempts + 1, s =>
      match s.waiters.pop with
      | none => s
      | some (j, q) => grantWaiters attempts (grant drain { s with waiters := q } j)

/-- `fair_schedule_waiters`. -/
def fairScheduleWaiters (s : Server) : Server :=
  if s.fairSchedule = false ∨ s.pool.isNone = true ∨ s.asyncBackend = false then s
  else grantWaiters drain s.waiters.ring.count s

/-- `after_backend_release`. -/
def afterBackendRelease (s : Server) (i : Slot) : Server × Bool :=
  let s := s.updConn i Conn.release
  let s := if s.fairSchedule = true ∧ 0 < s.waiters.ring.count then fairScheduleWaiters drain s else s
  if (s.conns i).beWait = .idle ∧ 0 < (s.conns i).feQ.count then drain s i
  else s.onCell i drainFrontendOut

/-- `async_finish` on the backend of a connection. -/
def finishBackend (s : Server) (i : Slot) (failed : Bool) : Server :=
  match (s.conns i).be with
  | none => s
  | some b => s.updPool fun p => asyncFinish env p b failed

/-- `backend_async_fail`. -/
def backendAsyncFail (s : Server) (i : Slot) : Server × Bool :=
  match (finishBackend env s i true).onCell i (reportLost w) with
  | (s, false) => (s, false)
  | (s, true) => afterBackendRelease drain s i

/-- `backend_async_complete`. -/
def backendAsyncComplete (s : Server) (i : Slot) : Server × Bool :=
  let hadError :=
    match (s.conns i).be with
    | none => false
    | some b => (s.backends b).pipeSt.sawError
  match s.onCell i fun c => deliverResult w c hadError with
  | (s, false) => (s, false)
  | (s, true) =>
      afterBackendRelease drain
        ((finishBackend env s i false).updConn i fun c => { c with be := none }) i

/-! ### Starting a pipeline -/

/-- Start a pipeline for a Bind; `mark` is what the caller sets on the connection. -/
def startPipeline (s : Server) (i : Slot) (bind : PqBind) (mark : Conn → Conn) : Server × Bool :=
  match s.pool with
  | none => (s, false)
  | some p =>
      let s := s.updConn i Conn.checkingOut
      match asyncBegin w env p (s.conns i).cache bind (s.conns i).id with
      | (p, none) => (s.afterCall i p, false)
      | (p, some b) =>
          match ((s.afterCall i p).updConn i fun c => mark (c.begin b)).onCell i
              (submitBeSend p.conns) with
          | (s, true) => (s, true)
          | (s, false) => backendAsyncFail w env drain s i

/-- `start_async_bind_from_event`. -/
def startAsyncBindFromEvent (s : Server) (i : Slot) (bind : PqBind) : Server × Bool :=
  startPipeline w env drain s i bind id

/-- `start_async_bind_from_queue`. -/
def startAsyncBindFromQueue (s : Server) (i : Slot) (it : BindItem) : Server × Bool :=
  if (stmtCacheGet (s.conns i).cache (it.toBind w).statement).isNone then (s, false)
  else startPipeline w env drain s i (it.toBind w) Conn.clearGot

/-- What is known of a Bind that comes to nothing here. -/
def Server.unrun (s : Server) (i : Slot) (bind : PqBind) (flushed : Bool) : Unrun where
  pool := s.pool.isSome
  ready := (s.conns i).identityReady
  free := s.idleFor i
  startable := startable w (s.conns i).cache bind (s.conns i).id
  flushed := flushed

/-- The blocking branches of both Bind handlers, and the local one. -/
def blockingBind (s : Server) (i : Slot) (bind : PqBind) : Server × Bool :=
  match s.pool with
  | none => s.onConn i fun c => answerBind w c (s.unrun w i bind false) none
  | some p =>
      if (s.conns i).identityReady = false then
        s.onConn i fun c => answerBind w c (s.unrun w i bind false) none
      else
        let s := s.updConn i Conn.checkingOut
        let (p, r) := execBindEx w env p (s.conns i).cache bind (s.conns i).id ioBuf
        let s := s.afterCall i p
        s.onConn i fun c => answerBind w c (s.unrun w i bind r.flushed) (some r)

/-- Whether Binds of this connection go to the pool. -/
def Server.usesPool (s : Server) (i : Slot) : Bool := s.pool.isSome && (s.conns i).identityReady

/-- The blocking branch of FEQ_BIND. The portal is not copied there. -/
def drainBlockingBind (s : Server) (i : Slot) (it : BindItem) : Server :=
  (blockingBind w env s i { it.toBind w with portal := [] }).1

/-- A Bind is about to be run. -/
def Conn.binding (c : Conn) (bind : PqBind) : Conn :=
  c.note (.binding c.beResp.len (startable w c.cache bind c.id))

/-- FEQ_BIND; the flag tells whether the loop goes on. -/
def drainBind (s : Server) (i : Slot) (it : BindItem) : Server × Bool :=
  let s := s.updConn i fun c => c.binding w (it.toBind w)
  if s.usesPool i && s.asyncBackend then
    match startAsyncBindFromQueue w env drain s i it with
    | (s, true) => (s, false)
    | (s, false) =>
        if s.fairSchedule then
          match feqPutBack (s.conns i) (.bind it) with
          | some c => ((parkForBackend (s.setConn i c) i).1, false)
          | none => (drainBlockingBind w env s i it, true)
        else (drainBlockingBind w env s i it, true)
  else (drainBlockingBind w env s i it, true)

/-- FEQ_QUERY. -/
def drainQuery (s : Server) (i : Slot) (sql : Text) : Server :=
  match s.pool with
  | none => (s.onConn i fun c => onSimpleQuery w c s.cfg.rejectSimpleQuery).1
  | some p =>
      if s.cfg.rejectSimpleQuery = true ∨ (s.conns i).identityReady = false then
        (s.onConn i fun c => onSimpleQuery w c s.cfg.rejectSimpleQuery).1
      else
        let s := s.updConn i Conn.checkingOut
        let (p, r) := execQuery w env p (s.conns i).id.group sql ioBuf
        ((s.afterCall i p).onCell i fun c => (answerQueuedQuery w c r, true)).1

/-- The arms of `drain_fe_queue`. -/
def drainItem (s : Server) (i : Slot) : FeqItem → Server × Bool
  | .none => (s, true)
  | .parse msg => (s.updConn i fun c => answerParse w s.cfg c msg, true)
  | .bind it => drainBind w env drain s i it
  | .execute => ((s.onConn i (answerExecute w s.pool.isSome)).1, true)
  | .sync => s.onCell i fun c => (answerQueuedSync w c, true)
  | .query sql => (drainQuery w env s i sql, true)
  | .terminate => (s.updConn i fun c => { c with state := .closing }, true)

/-- The loop of `drain_fe_queue`. -/
def drainLoop : Nat → Server → Slot → Server
  | 0, s, _ => s
  | rounds + 1, s, i =>
      if (s.conns i).beWait ≠ .idle then s
      else
        match feqPop (s.conns i) with
        | none => s
        | some (c, it) =>
            match drainItem w env drain (s.setConn i c) i it with
            | (s, false) => s
            | (s, true) => drainLoop rounds s i

/-- `drain_fe_queue`; every round of its loop takes one of at most 32 requests. -/
def drainWith (s : Server) (i : Slot) : Server × Bool :=
  if (s.conns i).drainingQueue then (s, true)
  else
    let s := drainLoop w env drain feQMax (s.updConn i fun c => { c with drainingQueue := true }) i
    (s.updConn i fun c => { c with drainingQueue := false }).onCell i drainFrontendOut

end

/-- `drain_fe_queue` with a bound on the depth of its calls. -/
def drainFeQueue : Nat → Server → Slot → Server × Bool
  | 0, s, _ => ({ s with stuck := true }, true)
  | depth + 1, s, i => drainWith w env (drainFeQueue depth) s i

section

variable (drain : Server → Slot → Server × Bool)

/-- PQ_EVENT_BIND on an idle connection. -/
def processBind (s : Server) (i : Slot) (bind : PqBind) : Server × Bool :=
  let s := s.updConn i fun c => (c.binding w bind).emptyResp.clearGot
  if s.usesPool i && s.asyncBackend then
    match startAsyncBindFromEvent w env drain s i bind with
    | (s, true) => (s, true)
    | (s, false) =>
        if s.fairSchedule then
          match feqPushBind w (s.conns i) bind with
          | (c, false) => blockingBind w env (s.setConn i c) i bind
          | (c, true) =>
              match parkForBackend (s.setConn i c) i with
              | (s, true) => (s, true)
              | (s, false) => blockingBind w env s i bind
        else blockingBind w env s i bind
  else blockingBind w env s i bind

/-- PQ_EVENT_QUERY on an idle connection. -/
def processQuery (s : Server) (i : Slot) (sql : Text) : Server × Bool :=
  match s.pool with
  | none => s.onConn i fun c => onSimpleQuery w c s.cfg.rejectSimpleQuery
  | some p =>
      if s.cfg.rejectSimpleQuery = true ∨ (s.conns i).identityReady = false then
        s.onConn i fun c => onSimpleQuery w c s.cfg.rejectSimpleQuery
      else
        let s := s.updConn i Conn.checkingOut
        let (p, r) := execQuery w env p (s.conns i).id.group sql ioBuf
        (s.afterCall i p).onCell i fun c => answerQuery w c r

/-- One round of `process_frontend`. -/
def processEvent (s : Server) (i : Slot) (e : Event) : Server × Bool :=
  let wait := (s.conns i).beWait
  let s := s.updConn i fun c => c.note (.received e wait)
  match e with
  | .startup => s.onConn i (answerStartup w)
  | .terminate => (s.updConn i fun c => { c with state := .closing }, true)
  | .other => (s, true)
  | e =>
      if wait ≠ .idle then (s.updConn i fun c => queueEvent w c e, true)
      else
        match e with
        | .parse msg => (s.updConn i fun c => answerParse w s.cfg c msg, true)
        | .bind msg => processBind w env drain s i msg
        | .execute => s.onConn i (answerExecute w s.pool.isSome)
        | .sync => s.onCell i (answerSync w)
        | .query sql => processQuery w env s i sql
        | _ => (s, true)

/-- The loop of `process_frontend` over the events that the library decodes. -/
def processEvents : List Event → Server → Slot → Server × Bool
  | [], s, _ => (s, true)
  | e :: es, s, i =>
      match processEvent w env drain s i e with
      | (s, false) => (s, false)
      | (s, true) => processEvents es s i

/-- `process_frontend`, called by `feed_plain` with what a chunk of input completes. -/
def processFrontend (s : Server) (i : Slot) (es : List Event) : Server × Bool :=
  match processEvents w env drain es (s.updConn i fun c => c.note (.fed c.identityReady c.id)) i with
  | (s, false) => (s, false)
  | (s, true) => s.onCell i drainFrontendOut

/-- `close_conn`. -/
def closeConn (s : Server) (i : Slot) : Server :=
  if (s.conns i).state = .free then s
  else
    let s := { s with waiters := s.waiters.remove i }.updConn i fun c => c.note .closed
    let s :=
      if (s.conns i).be.isSome && s.pool.isSome then
        fairScheduleWaiters drain ((finishBackend env s i true).updConn i fun c => { c with be := none })
      else s
    s.updConn i Conn.close

end

/-- `pqproxy_tls_handshake`. -/
inductive Handshake where
  | failed
  | wants (write : Bool)
  | done
  deriving DecidableEq

/-- `pqproxy_tls_identity`: what it leaves in the identity, and whether it succeeds. -/
structure Peer where
  id : Identity
  ok : Bool

/-- The results of the writes of one `tls_drive_write`, and whether the first that writes nothing
fails or is to be repeated. -/
structure TlsWrites where
  written : List Nat
  fails : Bool

inductive ReadEnd where
  | wants
  | closed
  | failed
  deriving DecidableEq

/-- What the TLS library and the wire library do during one OP_POLL completion. -/
structure TlsIo where
  error : Bool
  readable : Bool
  writable : Bool
  handshake : Handshake
  peer : Peer
  writes : TlsWrites
  /-- The events decoded from each piece of plaintext. -/
  reads : List (List Event)
  readEnd : ReadEnd
  laterWrites : TlsWrites

/-- `tls_on_handshake_done`. -/
def tlsOnHandshakeDone (cfg : Config) (peer : Peer) (c : Conn) : Conn × Bool :=
  let c := { c with state := .active, id := peer.id }.note (.authenticated peer.id peer.ok)
  if peer.ok then
    ({ c with id := { c.id with identitySlot := cfg.identitySlot }, identityReady := true }, true)
  else (c, !cfg.requireMtls)

/-- The loop of `tls_drive_write`; the library writes at most what it is given. -/
def tlsDriveWriteFrom (fails : Bool) : List Nat → Conn → Conn × Bool
  | [], c =>
      if c.sendLen ≤ c.sendOff then ({ c with sendOff := 0, sendLen := 0, wantPollOut := false }, true)
      else if fails then (c, false)
      else ({ c with wantPollOut := true }, true)
  | n :: written, c =>
      if c.sendLen ≤ c.sendOff then ({ c with sendOff := 0, sendLen := 0, wantPollOut := false }, true)
      else tlsDriveWriteFrom fails written { c with sendOff := min (c.sendOff + n) c.sendLen }

/-- `tls_drive_write`. -/
def tlsDriveWrite (t : TlsWrites) (c : Conn) : Conn × Bool := tlsDriveWriteFrom t.fails t.written c

section

variable (drain : Server → Slot → Server × Bool)

/-- `tls_drive_read`. -/
def tlsDriveRead (readEnd : ReadEnd) : List (List Event) → Server → Slot → Server × Bool
  | [], s, i =>
      match readEnd with
      | .wants => (s, true)
      | .closed => (s.updConn i fun c => { c with state := .closing }, true)
      | .failed => (s, false)
  | es :: reads, s, i =>
      match processFrontend w env drain s i es with
      | (s, false) => (s, false)
      | (s, true) => tlsDriveRead readEnd reads s i

/-- The part of `on_tls_poll` after the handshake. -/
def onTlsReady (s : Server) (i : Slot) (io : TlsIo) : Server × Bool :=
  match if io.writable then s.onConn i (tlsDriveWrite io.writes) else (s, true) with
  | (s, false) => (s, false)
  | (s, true) =>
      match if io.readable then tlsDriveRead w env drain io.readEnd io.reads s i else (s, true) with
      | (s, false) => (s, false)
      | (s, true) =>
          match if (s.conns i).sendOff < (s.conns i).sendLen then
              s.onConn i (tlsDriveWrite io.laterWrites) else (s, true) with
          | (s, false) => (s, false)
          | (s, true) =>
              if (s.conns i).state = .closing ∧ (s.conns i).sendLen = 0 then (s, false)
              else s.onCell i submitPoll

/-- `on_tls_poll`. -/
def onTlsPoll (s : Server) (i : Slot) (io : TlsIo) : Server × Bool :=
  if io.error then (s, false)
  else if (s.conns i).state = .tlsHs then
    match io.handshake with
    | .failed => (s, false)
    | .wants write => (s.updConn i fun c => { c with wantPollOut := write }).onCell i submitPoll
    | .done =>
        match s.onConn i (tlsOnHandshakeDone s.cfg io.peer) with
        | (s, false) => (s, false)
        | (s, true) => onTlsReady w env drain s i io
  else onTlsReady w env drain s i io

/-! ### Accepting -/

/-- What the libraries do for a new connection. -/
structure AcceptSetup where
  /-- SO_ZEROCOPY can be set on the socket. -/
  zerocopy : Bool
  created : Bool
  tlsCreated : Bool
  handshake : Handshake
  peer : Peer

/-- `alloc_conn`. -/
def allocConn (s : Server) : Option Slot :=
  (List.finRange maxConns).find? fun i => decide ((s.conns i).state = .free)

/-- The end of `accept_one`: the first request of the connection, or its end. -/
def acceptWith (s : Server) (i : Slot) (submit : Cell → Cell × Bool) : Server :=
  match s.onCell i submit with
  | (s, true) => s
  | (s, false) => closeConn env drain s i

/-- The identity of every frontend in plain mode. -/
def plainIdentity : Identity := ⟨"plain-dev".toList, "default".toList, 0⟩

/-- Whether the connection may be written to without copies. -/
def AcceptSetup.zerocopyOk (setup : AcceptSetup) (cfg : Config) : Bool :=
  cfg.msgZerocopy && setup.zerocopy

/-- A connection on a new socket. -/
def Conn.opened (gen fd : Nat) (zerocopyOk : Bool) : Conn :=
  { Conn.fresh gen with fd := some fd, zerocopyOk := zerocopyOk }

/-- `accept_one`. -/
def acceptOne (s : Server) (fd : Nat) (setup : AcceptSetup) : Server :=
  match allocConn s with
  | none => s
  | some i =>
      let s := s.updConn i fun c => Conn.opened (c.gen + 1) fd (setup.zerocopyOk s.cfg)
      if setup.created = false then closeConn env drain s i
      else if s.tls then
        if setup.tlsCreated = false then closeConn env drain s i
        else
          let s := s.updConn i fun c => { c with ssl := true, state := .tlsHs }
          match setup.handshake with
          | .failed => closeConn env drain s i
          | .wants _ => acceptWith env drain s i submitPoll
          | .done =>
              match s.onConn i (tlsOnHandshakeDone s.cfg setup.peer) with
              | (s, false) => closeConn env drain s i
              | (s, true) => acceptWith env drain s i submitPoll
      else
        acceptWith env drain (s.updConn i fun c => { c with
          state := .active, id := { plainIdentity with identitySlot := s.cfg.identitySlot },
          identityReady := true }) i submitRecv

end

/-- The request that `submit_accept` prepares. -/
def acceptRequest : Request := ⟨.accept, ⟨0, by decide⟩, none, none, 0, 0, false, false, 0, 0, 0⟩

/-- `submit_accept`. -/
def submitAccept (s : Server) : Server :=
  if s.sq.length < uringEntries then { s with sq := s.sq ++ [acceptRequest] } else s

/-- A completion queue entry: its result, and what goes with it. -/
inductive Cqe where
  /-- A negative result; the flag tells EAGAIN and EWOULDBLOCK from the others. -/
  | failed (again : Bool)
  | accepted (fd : Nat) (setup : AcceptSetup)
  /-- The peer closed, or sent a chunk that completes these events. -/
  | eof
  | received (es : List Event)
  | sent (n : Nat)
  | polled (io : TlsIo)
  | data (bytes : Bytes)

section

variable (drain : Server → Slot → Server × Bool)

/-- Close the connection when its handler failed. -/
def closeUnless (r : Server × Bool) (i : Slot) : Server :=
  match r with
  | (s, true) => s
  | (s, false) => closeConn env drain s i

/-- OP_RECV. -/
def onRecv (s : Server) (i : Slot) (cqe : Cqe) : Server :=
  let s := s.updConn i fun c => { c with recvPending := false }
  match cqe with
  | .received es =>
      match processFrontend w env drain s i es with
      | (s, false) => closeConn env drain s i
      | (s, true) =>
          if (s.conns i).state = .closing then closeConn env drain s i
          else closeUnless env drain (s.onCell i submitRecv) i
  -- an end of file moves the connection to CS_CLOSING and from there here
  | _ => closeConn env drain s i

/-- What OP_SEND does to the send buffer. -/
def advanceSend (n : Nat) (c : Cell) : Cell :=
  let conn := { c.conn with sendOff := c.conn.sendOff + n }
  if conn.sendLen ≤ conn.sendOff then { c with conn := { conn with sendOff := 0, sendLen := 0 } }
  else (submitSend { c with conn := conn }).1

/-- OP_SEND. -/
def onSend (s : Server) (i : Slot) (cqe : Cqe) : Server :=
  let s := s.updConn i fun c => { c with sendPending := false }
  match cqe with
  | .sent n =>
      let s := (s.onCell i fun c => (advanceSend n c, true)).1
      if (s.conns i).state = .closing ∧ (s.conns i).sendLen = 0 then closeConn env drain s i else s
  | _ => closeConn env drain s i

/-- OP_POLL. -/
def onPoll (s : Server) (i : Slot) (cqe : Cqe) : Server :=
  let s := s.updConn i fun c => { c with pollPending := false }
  match cqe with
  | .polled io => closeUnless env drain (onTlsPoll w env drain s i io) i
  | _ => closeConn env drain s i

/-- `on_be_send_cqe`. -/
def onBeSendCqe (s : Server) (i : Slot) (cqe : Cqe) : Server × Bool :=
  let s := s.updConn i fun c => { c with beSendPending := false }
  match cqe with
  | .sent n =>
      let s :=
        match (s.conns i).be with
        | none => s
        | some b => s.updPool fun p => p.setConn b (asyncSendAdvance (p.conns b) n)
      s.onCell i (submitBeSend s.backends)
  | .failed true => s.onCell i (submitBeSend s.backends)
  | _ => backendAsyncFail w env drain s i

/-- `on_be_recv_cqe`. -/
def onBeRecvCqe (s : Server) (i : Slot) (cqe : Cqe) : Server × Bool :=
  let s := s.updConn i fun c => { c with beRecvPending := false }
  match cqe, (s.conns i).be with
  | .data (x :: bytes), some b =>
      let before := s.backends b
      let (after, resp, exit) := asyncOnRecv w before (x :: bytes) (s.conns i).beResp ioBuf
      let s := s.updPool fun p => p.setConn b after
      let got := fun c => Conn.gotData c resp (usedUp before after (x :: bytes))
      match exit with
      | .failed => backendAsyncFail w env drain (s.updConn i fun c => { c with beResp := resp }) i
      | .complete => backendAsyncComplete w env drain (s.updConn i got) i
      | .more => (s.updConn i got).onCell i (submitBeRecv s.backends)
  | _, _ => backendAsyncFail w env drain s i

/-- The completion dispatch of `pqproxy_run`. -/
def dispatchTo (s : Server) (op : Op) (i : Slot) (cqe : Cqe) : Server :=
  match op with
  | .accept =>
      submitAccept (match cqe with
        | .accepted fd setup => acceptOne env drain s fd setup
        | _ => s)
  | .recv => if (s.conns i).state = .free then s else onRecv w env drain s i cqe
  | .send => if (s.conns i).state = .free then s else onSend env drain s i cqe
  | .poll => if (s.conns i).state = .free then s else onPoll w env drain s i cqe
  | .beSend =>
      if (s.conns i).state = .free ∨ (s.conns i).be = none then s
      else closeUnless env drain (onBeSendCqe w env drain s i cqe) i
  | .beRecv =>
      if (s.conns i).state = .free ∨ (s.conns i).be = none then s
      else closeUnless env drain (onBeRecvCqe w env drain s i cqe) i

end

/-- `server_tick`. The clock is an unsigned 64-bit number of milliseconds. -/
def serverTick (s : Server) (now : Nat) : Server :=
  if 0 < s.cfg.maintainIntervalMs ∧ s.cfg.maintainIntervalMs.toNat ≤
      (now + 18446744073709551616 - s.lastMaintainMs) % 18446744073709551616 ∧ s.pool.isSome then
    { s.updPool (poolMaintain env) with lastMaintainMs := now }
  else s

/-- The session a descriptor belongs to. -/
def Server.sessionOf (s : Server) (fd : Option Nat) : Option Nat :=
  s.pool.bind fun p =>
    ((List.range p.maxConns).find? fun b => fd.isSome && (p.conns b).fd == fd).map fun b =>
      (p.conns b).session

/-- What the submission of a backend write does. -/
def Server.deliver (s : Server) (r : Request) : Option Delivery :=
  if r.op = .beSend then
    (s.sessionOf r.fd).bind fun session => r.backend.map fun b =>
      ⟨r, session, (s.backends b).sendBuf.read r.off r.len⟩
  else none

/-- `io_uring_submit`. -/
def submitAll (s : Server) : Server :=
  { s with
    sq := [], inflight := s.inflight ++ s.sq, sends := s.sends ++ s.sq.filterMap s.deliver }

/-- The end of one wait: a timeout, or the completion of one of the requests the kernel has. -/
inductive Input where
  | timeout (now : Nat)
  | complete (now k : Nat) (cqe : Cqe)

/-- One iteration of the loop of `pqproxy_run` up to `io_uring_submit`. -/
def dispatch (s : Server) (input : Input) : Server :=
  match input with
  | .timeout now => serverTick env s now
  | .complete now k cqe =>
      match s.inflight[k]? with
      | none => s
      | some r =>
          dispatchTo w env (drainFeQueue w env (maxConns + 1))
            (serverTick env { s with inflight := s.inflight.eraseIdx k } now) r.op r.slot cqe

/-- One iteration of the loop of `pqproxy_run`. -/
def step (s : Server) (input : Input) : Server :=
  match input with
  | .timeout _ => dispatch w env s input
  | .complete .. => submitAll (dispatch w env s input)

/-- The backend configuration that `pqproxy_run` makes. -/
def Config.backend (cfg : Config) : BackendConfig where
  user := cfg.backendUser.getD "postgres".toList
  useGroupAsUser := cfg.backendUseGroupAsUser
  groups := cfg.backendGroups
  lazyGroupConnect := cfg.backendLazyGroup
  poolSize := if cfg.backendPoolSize = 0 then 4 else cfg.backendPoolSize
  autoReconnect := true
  healthCheckOnCheckout := false

/-- `pqproxy_run` up to its loop; `nonblock` tells whether the backends could be made nonblocking. -/
def start (cfg : Config) (nonblock : Bool) (now : Nat) : Server :=
  let pool := if cfg.backendHost = [] then none else poolCreate env cfg.backend
  submitAll (submitAccept
    { cfg := cfg, tls := !cfg.plain, asyncBackend := pool.isSome && nonblock,
      pool := if nonblock then pool.map poolSetNonblock else pool,
      fairSchedule := cfg.fairSchedule, conns := fun _ => .fresh 0, waiters := .empty, sq := [],
      lastMaintainMs := now, inflight := [], sends := [], writes := [], stuck := false })

end
