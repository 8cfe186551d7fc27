import PqProxy.PoolPipeline
import PqProxy.RingBuffer

/-! One frontend connection of the event loop: its send buffer, its request queue and the part it
has in the submission queue. A function of the program that takes the server and a connection, and
touches nothing else, works on a `Cell` here. -/

def maxConns : Nat := 256
def ioBuf : Nat := 16384
def uringEntries : Nat := 512
def feQMax : Nat := 32

/-- The index of a connection. -/
abbrev Slot := Fin maxConns

inductive Op where
  | accept
  | recv
  | send
  | poll
  | beSend
  | beRecv
  deriving DecidableEq

inductive ConnState where
  | free
  | tlsHs
  | active
  | closing
  deriving DecidableEq

inductive BeWait where
  | idle
  | sending
  | reading
  | waitingPool
  deriving DecidableEq

/-- The owned copy of a Bind in `feq_item_t`. -/
structure BindItem where
  stmt : Text
  portal : Text
  params : List PqBindParam
  resultFormats : List Int
  deriving DecidableEq

/-- `feq_item_t`. -/
inductive FeqItem where
  | none
  | parse (msg : PqParse)
  | bind (item : BindItem)
  | execute
  | sync
  | query (sql : Text)
  | terminate
  deriving DecidableEq

/-- The copy of one parameter. -/
def storeParam (w : Pqwire) (p : PqBindParam) : Option PqBindParam :=
  match p.value with
  | none => some ⟨p.format, none⟩
  | some v =>
      if p.format = 1 then (w.paramSetBinary v).map fun v => ⟨p.format, some v⟩
      -- the text is handed over as a C string
      else (w.paramSetText (v ++ [0])).map fun v => ⟨p.format, some v⟩

/-- What `feq_push_bind` stores of a Bind. -/
def bindItem (w : Pqwire) (bind : PqBind) : Option BindItem :=
  ((bind.params.take w.maxBindParams).mapM (storeParam w)).map fun params =>
    ⟨bind.statement.copyTo w.maxStmtName, bind.portal.copyTo w.maxPortalName, params,
      bind.resultFormats.take w.maxBindParams⟩

/-- The Bind that is rebuilt from the queue. -/
def BindItem.toBind (w : Pqwire) (it : BindItem) : PqBind :=
  ⟨it.stmt.copyTo w.maxStmtName, it.portal.copyTo w.maxPortalName, it.params, it.resultFormats⟩

/-- What is known of a Bind that no backend ran. -/
structure Unrun where
  /-- There is a pool, and the client has an identity. -/
  pool : Bool
  ready : Bool
  /-- An idle backend was there for it. -/
  free : Bool
  /-- A backend could run it. -/
  startable : Bool
  /-- A backend was handed its pipeline, and failed. -/
  flushed : Bool
  deriving DecidableEq

/-- One entry of the history of a connection. The history is not part of the program. -/
inductive Obs where
  /-- The wire library delivered an event while the backend side was in this state. -/
  | received (e : Event) (wait : BeWait)
  /-- A request was put at the tail of the queue, or did not fit. -/
  | pushed (it : FeqItem)
  | dropped (it : FeqItem)
  /-- A request was taken from the queue, or put back at its head. -/
  | took (it : FeqItem)
  | putBack (it : FeqItem)
  /-- The queue was emptied. -/
  | discarded (its : List FeqItem)
  /-- The wire library took a reply into the output of the context. -/
  | replied (r : Reply)
  /-- Backend bytes were handed over for sending while this output was still in the context. -/
  | handed (pending data : Bytes)
  /-- Bytes were copied to the send buffer, or did not fit. -/
  | queued (data : Bytes)
  | refused (data : Bytes)
  /-- No submission queue entry was left. -/
  | noSqe
  /-- There is output for a connection whose pending poll does not wait for room. -/
  | unarmed
  /-- A pipeline was begun while a write of an earlier one is still pending. -/
  | crossed
  /-- The TLS session is there, with what its certificate says, and whether that is usable. -/
  | authenticated (peer : Identity) (ok : Bool)
  /-- Input goes to the wire library while the connection has this identity. -/
  | fed (ready : Bool) (id : Identity)
  /-- A backend is about to be checked out for this identity. -/
  | checkout (ready : Bool) (id : Identity)
  /-- A Bind is about to be run while so many bytes of an earlier response are buffered; the flag
  tells whether an idle backend could run it. -/
  | binding (held : Nat) (startable : Bool)
  | began
  /-- The connection starts to wait while an idle backend is there for it, or none is. -/
  | parked (free : Bool)
  | beData (data : Bytes)
  | completed (sawError : Bool)
  | lost
  /-- A blocking Bind returned zero with these bytes. -/
  | ran (out : Bytes)
  /-- A Bind was acknowledged without a backend; these bytes were left in the response buffer. -/
  | stub (why : Unrun) (written : Bytes)
  /-- An Execute is taken up while so many bytes of a response are there for it. -/
  | executing (held : Nat)
  /-- A Query was run on a backend while so many bytes of a response were buffered. -/
  | forwarded (held : Nat)
  | cacheFull
  | closed
  deriving DecidableEq

/-! ### Connections -/

/-- `conn_t`. The wire context is its undrained output. The last four fields are not part of the
program: whether the pending poll waits for room to write, the incarnation of the slot, the number of
pipelines started, and the history. -/
structure Conn where
  fd : Option Nat
  state : ConnState
  ssl : Bool
  frontend : Bytes
  id : Identity
  cache : StmtCache
  identityReady : Bool
  sendBuf : Mem
  sendLen : Nat
  sendOff : Nat
  sendPending : Bool
  recvPending : Bool
  pollPending : Bool
  wantPollOut : Bool
  zerocopyOk : Bool
  be : Option Nat
  beWait : BeWait
  beSendPending : Bool
  beRecvPending : Bool
  gotExecute : Bool
  gotSync : Bool
  beResp : RespBuf
  feQ : RingBuffer FeqItem feQMax
  drainingQueue : Bool
  polledOut : Bool
  gen : Nat
  pipe : Nat
  log : List Obs

/-- A connection that was zeroed by `alloc_conn`. -/
def Conn.fresh (gen : Nat) : Conn where
  fd := none
  state := .free
  ssl := false
  frontend := []
  id := identityClear
  cache := stmtCacheInit
  identityReady := false
  sendBuf := Mem.zero
  sendLen := 0
  sendOff := 0
  sendPending := false
  recvPending := false
  pollPending := false
  wantPollOut := false
  zerocopyOk := false
  be := none
  beWait := .idle
  beSendPending := false
  beRecvPending := false
  gotExecute := false
  gotSync := false
  beResp := ⟨Mem.zero, 0⟩
  feQ := .empty .none (by decide)
  drainingQueue := false
  polledOut := false
  gen := gen
  pipe := 0
  log := []

def Conn.note (c : Conn) (o : Obs) : Conn := { c with log := c.log ++ [o] }

/-- A submission queue entry. `op` and `slot` are packed into its user data. The last three fields
are not part of the program: the incarnation, the pipeline and the backend session it was prepared
for. -/
structure Request where
  op : Op
  slot : Slot
  fd : Option Nat
  /-- The backend whose send buffer is read. -/
  backend : Option Nat
  off : Nat
  len : Nat
  /-- The write is made with MSG_ZEROCOPY. -/
  zerocopy : Bool
  pollOut : Bool
  gen : Nat
  pipe : Nat
  session : Nat
  deriving DecidableEq

/-- A connection and the submission queue. -/
structure Cell where
  conn : Conn
  slot : Slot
  sq : List Request

namespace Cell

def note (c : Cell) (o : Obs) : Cell := { c with conn := c.conn.note o }

/-- A request of this connection that has no buffer. -/
def request (c : Cell) (op : Op) : Request where
  op := op
  slot := c.slot
  fd := c.conn.fd
  backend := none
  off := 0
  len := 0
  zerocopy := false
  pollOut := false
  gen := c.conn.gen
  pipe := c.conn.pipe
  session := 0

/-- `io_uring_get_sqe`, the preparation of the entry, and the flag that is set with it. -/
def prep (c : Cell) (r : Request) (mark : Conn → Conn) : Cell × Bool :=
  if c.sq.length < uringEntries then ({ c with conn := mark c.conn, sq := c.sq ++ [r] }, true)
  else (c.note .noSqe, false)

end Cell

/-- `submit_recv`. -/
def submitRecv (c : Cell) : Cell × Bool :=
  if c.conn.ssl = true ∨ c.conn.recvPending = true ∨ c.conn.state = .closing ∨
      c.conn.state = .free then (c, true)
  else c.prep (c.request .recv) fun conn => { conn with recvPending := true }

/-- The write of what waits in the send buffer. The notifications that the kernel is done with the
bytes of a large one are not read. -/
def Cell.sendRequest (c : Cell) : Request :=
  let n := c.conn.sendLen - c.conn.sendOff
  { c.request .send with
    off := c.conn.sendOff
    len := n
    zerocopy := c.conn.zerocopyOk && !c.conn.ssl && decide (4096 ≤ n) }

/-- `submit_send`. -/
def submitSend (c : Cell) : Cell × Bool :=
  if c.conn.ssl = true ∨ c.conn.sendPending = true ∨ c.conn.sendLen ≤ c.conn.sendOff then (c, true)
  else c.prep c.sendRequest fun conn => { conn with sendPending := true }

/-- `submit_poll`. -/
def submitPoll (c : Cell) : Cell × Bool :=
  if c.conn.ssl = false ∨ c.conn.pollPending = true ∨ c.conn.state = .free then (c, true)
  else
    let out := c.conn.wantPollOut || decide (c.conn.sendOff < c.conn.sendLen)
    c.prep { c.request .poll with pollOut := out }
      fun conn => { conn with pollPending := true, polledOut := out }

/-- The room check of `queue_plain_send`: a buffer that was sent completely is used from its start
again, also when that is not enough. -/
def makeRoom (c : Conn) (len : Nat) : Conn :=
  if ioBuf < c.sendLen + len ∧ c.sendOff = c.sendLen then { c with sendLen := 0, sendOff := 0 } else c

/-- A pending poll is left as it is, also when it does not wait for room. -/
def Conn.noteUnarmed (c : Conn) : Conn :=
  if c.pollPending = true ∧ c.polledOut = false then c.note .unarmed else c

/-- `queue_plain_send`. -/
def queuePlainSend (c : Cell) (data : Bytes) : Cell × Bool :=
  if data = [] then (c, true)
  else
    let conn := makeRoom c.conn data.length
    if ioBuf < conn.sendLen + data.length then ({ c with conn := conn.note (.refused data) }, false)
    else
      let conn := { conn with
        sendBuf := conn.sendBuf.write conn.sendLen data, sendLen := conn.sendLen + data.length }
      let conn := conn.note (.queued data)
      if conn.ssl then submitPoll { c with conn := { conn.noteUnarmed with wantPollOut := true } }
      else submitSend { c with conn := conn }

/-- The loop of `drain_frontend_out`. -/
def drainFrontendOutFrom : Nat → Cell → Cell × Bool
  | 0, c => (c, true)
  | fuel + 1, c =>
      let out := c.conn.frontend.take ioBuf
      if out = [] then (c, true)
      else
        match queuePlainSend { c with conn := { c.conn with
            frontend := c.conn.frontend.drop ioBuf } } out with
        | (c, false) => (c, false)
        | (c, true) => drainFrontendOutFrom fuel c

/-- `drain_frontend_out`: every round takes at least one byte. -/
def drainFrontendOut (c : Cell) : Cell × Bool :=
  drainFrontendOutFrom (c.conn.frontend.length + 1) c

/-- Hand backend bytes to `queue_plain_send`. -/
def queueBackend (c : Cell) (data : Bytes) : Cell × Bool :=
  queuePlainSend (c.note (.handed c.conn.frontend data)) data

/-! ### The request queue -/

/-- `feq_clear_all`. -/
def feqClearAll (c : Conn) : Conn :=
  { c with feQ := .empty .none (by decide), log := c.log ++ [.discarded c.feQ.toList] }

/-- `feq_push`. -/
def feqPush (c : Conn) (it : FeqItem) : Conn × Bool :=
  if h : c.feQ.count < feQMax then ({ c with feQ := c.feQ.push it h }.note (.pushed it), true)
  else (c.note (.dropped it), false)

/-- `feq_pop`. -/
def feqPop (c : Conn) : Option (Conn × FeqItem) :=
  if h : 0 < c.feQ.count then
    let it := c.feQ.cells c.feQ.head
    some ({ c with feQ := c.feQ.pop .none h }.note (.took it), it)
  else none

/-- Put a request that was just taken back at the head. -/
def feqPutBack (c : Conn) (it : FeqItem) : Option Conn :=
  if h : c.feQ.count < feQMax then some ({ c with feQ := c.feQ.putBack it h }.note (.putBack it))
  else none

/-- `feq_push_parse`. -/
def feqPushParse (c : Conn) (parse : PqParse) : Conn × Bool := feqPush c (.parse parse)

/-- `feq_push_bind`. -/
def feqPushBind (w : Pqwire) (c : Conn) (bind : PqBind) : Conn × Bool :=
  match bindItem w bind with
  | none => (c.note (.dropped .none), false)
  | some it => feqPush c (.bind it)
