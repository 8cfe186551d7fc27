import PqProxy.LoopConn

/-! What the event loop answers on one connection: the arms of its message handlers as far as they
need nothing but the connection and its place in the submission queue, and the delivery of what a
backend returned. -/

/-- `pqproxy_config_t`, as far as the event loop reads it. -/
structure Config where
  plain : Bool
  requireMtls : Bool
  identitySlot : Int
  identityParamName : Option Text
  msgZerocopy : Bool
  backendHost : Text
  backendUser : Option Text
  backendUseGroupAsUser : Bool
  backendGroups : Text
  backendLazyGroup : Bool
  backendPoolSize : Nat
  maintainIntervalMs : Int
  fairSchedule : Bool
  rejectSimpleQuery : Bool

def queueFullError : Reply :=
  .errorResponse "ERROR".toList "53300".toList "frontend request queue full".toList

def cacheFullError : Reply :=
  .errorResponse "ERROR".toList "26000".toList "prepared statement cache full".toList

def forwardError : Reply :=
  .errorResponse "ERROR".toList "08006".toList "simple Query backend forward failed".toList

def pipelineError : Reply :=
  .errorResponse "ERROR".toList "08006".toList "backend pipeline failed".toList

section

variable (w : Pqwire)

/-- `pqwire_send_*` on the frontend context. -/
def reply (c : Conn) (r : Reply) : Conn × Bool :=
  match w.send c.frontend r with
  | (out, true) => ({ c with frontend := out }.note (.replied r), true)
  | (out, false) => ({ c with frontend := out }, false)

/-- Two replies, the second only when the first was taken. -/
def replyThen (c : Conn) (r s : Reply) : Conn × Bool :=
  match reply w c r with
  | (c, false) => (c, false)
  | (c, true) => reply w c s

/-- Two replies whose results are ignored. -/
def replyBoth (c : Conn) (r s : Reply) : Conn := (reply w (reply w c r).1 s).1

/-- Run a function of the connection on a cell. -/
def Cell.onConn (c : Cell) (f : Conn → Conn × Bool) : Cell × Bool :=
  ({ c with conn := (f c.conn).1 }, (f c.conn).2)

/-- PQ_EVENT_STARTUP. -/
def answerStartup (c : Conn) : Conn × Bool := replyThen w c .authOk .readyForQuery

/-- PQ_EVENT_PARSE and FEQ_PARSE. -/
def answerParse (cfg : Config) (c : Conn) (parse : PqParse) : Conn :=
  let slot := if 0 ≤ c.id.identitySlot then c.id.identitySlot else cfg.identitySlot
  match onParseEx w c.frontend c.cache parse slot cfg.identityParamName with
  | (out, cache, true) => { c with frontend := out, cache := cache }.note (.replied .parseComplete)
  | (out, cache, false) =>
      replyBoth w ({ c with frontend := out, cache := cache }.note .cacheFull) cacheFullError
        .readyForQuery

/-- PQ_EVENT_EXECUTE and FEQ_EXECUTE. -/
def answerExecute (hasPool : Bool) (c : Conn) : Conn × Bool :=
  let c := c.note (.executing (if hasPool then c.beResp.len else 0))
  if hasPool = false ∨ c.beResp.len = 0 then reply w c (.commandComplete "SELECT 0".toList)
  else (c, true)

/-- Nothing of the response is left. -/
def Conn.emptyResp (c : Conn) : Conn := { c with beResp := ⟨c.beResp.buf, 0⟩ }

/-- PQ_EVENT_SYNC. -/
def answerSync (c : Cell) : Cell × Bool :=
  if 0 < c.conn.beResp.len then
    match queueBackend c c.conn.beResp.bytes with
    | (c, false) => (c, false)
    | (c, true) => ({ c with conn := c.conn.emptyResp }, true)
  else c.onConn fun conn => reply w conn .readyForQuery

/-- FEQ_SYNC: the response is dropped also when it could not be handed over. -/
def answerQueuedSync (c : Cell) : Cell :=
  if 0 < c.conn.beResp.len then
    let c := (queueBackend c c.conn.beResp.bytes).1
    { c with conn := c.conn.emptyResp }
  else (c.onConn fun conn => reply w conn .readyForQuery).1

/-- `pqproxy_on_simple_query`. -/
def onSimpleQuery (c : Conn) (rejectSimpleQuery : Bool) : Conn × Bool :=
  let text := if rejectSimpleQuery then "simple Query disabled; use extended protocol"
    else "simple Query allowed only with backend forward (not configured here)"
  replyThen w c (.errorResponse "ERROR".toList "0A000".toList text.toList) .readyForQuery

/-- What a blocking call left in the response buffer. -/
def Conn.fillResp (c : Conn) (r : ExecResult) : Conn :=
  { c with beResp := ⟨c.beResp.buf.write 0 r.written, c.beResp.len⟩ }

/-- A forwarded PQ_EVENT_QUERY with the result of the backend. The length of the response buffer is
not set. -/
def answerQuery (c : Cell) (r : ExecResult) : Cell × Bool :=
  let c := { c with conn := (c.conn.note (.forwarded c.conn.beResp.len)).fillResp r }
  if r.ok = true ∧ 0 < r.outLen then queueBackend c (c.conn.beResp.buf.read 0 r.outLen)
  else c.onConn fun conn => replyThen w conn forwardError .readyForQuery

/-- A forwarded FEQ_QUERY. -/
def answerQueuedQuery (c : Cell) (r : ExecResult) : Cell :=
  let c := { c with conn := (c.conn.note (.forwarded c.conn.beResp.len)).fillResp r }
  if r.ok = true ∧ 0 < r.outLen then (queueBackend c (c.conn.beResp.buf.read 0 r.outLen)).1
  else { c with conn := replyBoth w c.conn forwardError .readyForQuery }

/-- A Bind that was run by blocking calls, or not at all. It is acknowledged in every case. -/
def answerBind (c : Conn) (why : Unrun) (r : Option ExecResult) : Conn × Bool :=
  match r with
  | none => reply w (c.note (.stub why [])) .bindComplete
  | some r =>
      let c := c.fillResp r
      if r.ok then
        let c := { c with beResp := ⟨c.beResp.buf, r.outLen⟩ }
        reply w (c.note (.ran c.beResp.bytes)) .bindComplete
      else reply w (c.note (.stub why r.written)) .bindComplete

/-- The arms of `process_frontend` while the backend side is not idle. -/
def queueEvent (c : Conn) : Event → Conn
  | .parse msg =>
      match feqPushParse c msg with
      | (c, true) => c
      | (c, false) => (reply w c queueFullError).1
  | .bind msg =>
      match feqPushBind w c msg with
      | (c, true) => c
      | (c, false) => replyBoth w c queueFullError .readyForQuery
  | .execute =>
      match feqPush c .execute with
      | (c, true) => c
      | (c, false) => { c with gotExecute := true }
  | .sync => { (feqPush c .sync).1 with gotSync := true }
  | .query sql =>
      match feqPush c (.query (sql.copyTo w.maxQueryLen)) with
      | (c, true) => c
      | (c, false) => replyBoth w c queueFullError .readyForQuery
  | _ => c

/-! ### The end of a pipeline -/

/-- What `backend_async_complete` sends of the response. -/
def sendResult (c : Cell) (hadError : Bool) : Cell × Bool :=
  if c.conn.gotSync = true ∧ 0 < c.conn.beResp.len then
    match queueBackend c c.conn.beResp.bytes with
    | (c, false) => (c, false)
    | (c, true) => ({ c with conn := c.conn.emptyResp }, true)
  else if hadError = true ∧ 0 < c.conn.beResp.len then
    match queueBackend c c.conn.beResp.bytes with
    | (c, false) => (c, false)
    | (c, true) => ({ c with conn := { c.conn.emptyResp with gotSync := false } }, true)
  else if c.conn.gotSync = true ∧ c.conn.beResp.len = 0 then
    c.onConn fun conn => reply w conn .readyForQuery
  else (c, true)

/-- `backend_async_complete` up to the release of the backend. -/
def deliverResult (c : Cell) (hadError : Bool) : Cell × Bool :=
  let conn := c.conn.note (.completed hadError)
  let (conn, ok) :=
    if hadError then ({ feqClearAll conn with gotExecute := false }, true)
    else reply w conn .bindComplete
  let c := { c with conn := conn }
  if ok = false then (c, false)
  else
    match sendResult w c hadError with
    | (c, false) => (c, false)
    | (c, true) => drainFrontendOut c

/-- `backend_async_fail` after the backend was given up. -/
def reportLost (c : Cell) : Cell × Bool :=
  let conn := (c.conn.note .lost).emptyResp
  drainFrontendOut { c with conn := replyBoth w { conn with be := none } pipelineError .readyForQuery }

end
