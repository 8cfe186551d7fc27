import PqProxy.Framing

/-! The wire library as the proxy uses it. Its code is not part of the repository: messages are
plain data, what it encodes, accepts and filters is a parameter, and what the proxy relies on is
stated as properties of that parameter. -/

/-- A C string, without its terminating zero. -/
abbrev Text := List Char

/-- The bytes of a C string. -/
def Text.bytes (t : Text) : Bytes := t.map fun c => UInt8.ofNat c.toNat

/-- `strncpy` into an array of `size` bytes whose last byte stays zero. -/
def Text.copyTo (t : Text) (size : Nat) : Text := t.take (size - 1)

/-- What holds of all members of a list is checked member by member. -/
theorem forall_mem_of_all {α : Type*} {p : α → Prop} [DecidablePred p] {l : List α}
    (h : (l.all fun x => decide (p x)) = true) : ∀ x ∈ l, p x :=
  fun _ hx => of_decide_eq_true (List.all_eq_true.mp h _ hx)

/-! ### Messages -/

/-- `pq_parse_t`. -/
structure PqParse where
  statement : Text
  query : Text
  paramTypeOids : List Nat
  deriving DecidableEq

/-- `pq_bind_param_view_t`: no value when the length is negative. -/
structure PqBindParam where
  format : Int
  value : Option Bytes
  deriving DecidableEq

/-- `pq_bind_t`. -/
structure PqBind where
  statement : Text
  portal : Text
  params : List PqBindParam
  resultFormats : List Int
  deriving DecidableEq

/-- `pqwire_prepared_stmt_t`. -/
structure PreparedStmt where
  name : Text
  query : Text
  paramTypeOids : List Nat
  identityParamSlot : Int
  deriving DecidableEq

/-- `pqwire_pipeline_status_t`, without the text of the last error. -/
structure PipelineStatus where
  sawError : Bool
  complete : Bool
  deriving DecidableEq

/-- `pqwire_pipeline_status_init`. -/
def PipelineStatus.init : PipelineStatus := ⟨false, false⟩

/-- What the server role writes to a frontend. -/
inductive Reply where
  | authOk
  | readyForQuery
  | parseComplete
  | bindComplete
  | commandComplete (tag : Text)
  | errorResponse (severity code message : Text)
  deriving DecidableEq

/-- What the client role writes to a backend. -/
inductive ClientMsg where
  | parse (statement query : Text) (paramTypeOids : List Nat)
  | bind (portal statement : Text) (params : List PqBindParam) (resultFormats : List Int)
  | execute (portal : Text) (maxRows : Nat)
  | sync
  | query (sql : Text)
  deriving DecidableEq

/-- What the server role decodes from a frontend; the remaining event types are ignored. -/
inductive Event where
  | startup
  | parse (msg : PqParse)
  | bind (msg : PqBind)
  | execute
  | sync
  | terminate
  | query (sql : Text)
  | other
  deriving DecidableEq

/-- Message types of the backend protocol. -/
def msgReadyForQuery : UInt8 := 90
def msgErrorResponse : UInt8 := 69
def msgCommandComplete : UInt8 := 67
def msgParseComplete : UInt8 := 49
def msgBindComplete : UInt8 := 50

/-- The type byte of a reply. -/
def Reply.type : Reply → UInt8
  | .authOk => 82
  | .readyForQuery => msgReadyForQuery
  | .parseComplete => msgParseComplete
  | .bindComplete => msgBindComplete
  | .commandComplete _ => msgCommandComplete
  | .errorResponse .. => msgErrorResponse

/-! ### The library -/

/-- The functions of the wire library. A context is its undrained output. -/
structure Pqwire where
  /-- The message that a `pqwire_send_*` of the server role appends. -/
  encode : Reply → Bytes
  /-- Whether a context with this output takes the reply. -/
  accepts : Bytes → Reply → Bool
  /-- The message that a `pqwire_send_*` of the client role appends. -/
  encodeClient : ClientMsg → Bytes
  acceptsClient : Bytes → ClientMsg → Bool
  /-- The parameters `pqwire_send_bind_rewrite_identity` sends. -/
  rewriteIdentity : PqBind → Nat → Text → Option (List PqBindParam)
  /-- The parameters `pqwire_bind_inject_identity` builds. -/
  injectIdentity : PqBind → Nat → Text → Option (List PqBindParam)
  /-- `pqwire_prepared_from_parse`. -/
  preparedFromParse : PqParse → Option PreparedStmt
  /-- `pqwire_msg_peek`: type and total size. -/
  msgPeek : Bytes → Option (UInt8 × Nat)
  /-- `pqwire_pipeline_feed_backend_msg`. -/
  feedBackendMsg : PipelineStatus → Bytes → Option PipelineStatus
  /-- `pqwire_pipeline_filter_backend_type`: whether the message is kept from the frontend. -/
  filterBackendType : UInt8 → Bool → Bool
  /-- `pqwire_param_set_text` and `pqwire_param_set_binary`. -/
  paramSetText : Bytes → Option Bytes
  paramSetBinary : Bytes → Option Bytes
  maxBindParams : Nat
  maxStmtName : Nat
  maxPortalName : Nat
  maxQueryLen : Nat

namespace Pqwire

/-- `pqwire_send_*` of the server role on a context. -/
def send (w : Pqwire) (out : Bytes) (r : Reply) : Bytes × Bool :=
  if w.accepts out r then (out ++ w.encode r, true) else (out, false)

/-- The message part of a stored statement is that of the Parse it was made from. -/
structure PreparesCopies (w : Pqwire) : Prop where
  copies : ∀ p stmt, w.preparedFromParse p = some stmt →
    stmt.name = p.statement ∧ stmt.query = p.query ∧ stmt.paramTypeOids = p.paramTypeOids

/-- The identity calls replace one parameter and keep the others. -/
structure ReplacesSlot (w : Pqwire) : Prop where
  rewrites : ∀ bind slot id ps, w.rewriteIdentity bind slot id = some ps →
    ps = bind.params.set slot ⟨0, some id.bytes⟩
  injects : ∀ bind slot id ps, w.injectIdentity bind slot id = some ps →
    ps = bind.params.set slot ⟨0, some id.bytes⟩

/-- Every call that is given a parameter it can replace succeeds. -/
structure Succeeds (w : Pqwire) : Prop where
  prepares : ∀ p, ∃ stmt, w.preparedFromParse p = some stmt
  acceptsClient : ∀ out m, w.acceptsClient out m = true
  rewrites : ∀ bind slot id, slot < bind.params.length →
    ∃ ps, w.rewriteIdentity bind slot id = some ps

/-- Each send of the server role appends one whole message. -/
structure Appends (w : Pqwire) : Prop where
  accepts : ∀ out r, w.accepts out r = true
  framed : ∀ r, Framing.Framed (w.encode r)
  typeOf : ∀ r, Framing.typeOf (w.encode r) = some r.type

/-- How the pipeline status follows the messages, and which messages reach the frontend. -/
structure FollowsPipeline (w : Pqwire) : Prop where
  feed : ∀ st m, Framing.Framed m → w.feedBackendMsg st m =
    some ⟨st.sawError || Framing.typeOf m == some msgErrorResponse,
      st.complete || Framing.typeOf m == some msgReadyForQuery⟩
  keeps : ∀ skip, w.filterBackendType msgReadyForQuery skip = false ∧
    w.filterBackendType msgErrorResponse skip = false ∧
    w.filterBackendType msgCommandComplete skip = false
  skips : w.filterBackendType msgParseComplete true = true ∧
    w.filterBackendType msgBindComplete true = true

/-- Peeking at a message returns its type byte. -/
structure Peeks (w : Pqwire) : Prop where
  typeOf : ∀ m t total, w.msgPeek m = some (t, total) → Framing.typeOf m = some t

/-- The size that `pqwire_msg_peek` returns is that of the length field. -/
structure PeeksLength (w : Pqwire) : Prop where
  peek : ∀ m, Framing.Framed m → w.msgPeek m = some (m.headD 0, m.length)

end Pqwire
