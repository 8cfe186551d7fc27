import PqProxy.Rewrite

/-! The backend pool: connections that are logged in ahead of use, checked out by one holder at a
time and re-established when they die. What the network does is an environment that answers each
blocking operation; the clock numbers these operations. -/

/-- What a backend sends for one pipeline: well-formed messages, the last of which is its only
ReadyForQuery. -/
structure Response where
  body : List Bytes
  last : Bytes
  body_framed : ∀ m ∈ body, Framing.Framed m ∧ Framing.typeOf m ≠ some msgReadyForQuery
  last_framed : Framing.Framed last ∧ Framing.typeOf last = some msgReadyForQuery

/-- The bytes of a response. -/
def Response.bytes (r : Response) : Bytes := r.body.flatten ++ r.last

/-- The outcome of every blocking operation, by clock. -/
structure Env where
  /-- The descriptor a connection attempt gets. -/
  socket : Nat → Option Nat
  createWire : Nat → Bool
  authenticate : Nat → Bool
  /-- Whether all writes of a pipeline succeed. -/
  write : Nat → Bool
  answer : Nat → Response
  /-- The number of messages after which reading the answer fails. -/
  fault : Nat → Option Nat

def beSendCap : Nat := 32768
def beRecvCap : Nat := 16384

/-- `pqproxy_backend_conn`. The last four fields are not part of the program: the session the
descriptor belongs to, the bytes that wait unread in its socket, its blocking mode, and the user its
last session was authenticated as. -/
structure BackendConn where
  fd : Option Nat
  wire : Option Bytes
  loginUser : Text
  busy : Bool
  alive : Bool
  slot : Nat
  sendBuf : Mem
  sendLen : Nat
  sendOff : Nat
  recvAcc : Mem
  recvAccLen : Nat
  skipParseBind : Bool
  pipeSt : PipelineStatus
  session : Nat
  inbox : Bytes
  nonblock : Bool
  role : Text

/-- A slot of a new pool. -/
def BackendConn.fresh (slot : Nat) : BackendConn where
  fd := none
  wire := none
  loginUser := []
  busy := false
  alive := false
  slot := slot
  sendBuf := Mem.zero
  sendLen := 0
  sendOff := 0
  recvAcc := Mem.zero
  recvAccLen := 0
  skipParseBind := false
  pipeSt := .init
  session := 0
  inbox := []
  nonblock := false
  role := []

/-- `conn_teardown_io`. -/
def BackendConn.teardownIo (c : BackendConn) : BackendConn :=
  { c with
    fd := none, wire := none, alive := false, sendLen := 0, sendOff := 0, recvAccLen := 0,
    inbox := [], nonblock := false }

/-- `pqproxy_backend_config_t`, as far as the pool's own code reads it. -/
structure BackendConfig where
  user : Text
  useGroupAsUser : Bool
  groups : Text
  lazyGroupConnect : Bool
  poolSize : Nat
  autoReconnect : Bool
  healthCheckOnCheckout : Bool

/-- `pqproxy_backend_pool`, with the clock of the environment, the number of sessions so far and the
pipelines that were handed to backends. -/
structure Pool where
  cfg : BackendConfig
  user : Text
  groups : List Text
  useGroupAsUser : Bool
  lazyConnect : Bool
  maxConns : Nat
  conns : Nat → BackendConn
  n : Nat
  rrCursor : Nat
  clock : Nat
  sessions : Nat
  written : List Bytes

def Pool.setConn (p : Pool) (b : Nat) (c : BackendConn) : Pool :=
  { p with conns := Function.update p.conns b c }

/-- One more blocking operation. -/
def Pool.tick (p : Pool) : Pool := { p with clock := p.clock + 1 }

/-- One more session with a backend. -/
def Pool.newSession (p : Pool) : Pool := { p with sessions := p.sessions + 1 }

/-- These pipelines are handed to a backend. -/
def Pool.wrote (p : Pool) (pipelines : List Bytes) : Pool :=
  { p with written := p.written ++ pipelines }

/-- Whether a descriptor belongs to a connection of the pool. -/
def Pool.isOpen (p : Pool) (fd : Nat) : Bool :=
  (List.range p.maxConns).any fun b => (p.conns b).fd == some fd

section Warm

variable (env : Env)

/-- `tcp_connect`: `socket` never returns a descriptor that is open. -/
def tcpConnect (p : Pool) : Option Nat := (env.socket p.clock).filter fun fd => !p.isOpen fd

/-- `warm_one`. -/
def warmOne (p : Pool) (b : Nat) (loginUser : Text) : Pool × Bool :=
  let now := p.clock
  let c := (p.conns b).teardownIo
  let p := p.setConn b c
  match tcpConnect env p with
  | none => (p.tick, false)
  | some fd =>
      let p := p.tick.newSession
      let c := { c with session := p.sessions }
      if env.createWire now = false then (p.setConn b c, false)
      else
        let c := { c with fd := some fd, wire := some [], loginUser := loginUser.copyTo 128 }
        if env.authenticate now = false then (p.setConn b c.teardownIo, false)
        else (p.setConn b { c with alive := true, busy := false, role := loginUser }, true)

/-- `pqproxy_backend_reconnect`. -/
def reconnect (p : Pool) (b : Nat) : Pool × Bool :=
  let wasBusy := (p.conns b).busy
  let user := (if (p.conns b).loginUser = [] then p.user else (p.conns b).loginUser).copyTo 128
  match warmOne env p b user with
  | (p, false) => (p, false)
  | (p, true) => (p.setConn b { p.conns b with busy := wasBusy }, true)

/-- The loop of `pqproxy_backend_pool_maintain` over the slots `bs`. -/
def maintainFrom : List Nat → Pool → Pool
  | [], p => p
  | b :: bs, p =>
      let c := p.conns b
      if c.busy = false ∧ c.alive = false ∧ c.loginUser ≠ [] then maintainFrom bs (reconnect env p b).1
      else maintainFrom bs p

/-- `pqproxy_backend_pool_maintain`. -/
def poolMaintain (p : Pool) : Pool :=
  if p.cfg.autoReconnect then maintainFrom env (List.range p.maxConns) p else p

end Warm

/-! ### The blocking pipeline -/

section Flush

variable (w : Pqwire) (env : Env)

/-- `read_msg`: what stays in the socket, and the message. Both loops give up when the bytes run
out. -/
def readMsg (inbox : Bytes) (cap : Nat) : Bytes × Option Bytes :=
  match Framing.lengthField inbox with
  | none => ([], none)
  | some mlen =>
      if mlen < 4 ∨ 16 * 1024 * 1024 < mlen then (inbox.drop 5, none)
      else if cap < 1 + mlen then (inbox.drop 5, none)
      else if inbox.length < 1 + mlen then ([], none)
      else (inbox.drop (1 + mlen), some (inbox.take (1 + mlen)))

/-- How the read loop of `pqproxy_backend_flush_pipeline_ex` ends. -/
inductive ReadExit where
  | dead
  | full
  | ended
  deriving DecidableEq

structure Collected where
  exit : ReadExit
  inbox : Bytes
  status : PipelineStatus
  out : Bytes

/-- The read loop: at most `rounds` messages, the socket failing after `fault` of them. -/
def collect (cap : Nat) (skip : Bool) :
    Nat → Option Nat → Bytes → PipelineStatus → Bytes → Collected
  | 0, _, inbox, st, out => ⟨.ended, inbox, st, out⟩
  | rounds + 1, fault, inbox, st, out =>
      if st.complete then ⟨.ended, inbox, st, out⟩
      else if fault = some 0 then ⟨.dead, inbox, st, out⟩
      else
        match readMsg inbox 16384 with
        | (inbox, none) => ⟨.dead, inbox, st, out⟩
        | (inbox, some m) =>
            match w.feedBackendMsg st m with
            | none => ⟨.dead, inbox, st, out⟩
            | some st =>
                let fault := fault.map (· - 1)
                if w.filterBackendType (m.headD 0) skip then collect cap skip rounds fault inbox st out
                else if cap < out.length + m.length then ⟨.full, inbox, st, out⟩
                else collect cap skip rounds fault inbox st (out ++ m)

/-- What `pqproxy_backend_flush_pipeline_ex` leaves to its caller: the bytes written to the output
buffer, the length it reports, and whether it returned zero. -/
structure Flushed where
  written : Bytes
  outLen : Nat
  ok : Bool

def Flushed.failed : Flushed := ⟨[], 0, false⟩

/-- The connection after the read loop. -/
def flushEnd (c : BackendConn) (r : Collected) : BackendConn × Flushed :=
  let c := { c with wire := some [], inbox := r.inbox, pipeSt := .init }
  match r.exit with
  | .dead => ({ c with alive := false }, ⟨r.out, 0, false⟩)
  | .full => (c, ⟨r.out, 0, false⟩)
  | .ended => ({ c with pipeSt := r.status }, ⟨r.out, r.out.length, r.status.complete⟩)

/-- `pqproxy_backend_flush_pipeline_ex` on one connection. A pipeline that was written completely is
answered by the backend. -/
def flushConn (now cap : Nat) (skip : Bool) (c : BackendConn) : BackendConn × Flushed :=
  match c.alive, c.wire with
  | true, some pending =>
      if pending ≠ [] ∧ env.write now = false then
        ({ c with wire := some [], alive := false, pipeSt := .init }, .failed)
      else
        let inbox := if pending = [] then c.inbox else c.inbox ++ (env.answer now).bytes
        flushEnd c (collect w cap skip 256 (env.fault now) inbox .init [])
  | _, _ => (c, .failed)

/-- The output that is written, when there is any. -/
def BackendConn.toWrite (c : BackendConn) : List Bytes :=
  match c.alive, c.wire with
  | true, some pending => if pending = [] then [] else [pending]
  | _, _ => []

/-- `pqproxy_backend_flush_pipeline_ex`. -/
def flushPipelineEx (p : Pool) (b cap : Nat) (skip : Bool) : Pool × Flushed :=
  let (c, r) := flushConn w env p.clock cap skip (p.conns b)
  ((p.setConn b c).tick.wrote (p.conns b).toWrite, r)

/-- `pqwire_send_query` on a backend context. -/
def sendQuery (out : Bytes) (sql : Text) : Option Bytes :=
  if w.acceptsClient out (.query sql) then some (out ++ w.encodeClient (.query sql)) else none

/-- `pqproxy_backend_health_check`. -/
def healthCheck (p : Pool) (b : Nat) : Pool × Bool :=
  let c := p.conns b
  if c.alive = false ∨ c.wire = none then (p, false)
  else
    match sendQuery w [] "SELECT 1".toList with
    | none => (p.setConn b c.teardownIo, false)
    | some out =>
        let (p, r) := flushPipelineEx w env (p.setConn b { c with wire := some out }) b 2048 false
        if r.ok then (p.setConn b { p.conns b with nonblock := true }, true)
        else (p.setConn b (p.conns b).teardownIo, false)

end Flush

/-! ### Checkout -/

section Checkout

variable (w : Pqwire) (env : Env)

/-- `checkout_try`. -/
def checkoutTry (p : Pool) (b : Nat) : Pool × Bool :=
  let c := p.conns b
  if c.alive = false ∨ c.busy = true then (p, false)
  else
    let p := p.setConn b { c with busy := true }
    if p.cfg.healthCheckOnCheckout = false then (p, true)
    else
      match healthCheck w env p b with
      | (p, true) => (p, true)
      | (p, false) =>
          let p := p.setConn b { p.conns b with busy := false }
          if p.cfg.autoReconnect = false then (p, false)
          else
            match reconnect env p b with
            | (p, true) => (p.setConn b { p.conns b with busy := true }, true)
            | (p, false) => (p, false)

def Pool.advanceCursor (p : Pool) (idx : Nat) : Pool :=
  { p with rrCursor := (idx + 1) % p.maxConns }

/-- The first loop of `pqproxy_backend_checkout`: the connection found, and the fallback. -/
def checkoutScan (group : Text) : List Nat → Option Nat → Pool → Pool × Option Nat × Option Nat
  | [], fallback, p => (p, none, fallback)
  | idx :: rest, fallback, p =>
      let c := p.conns idx
      if c.alive = false ∨ c.busy = true then checkoutScan group rest fallback p
      else if group ≠ [] ∧ c.loginUser = group then
        match checkoutTry w env p idx with
        | (p, true) => (p.advanceCursor idx, some idx, fallback)
        | (p, false) => checkoutScan group rest fallback p
      else checkoutScan group rest (fallback.orElse fun _ => some idx) p

/-- The second loop, over the connections of the group only. -/
def checkoutGroup (group : Text) : List Nat → Pool → Pool × Option Nat
  | [], p => (p, none)
  | idx :: rest, p =>
      let c := p.conns idx
      if c.alive = true ∧ c.busy = false ∧ c.loginUser = group then
        match checkoutTry w env p idx with
        | (p, true) => (p.advanceCursor idx, some idx)
        | (p, false) => checkoutGroup group rest p
      else checkoutGroup group rest p

/-- The third loop: log in as the group on the first dead slot. -/
def checkoutLazy (group : Text) : List Nat → Pool → Pool × Option Nat
  | [], p => (p, none)
  | idx :: rest, p =>
      if (p.conns idx).alive then checkoutLazy group rest p
      else
        match warmOne env p idx group with
        | (p, true) => ((p.setConn idx { p.conns idx with busy := true }).advanceCursor idx, some idx)
        | (p, false) => (p, none)

/-- The slots in round-robin order: where the loops of `pqproxy_backend_checkout` look, one after the
other. -/
def searchOrder (p : Pool) : List Nat :=
  (List.range p.maxConns).map fun i => (p.rrCursor % p.maxConns + i) % p.maxConns

/-- `pqproxy_backend_checkout`. -/
def checkout (p : Pool) (group : Text) : Pool × Option Nat :=
  if p.maxConns = 0 then (p, none)
  else
    let p := poolMaintain env p
    let order := searchOrder p
    match checkoutScan w env group order none p with
    | (p, some idx, _) => (p, some idx)
    | (p, none, fallback) =>
        if p.useGroupAsUser = true ∧ group ≠ [] then
          match checkoutGroup w env group order p with
          | (p, some idx) => (p, some idx)
          | (p, none) => if p.lazyConnect then checkoutLazy env group order p else (p, none)
        else
          match fallback with
          | none => (p, none)
          | some idx =>
              match checkoutTry w env p idx with
              | (p, true) => (p.advanceCursor idx, some idx)
              | (p, false) => (p, none)

/-- `pqproxy_backend_mark_dead`. -/
def markDead (p : Pool) (b : Nat) : Pool := p.setConn b (p.conns b).teardownIo

/-- `pqproxy_backend_checkin`. -/
def checkin (p : Pool) (b : Nat) : Pool := p.setConn b { p.conns b with busy := false }

end Checkout

def maxBackendGroups : Nat := 16
def maxGroupName : Nat := 64

/-- The loop of `parse_groups`. -/
def parseGroupsFrom : Nat → Text → Nat → List Text
  | 0, _, _ => []
  | fuel + 1, p, n =>
      if p = [] ∨ maxBackendGroups ≤ n then []
      else
        let isPad := fun c : Char => c == ' ' || c == '\t'
        let item := (p.takeWhile (· != ',')).dropWhile isPad
        let name := (item.reverse.dropWhile isPad).reverse
        let rest := (p.dropWhile (· != ',')).drop 1
        if name ≠ [] ∧ name.length < maxGroupName then name :: parseGroupsFrom fuel rest (n + 1)
        else parseGroupsFrom fuel rest n

/-- `parse_groups`. -/
def parseGroups (csv : Text) : List Text := parseGroupsFrom (csv.length + 1) csv 0

/-- Log in the slots from `slot` on, one after the other; the number of successes. -/
def warmSlots (env : Env) : List (Nat × Text) → Pool → Nat → Pool × Nat
  | [], p, ok => (p, ok)
  | (b, user) :: rest, p, ok =>
      let (p, warmed) := warmOne env p b user
      warmSlots env rest p (if warmed then ok + 1 else ok)

/-- The user each slot logs in as at warm-up. -/
def warmPlan (groups : List Text) (useGroupAsUser : Bool) (user : Text) (n : Nat) :
    List (Nat × Text) :=
  if useGroupAsUser = true ∧ groups ≠ [] then
    let per := max (n / groups.length) 1
    let extra := n % groups.length
    let users := (groups.zipIdx.flatMap fun (name, g) =>
      List.replicate (per + if g < extra then 1 else 0) name).take n
    users.zipIdx.map fun (name, b) => (b, name)
  else (List.range n).map fun b => (b, user)

/-- `pqproxy_backend_pool_create`. -/
def poolCreate (env : Env) (cfg : BackendConfig) : Option Pool :=
  let user := Text.copyTo (if cfg.user = [] then "postgres".toList else cfg.user) 128
  let groups := parseGroups cfg.groups
  let n := if cfg.poolSize = 0 then 4 else cfg.poolSize
  let n := if cfg.useGroupAsUser = true ∧ groups ≠ [] then max n groups.length else n
  let maxConns := min ((n + if cfg.lazyGroupConnect then 16 else 0) % 18446744073709551616) 64
  let n := min n maxConns
  let p : Pool :=
    { cfg := cfg, user := user, groups := groups, useGroupAsUser := cfg.useGroupAsUser,
      lazyConnect := cfg.lazyGroupConnect, maxConns := maxConns, conns := BackendConn.fresh, n := n,
      rrCursor := 0, clock := 0, sessions := 0, written := [] }
  match warmSlots env (warmPlan groups cfg.useGroupAsUser user n) p 0 with
  | (_, 0) => none
  | (p, _ + 1) => some p

/-- `pqproxy_backend_pool_set_nonblock`. -/
def poolSetNonblock (p : Pool) : Pool :=
  { p with conns := fun b =>
      let c := p.conns b
      if b < p.maxConns ∧ c.alive = true ∧ c.fd ≠ none then { c with nonblock := true } else c }

/-- Every connection attempt succeeds, and every pipeline is answered by `r`. -/
def answering (r : Response) : Env where
  socket := fun now => some (5 + now)
  createWire := fun _ => true
  authenticate := fun _ => true
  write := fun _ => true
  answer := fun _ => r
  fault := fun _ => none

/-- A response of nothing but ReadyForQuery. -/
def bareResponse : Response where
  body := []
  last := [90, 0, 0, 0, 5, 73]
  body_framed := by simp
  last_framed := by decide
