import PqProxy.LoopIo
import PqProxy.PoolCalls
import Mathlib

/-! The turns that the event loop takes on one connection, each with everything it can do to that
connection, and the frame around it: what it leaves alone of the other connections and of the
backends they hold. -/

def Cell.upd (c : Cell) (f : Conn → Conn) : Cell := { c with conn := f c.conn }

/-- An event is delivered. -/
def Conn.received (c : Conn) (e : Event) : Conn := c.note (.received e c.beWait)

/-- The connection is past its handshake. -/
def Conn.Open (c : Conn) : Prop := c.state ≠ .free ∧ c.state ≠ .tlsHs

/-- No entry was left for a request, or a request of an earlier pipeline was in the way. -/
def Conn.Upset (c : Conn) : Prop := .noSqe ∈ c.log ∨ .crossed ∈ c.log

/-- No queued request waits that a new message could overtake. -/
def Conn.Quiet (c : Conn) : Prop := c.feQ.toList = [] ∨ c.Upset

/-- A Bind that an idle backend could have run went to it, and was left because the backend failed. -/
def Unrun.Holds (why : Unrun) : Prop :=
  why.pool = true → why.ready = true → why.free = true → why.startable = true → why.flushed = true

/-- A backend is held for the pipeline that runs on it. -/
def Conn.Matched (c : Conn) : Prop := c.be ≠ none → c.beWait = .sending ∨ c.beWait = .reading

/-- The request that an event other than a Bind becomes when it is queued. -/
def Event.work : Event → Option FeqItem
  | .parse msg => some (.parse msg)
  | .execute => some .execute
  | .sync => some .sync
  | .query sql => some (.query sql)
  | _ => none

/-- Where a Bind comes from. -/
inductive BindSource where
  | event (bind : PqBind)
  | queue (it : BindItem)

/-- The Bind itself. -/
def BindSource.bind (w : Pqwire) : BindSource → PqBind
  | .event bind => bind
  | .queue it => it.toBind w

/-- The history tells where the Bind came from. -/
def BindSource.Logged (log : List Obs) : BindSource → Prop
  | .event bind => ∃ wait, .received (.bind bind) wait ∈ log
  | .queue it => .took (.bind it) ∈ log

/-- A request other than a Bind is taken up, directly or from the queue. -/
inductive Arrives (c : Cell) : FeqItem → Cell → Prop where
  | direct {e : Event} {it : FeqItem} (hwork : e.work = some it) (hopen : c.conn.Open)
      (hidle : c.conn.beWait = .idle) (hquiet : c.conn.Quiet) :
      Arrives c it (c.upd fun conn => conn.received e)
  | popped {conn : Conn} {it : FeqItem} (hidle : c.conn.beWait = .idle)
      (hpop : feqPop c.conn = some (conn, it)) : Arrives c it { c with conn := conn }

/-- A Bind is taken up. When no submission entry was left the handlers can take up the same Bind once
more. -/
inductive BindArrives (w : Pqwire) (c : Cell) : BindSource → Cell → Prop where
  | direct {bind : PqBind} (hopen : c.conn.Open) (hidle : c.conn.beWait = .idle)
      (hquiet : c.conn.Quiet) :
      BindArrives w c (.event bind) (c.upd fun conn =>
        ((conn.received (.bind bind)).binding w bind).emptyResp.clearGot)
  | popped {conn : Conn} {it : BindItem} (hidle : c.conn.beWait = .idle)
      (hpop : feqPop c.conn = some (conn, .bind it)) :
      BindArrives w c (.queue it) { c with conn := conn.binding w (it.toBind w) }
  | again {src : BindSource} (hopen : c.conn.Open) (hsqe : .noSqe ∈ c.conn.log)
      (hlogged : src.Logged c.conn.log) : BindArrives w c src c

/-- Attempts to run a Bind that came to nothing. -/
def Tried (c c' : Cell) : Prop :=
  ∃ l, c' = c.upd (fun conn => { conn with log := conn.log ++ l }) ∧ ∀ o ∈ l,
    (o = .checkout c.conn.identityReady c.conn.id ∧ c.conn.identityReady = true) ∨ ∃ it, o = .dropped it

/-- Put a Bind that was taken up into the queue. -/
def requeue (w : Pqwire) (c : Conn) : BindSource → Option Conn
  | .event bind =>
      match feqPushBind w c bind with
      | (c, true) => some c
      | (_, false) => none
  | .queue it => feqPutBack c (.bind it)

section

variable (w : Pqwire) (cfg : Config) (hasPool : Bool)

/-- The answer to a request other than a Bind. -/
inductive Answers (c : Cell) : FeqItem → Cell → Prop where
  | none : Answers c .none c
  | parse (msg : PqParse) : Answers c (.parse msg) (c.upd fun conn => answerParse w cfg conn msg)
  | execute : Answers c .execute (c.onConn (answerExecute w hasPool)).1
  | sync : Answers c .sync (answerSync w c).1
  | queuedSync : Answers c .sync (answerQueuedSync w c)
  | query (sql : Text) (reject : Bool) :
      Answers c (.query sql) (c.onConn fun conn => onSimpleQuery w conn reject).1
  | forward (sql : Text) {r : ExecResult} (hsound : r.Sound w) (hready : c.conn.identityReady = true)
      (hreject : cfg.rejectSimpleQuery = false) :
      Answers c (.query sql) (answerQuery w (c.upd Conn.checkingOut) r).1
  | queuedForward (sql : Text) {r : ExecResult} (hsound : r.Sound w)
      (hready : c.conn.identityReady = true) (hreject : cfg.rejectSimpleQuery = false) :
      Answers c (.query sql) (answerQueuedQuery w (c.upd Conn.checkingOut) r)
  | terminate (hopen : c.conn.Open) :
      Answers c .terminate (c.upd fun conn => { conn with state := .closing })

/-- The backend of a connection that holds none. -/
def noBackend : BackendConn := .fresh 0

/-- A pipeline is put on backend `b`, and its first request is prepared. -/
def Cell.startOn (c : Cell) (b : Nat) (h : BackendConn) : Cell × Bool :=
  submitBeSend (fun _ => h) (c.upd fun conn => (conn.checkingOut.begin b).clearGot)

/-- The connection for which a pipeline is begun. -/
def Conn.begun (c : Conn) (b : Nat) : Conn := (c.checkingOut.begin b).clearGot

/-- What a new pipeline changes of its connection. -/
theorem begun_eq (c : Conn) (b : Nat) : c.begun b =
    { c with
      be := some b, beResp := ⟨c.beResp.buf, 0⟩, pipe := c.pipe + 1, gotExecute := false,
      gotSync := false, log := c.log ++ [.checkout c.identityReady c.id] ++ [.began] } := by
  dsimp only [Conn.begun, Conn.clearGot, Conn.begin, Conn.checkingOut, Conn.note, Conn.emptyResp]

theorem startOn_eq (c : Cell) (b : Nat) (h : BackendConn) :
    c.startOn b h = submitBeSend (fun _ => h) { c with conn := c.conn.begun b } := by
  unfold Cell.startOn Cell.upd Conn.begun
  rfl

/-- A turn of a connection, with the backend it holds before and after, other than the completion of
a request to that backend. -/
inductive Act : Cell → BackendConn → Cell → BackendConn → Prop where
  | io {c c' : Cell} {h : BackendConn} (hio : Io [] c c') : Act c h c' h
  | feed {c : Cell} {h : BackendConn} (hopen : c.conn.Open)
      (hready : c.conn.identityReady = true ∨ cfg.requireMtls = false) :
      Act c h (c.upd fun conn => conn.note (.fed conn.identityReady conn.id)) h
  | startup {c : Cell} {h : BackendConn} (hopen : c.conn.Open) :
      Act c h ((c.upd fun conn => conn.received .startup).onConn (answerStartup w)).1 h
  | ignore {c : Cell} {h : BackendConn} : Act c h (c.upd fun conn => conn.received .other) h
  | terminate {c : Cell} {h : BackendConn} (hopen : c.conn.Open)
      (hquiet : c.conn.beWait = .idle → c.conn.Quiet) :
      Act c h (c.upd fun conn => { conn.received .terminate with state := .closing }) h
  | enqueue {c : Cell} {h : BackendConn} {e : Event} (hwait : c.conn.beWait ≠ .idle)
      (he : e.work ≠ none ∨ ∃ bind, e = .bind bind) :
      Act c h (c.upd fun conn => queueEvent w (conn.received e) e) h
  | answer {c c₁ c' : Cell} {h : BackendConn} {it : FeqItem} (harrive : Arrives c it c₁)
      (hanswer : Answers w cfg hasPool c₁ it c') : Act c h c' h
  | begin {c c₁ c' : Cell} {h h' : BackendConn} {src : BindSource} {b : Nat}
      (harrive : BindArrives w c src c₁) (hready : c₁.conn.identityReady = true) (hbegun : h'.Begun)
      (hstart : c₁.startOn b h' = (c', true)) : Act c h c' h'
  | park {c c₁ c₂ : Cell} {h : BackendConn} {src : BindSource} {conn : Conn} {free : Bool}
      (harrive : BindArrives w c src c₁) (htried : Tried c₁ c₂)
      (hqueue : requeue w c₂.conn src = some conn)
      (hfree : free = true → startable w c₁.conn.cache (src.bind w) c₁.conn.id = false ∨
        .noSqe ∈ c₂.conn.log) :
      Act c h { c with conn := { conn.note (.parked free) with beWait := .waitingPool } } h
  | bind {c c₁ c₂ : Cell} {h : BackendConn} {src : BindSource} {why : Unrun}
      {r : Option ExecResult} (harrive : BindArrives w c src c₁) (htried : Tried c₁ c₂)
      (hsound : ∀ x, r = some x → x.Sound w) (hpool : why.pool = hasPool)
      (hready : why.ready = c.conn.identityReady) (hwhy : why.Holds) :
      Act c h (c₂.onConn fun conn => answerBind w conn why r).1 h
  | lost {c c₁ c₂ c₃ : Cell} {h h' : BackendConn} {src : BindSource} {b : Nat}
      (harrive : BindArrives w c src c₁) (hready : c₁.conn.identityReady = true)
      (hstart : c₁.startOn b h' = (c₂, false)) (hsend : reportLost w c₂ = (c₃, true)) :
      Act c h (c₃.upd Conn.release) noBackend
  | lostCut {c c₁ c₂ c₃ : Cell} {h h' : BackendConn} {src : BindSource} {b : Nat}
      (harrive : BindArrives w c src c₁) (hready : c₁.conn.identityReady = true)
      (hstart : c₁.startOn b h' = (c₂, false)) (hsend : reportLost w c₂ = (c₃, false)) :
      Act c h c₃ noBackend
  | draining {c : Cell} {h : BackendConn} (v : Bool) :
      Act c h (c.upd fun conn => { conn with drainingQueue := v }) h
  | unpark {c : Cell} {h : BackendConn} (hwait : c.conn.beWait = .waitingPool) :
      Act c h (c.upd fun conn => { conn with beWait := .idle }) h
  | repark {c : Cell} {h : BackendConn} {free : Bool} (hwait : c.conn.beWait = .idle)
      (hqueue : c.conn.feQ.toList ≠ []) (hupset : c.conn.Upset) :
      Act c h (c.upd fun conn => { conn.note (.parked free) with beWait := .waitingPool }) h
  | handshake {c : Cell} {h : BackendConn} (peer : Peer) (hstate : c.conn.state = .tlsHs) :
      Act c h (c.onConn (tlsOnHandshakeDone cfg peer)).1 h
  | closing {c : Cell} {h : BackendConn} (hopen : c.conn.Open) :
      Act c h (c.upd fun conn => { conn with state := .closing }) h

/-- The request to the backend is no longer pending. -/
def Conn.landed (c : Conn) : Op → Conn
  | .beSend => { c with beSendPending := false }
  | .beRecv => { c with beRecvPending := false }
  | _ => c

/-- The completion of a request to the backend of a connection. -/
inductive Land : Op → Cell → BackendConn → Cell → BackendConn → Prop where
  | sent {c : Cell} {h : BackendConn} (n : Nat) (hbe : c.conn.be ≠ none) :
      Land .beSend c h (submitBeSend (fun _ => asyncSendAdvance h n)
        (c.upd fun conn => conn.landed .beSend)).1 (asyncSendAdvance h n)
  | resend {c : Cell} {h : BackendConn} (hbe : c.conn.be ≠ none) :
      Land .beSend c h (submitBeSend (fun _ => h) (c.upd fun conn => conn.landed .beSend)).1 h
  | more {c : Cell} {h h' : BackendConn} {data : Bytes} {resp : RespBuf} (hbe : c.conn.be ≠ none)
      (hrecv : asyncOnRecv w h data c.conn.beResp ioBuf = (h', resp, .more)) :
      Land .beRecv c h (submitBeRecv (fun _ => h')
        (c.upd fun conn => (conn.landed .beRecv).gotData resp (usedUp h h' data))).1 h'
  | complete {c c₁ : Cell} {h h' : BackendConn} {data : Bytes} {resp : RespBuf}
      (hbe : c.conn.be ≠ none)
      (hrecv : asyncOnRecv w h data c.conn.beResp ioBuf = (h', resp, .complete))
      (hsend : deliverResult w
        (c.upd fun conn => (conn.landed .beRecv).gotData resp (usedUp h h' data))
        h'.pipeSt.sawError = (c₁, true)) :
      Land .beRecv c h (c₁.upd fun conn => Conn.release { conn with be := none }) noBackend
  | completeCut {c c₁ : Cell} {h h' : BackendConn} {data : Bytes} {resp : RespBuf}
      (hbe : c.conn.be ≠ none)
      (hrecv : asyncOnRecv w h data c.conn.beResp ioBuf = (h', resp, .complete))
      (hsend : deliverResult w
        (c.upd fun conn => (conn.landed .beRecv).gotData resp (usedUp h h' data))
        h'.pipeSt.sawError = (c₁, false)) : Land .beRecv c h c₁ h'
  | lost {op : Op} {c c₁ : Cell} {h : BackendConn} (resp : RespBuf) (hbe : c.conn.be ≠ none)
      (hsend : reportLost w (c.upd fun conn => { conn.landed op with beResp := resp }) = (c₁, true)) :
      Land op c h (c₁.upd Conn.release) noBackend
  | lostCut {op : Op} {c c₁ : Cell} {h : BackendConn} (resp : RespBuf) (hbe : c.conn.be ≠ none)
      (hsend : reportLost w (c.upd fun conn => { conn.landed op with beResp := resp }) =
        (c₁, false)) : Land op c h c₁ noBackend

end

/-! ### The frame -/

namespace Server

def cell (s : Server) (i : Slot) : Cell := ⟨s.conns i, i, s.sq⟩

/-- The backend that a connection holds. -/
def held (s : Server) (i : Slot) : BackendConn :=
  match (s.conns i).be with
  | none => noBackend
  | some b => s.backends b

def Wf (s : Server) : Prop := ∀ p, s.pool = some p → p.Wf

end Server

/-- Every backend has at most one holder, for whom it is checked out and alive. -/
structure Owned (s : Server) : Prop where
  held : ∀ i b, (s.conns i).be = some b → (s.backends b).Held
  unique : ∀ i j b, (s.conns i).be = some b → (s.conns j).be = some b → i = j

/-- A pipeline is whole: an unnamed Parse of a statement that the frontend has cached, a Bind of the
parameters it sent with one replaced by its identity, Execute and Sync. -/
def Written.Whole (w : Pqwire) (x : Written) : Prop :=
  ∃ bind prep slot, ((∃ wait, .received (.bind bind) wait ∈ x.conn.log) ∨
      ∃ it, .took (.bind it) ∈ x.conn.log ∧
        (bind = it.toBind w ∨ bind = { it.toBind w with portal := [] })) ∧
    stmtCacheGet x.conn.cache bind.statement = some prep ∧ slot < bind.params.length ∧
    x.data = (pipelineOf prep bind slot x.conn.id).flatMap w.encodeClient

/-- Nothing but whole pipelines was handed to backends, when simple queries are refused and backends
are not probed. -/
def Server.Faithful (w : Pqwire) (s : Server) : Prop :=
  s.cfg.rejectSimpleQuery = true → (∀ p, s.pool = some p → p.cfg.healthCheckOnCheckout = false) →
    s.written = s.writes.map Written.data ∧ ∀ x ∈ s.writes, x.Whole w

/-- `s'` differs from `s` in connection `i` and in backends that nobody else holds. -/
structure Frame (w : Pqwire) (i : Slot) (s s' : Server) : Prop where
  others : ∀ j, j ≠ i → s'.conns j = s.conns j
  held : ∀ b, (s.backends b).Held → (s.conns i).be ≠ some b → s'.backends b = s.backends b
  owned : ∀ b, (s'.conns i).be = some b →
    (s'.backends b).Held ∧ ((s.conns i).be = some b ∨ ¬ (s.backends b).Held)
  waiters : ∀ j, j ≠ i → (j ∈ s'.waiters.slots ↔ j ∈ s.waiters.slots)
  wf : s.Wf → s'.Wf
  cfg : s'.cfg = s.cfg
  tls : s'.tls = s.tls
  setup : s'.pool.map Pool.setup = s.pool.map Pool.setup
  asyncBackend : s'.asyncBackend = s.asyncBackend
  fairSchedule : s'.fairSchedule = s.fairSchedule
  inflight : s'.inflight = s.inflight
  sends : s'.sends = s.sends
  stuck : s'.stuck = s.stuck
  writes : w.ReplacesSlot → s.Faithful w → s'.Faithful w

/-- No backend becomes busy but the one that connection `i` holds, and the one that it held does not
stay busy without it. -/
def Busies (i : Slot) (s s' : Server) : Prop := ∀ b, (s'.backends b).busy = true →
  (s'.conns i).be = some b ∨ (s.backends b).busy = true ∧ (s.conns i).be ≠ some b

theorem Frame.trans {w : Pqwire} {i : Slot} {s t u : Server} (h : Frame w i s t) (k : Frame w i t u) :
    Frame w i s u where
  others := fun j hj => (k.others j hj).trans (h.others j hj)
  held := by
    intro b hb hne
    have ht := h.held b hb hne
    have hnet : (t.conns i).be ≠ some b := by
      intro hbe
      rcases (h.owned b hbe).2 with heq | hnot
      · exact hne heq
      · exact hnot hb
    rw [k.held b (ht ▸ hb) hnet, ht]
  owned := by
    intro b hbe
    obtain ⟨hheld, hfrom⟩ := k.owned b hbe
    refine ⟨hheld, ?_⟩
    rcases hfrom with hbet | hnot
    · exact (h.owned b hbet).2
    · by_cases hs : (s.backends b).Held
      · by_cases hbes : (s.conns i).be = some b
        · exact Or.inl hbes
        · exact absurd (h.held b hs hbes ▸ hs) hnot
      · exact Or.inr hs
  waiters := fun j hj => (k.waiters j hj).trans (h.waiters j hj)
  wf := k.wf ∘ h.wf
  cfg := k.cfg.trans h.cfg
  tls := k.tls.trans h.tls
  setup := k.setup.trans h.setup
  asyncBackend := k.asyncBackend.trans h.asyncBackend
  fairSchedule := k.fairSchedule.trans h.fairSchedule
  inflight := k.inflight.trans h.inflight
  sends := k.sends.trans h.sends
  stuck := k.stuck.trans h.stuck
  writes := fun hw => k.writes hw ∘ h.writes hw

theorem Busies.trans {i : Slot} {s t u : Server} (h : Busies i s t) (k : Busies i t u) :
    Busies i s u := by
  intro b hb
  rcases k b hb with hbe | ⟨ht, hne⟩
  · exact Or.inl hbe
  · rcases h b ht with hbe | hs
    · exact absurd hbe hne
    · exact Or.inr hs

/-- The holders keep their backends. -/
theorem Owned.frame {w : Pqwire} {i : Slot} {s s' : Server} (hown : Owned s) (h : Frame w i s s') : Owned s' := by
  have hother : ∀ j b, j ≠ i → (s'.conns j).be = some b →
      (s.conns j).be = some b ∧ (s.conns i).be ≠ some b := by
    intro j b hj hbe
    rw [h.others j hj] at hbe
    exact ⟨hbe, fun hi => hj (hown.unique j i b hbe hi)⟩
  refine ⟨?_, ?_⟩
  · intro j b hbe
    by_cases hj : j = i
    · rw [hj] at hbe
      exact (h.owned b hbe).1
    · obtain ⟨hs, hne⟩ := hother j b hj hbe
      rw [h.held b (hown.held j b hs) hne]
      exact hown.held j b hs
  · -- a backend that is new to connection `i` was held by nobody
    have hmix : ∀ j b, j ≠ i → (s'.conns i).be = some b → (s'.conns j).be ≠ some b := by
      intro j b hj hi hbe
      obtain ⟨hs, hne⟩ := hother j b hj hbe
      rcases (h.owned b hi).2 with heq | hnot
      · exact hne heq
      · exact hnot (hown.held j b hs)
    intro j k b hjb hkb
    by_cases hj : j = i
    · by_cases hk : k = i
      · rw [hj, hk]
      · rw [hj] at hjb
        exact absurd hkb (hmix k b hk hjb)
    · by_cases hk : k = i
      · rw [hk] at hkb
        exact absurd hjb (hmix j b hj hkb)
      · exact hown.unique j k b (hother j b hj hjb).1 (hother k b hk hkb).1

/-- Another connection sees the backend it holds unchanged. -/
theorem Frame.held_other {w : Pqwire} {i j : Slot} {s s' : Server} (h : Frame w i s s') (hown : Owned s)
    (hj : j ≠ i) : s'.held j = s.held j := by
  unfold Server.held
  rw [h.others j hj]
  cases hbe : (s.conns j).be with
  | none => rfl
  | some b => exact h.held b (hown.held j b hbe) fun hi => hj (hown.unique j i b hbe hi)

/-! ### Turns -/

/-- A connection takes a turn. -/
structure ActTurn (w : Pqwire) (i : Slot) (s s' : Server) : Prop extends Frame w i s s' where
  act : Act w s.cfg s.pool.isSome (s.cell i) (s.held i) (s'.cell i) (s'.held i)
  busy : .noSqe ∉ (s'.conns i).log → (s.conns i).Matched → Busies i s s'
  sq_free : (s.conns i).state = .free → s'.sq = s.sq
  queue : s'.waiters.slots = s.waiters.slots ∨
    s.waiters.slots = i :: s'.waiters.slots ∧ (s'.conns i).beWait ≠ .waitingPool ∨
      s'.waiters.slots = s.waiters.slots ++ [i]
  ring : (s.conns i).beWait ≠ .waitingPool → (s'.conns i).beWait = .waitingPool →
    i ∈ s'.waiters.slots
  ringed : (i ∈ s.waiters.slots → (s.conns i).beWait = .waitingPool) →
    i ∈ s'.waiters.slots → (s'.conns i).beWait = .waitingPool
  parked : (s.conns i).beWait ≠ .waitingPool → (s'.conns i).beWait = .waitingPool →
    ∃ l, (s'.conns i).log = l ++ [.parked (s'.idleFor i)]

/-- The completion of a request to the backend of a connection. -/
structure LandTurn (w : Pqwire) (op : Op) (i : Slot) (s s' : Server) : Prop extends Frame w i s s' where
  land : Land w op (s.cell i) (s.held i) (s'.cell i) (s'.held i)
  busy : Busies i s s'
  waiters_eq : s'.waiters = s.waiters

/-- What `accept_one` makes of a slot: nothing, a TLS connection in its handshake, or a plain one. -/
inductive Admits (s : Server) (gen fd : Nat) : Conn → Prop where
  | cut {zerocopyOk : Bool} : Admits s gen fd (.opened gen fd zerocopyOk)
  | tls {zerocopyOk : Bool} (htls : s.tls = true) :
      Admits s gen fd { Conn.opened gen fd zerocopyOk with ssl := true, state := .tlsHs }
  | plain {zerocopyOk : Bool} (htls : s.tls = false) : Admits s gen fd { Conn.opened gen fd zerocopyOk with
      state := .active
      id := { plainIdentity with identitySlot := s.cfg.identitySlot }
      identityReady := true }

/-- `accept_one` takes a free slot for a new connection. -/
structure Accepted (w : Pqwire) (i : Slot) (s s' : Server) : Prop extends Frame w i s s' where
  sq : s'.sq = s.sq
  pool : s'.pool = s.pool
  waiters_eq : s'.waiters = s.waiters
  free : (s.conns i).state = .free
  conn : ∃ fd, Admits s ((s.conns i).gen + 1) fd (s'.conns i)

/-- Turns of any connections, one after the other. -/
def Turns (w : Pqwire) : Server → Server → Prop :=
  Relation.ReflTransGen fun s s' => ∃ i, ActTurn w i s s'

/-- Every connection that waits is taken up on the way. -/
def Woken (w : Pqwire) (s s' : Server) : Prop :=
  s.fairSchedule = true → s.asyncBackend = true → ∀ j ∈ s.waiters.slots,
    ∃ t, Turns w s t ∧ Turns w t s' ∧ (t.conns j).beWait ≠ .waitingPool

/-- The first part of `close_conn`: the connection waits no longer and gives up its backend. -/
structure Abandoned (w : Pqwire) (i : Slot) (s s' : Server) : Prop extends Frame w i s s' where
  sq : s'.sq = s.sq
  busy : Busies i s s'
  ring : i ∉ s'.waiters.slots
  conn : s'.conns i = { (s.conns i).note .closed with be := none }

/-- The second part of `close_conn`: the slot becomes free. -/
structure Closed (w : Pqwire) (i : Slot) (s s' : Server) : Prop extends Frame w i s s' where
  sq : s'.sq = s.sq
  pool : s'.pool = s.pool
  waiters_eq : s'.waiters = s.waiters
  ring : i ∉ s.waiters.slots
  be : (s.conns i).be = none
  closed : .closed ∈ (s.conns i).log
  conn : s'.conns i = (s.conns i).close

/-- `close_conn`: the backend is given up, others are granted one, and the slot becomes free. -/
inductive Ended (w : Pqwire) (i : Slot) (s s' : Server) : Prop where
  | intro {t u : Server} (live : (s.conns i).state ≠ .free) (abandon : Abandoned w i s t)
      (path : Turns w t u) (woken : (s.conns i).be ≠ none → Woken w t u) (close : Closed w i u s')

/-- What the server does to one connection: a turn, or its end. -/
inductive Turn (w : Pqwire) (i : Slot) (s s' : Server) : Prop where
  | act (hturn : ActTurn w i s s')
  | ended (hend : Ended w i s s')

/-- Turns and ends of any connections. -/
def Moves (w : Pqwire) : Server → Server → Prop :=
  Relation.ReflTransGen fun s s' => ∃ i, Turn w i s s'

/-- A pipeline is over, or goes on with a request to its backend. -/
structure Conn.GoesOn (c : Conn) : Prop where
  ended : c.be = none → c.beWait = .idle
  requested : c.be ≠ none → c.beSendPending = true ∨ c.beRecvPending = true ∨ .noSqe ∈ c.log

/-- How the dispatch of the completion of a request begins. -/
inductive Opens (w : Pqwire) (r : Request) (s : Server) : Server → Prop where
  | skip (hskip : r.op = .accept ∨ (s.conns r.slot).state = .free ∨
      ((r.op = .beSend ∨ r.op = .beRecv) ∧ (s.conns r.slot).be = none)) : Opens w r s s
  | accept {i : Slot} {t : Server} (hop : r.op = .accept) (haccept : Accepted w i s t) : Opens w r s t
  | recv (hop : r.op = .recv) (hlive : (s.conns r.slot).state ≠ .free) :
      Opens w r s (s.updConn r.slot fun c => { c with recvPending := false })
  | send (n : Nat) (hop : r.op = .send) (hlive : (s.conns r.slot).state ≠ .free) :
      Opens w r s ((s.updConn r.slot fun c => { c with sendPending := false }).onCell r.slot fun c =>
        (advanceSend n c, true)).1
  | sendCut {t : Server} (hop : r.op = .send) (hlive : (s.conns r.slot).state ≠ .free)
      (hend : Ended w r.slot (s.updConn r.slot fun c => { c with sendPending := false }) t) :
      Opens w r s t
  | poll (hop : r.op = .poll) (hlive : (s.conns r.slot).state ≠ .free) :
      Opens w r s (s.updConn r.slot fun c => { c with pollPending := false })
  | land {t u : Server} (hop : r.op = .beSend ∨ r.op = .beRecv)
      (hland : LandTurn w r.op r.slot s t) (hgo : (t.conns r.slot).GoesOn)
      (hpath : Turns w t u)
      (hwoken : (t.conns r.slot).be = none → Woken w t u ∨ Overflowed (t.conns r.slot).log) :
      Opens w r s u
  | landCut {t u : Server} (hop : r.op = .beSend ∨ r.op = .beRecv)
      (hland : LandTurn w r.op r.slot s t) (hend : Ended w r.slot t u)
      (hover : (t.conns r.slot).be = none → Overflowed (t.conns r.slot).log) : Opens w r s u
