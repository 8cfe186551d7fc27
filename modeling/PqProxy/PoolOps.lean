import PqProxy.PoolSteps
import PqProxy.Runs

/-! The public operations of the pool as steps of one history, and what the calls that run or start
a pipeline leave alone of the session of a connection. -/

/-- A call of the interface of the pool. -/
inductive PoolOp where
  | checkout (group : Text)
  | checkin (b : Nat)
  | markDead (b : Nat)
  | reconnect (b : Nat)
  | maintain
  | healthCheck (b : Nat)
  | asyncBegin (cache : StmtCache) (bind : PqBind) (id : Identity)
  | asyncFinish (b : Nat) (failed : Bool)

/-- The group a call checks a connection out for. -/
def PoolOp.group : PoolOp → Option Text
  | .checkout group => some group
  | .asyncBegin _ _ id => some id.group
  | _ => none

section

variable (w : Pqwire) (env : Env)

/-- The pool after a call, and the connection that the call hands out. -/
def runOp (p : Pool) : PoolOp → Pool × Option Nat
  | .checkout group => checkout w env p group
  | .checkin b => (checkin p b, none)
  | .markDead b => (markDead p b, none)
  | .reconnect b => ((reconnect env p b).1, none)
  | .maintain => (poolMaintain env p, none)
  | .healthCheck b => ((healthCheck w env p b).1, none)
  | .asyncBegin cache bind id => asyncBegin w env p cache bind id
  | .asyncFinish b failed => (asyncFinish env p b failed, none)

/-! ### Lazy logins -/

/-- The slot of a lazy login: the first dead one. -/
def lazySlot (order : List Nat) (p : Pool) : Option Nat := order.find? fun idx => !(p.conns idx).alive

/-- The pool in which a checkout comes to its lazy login, and the slot it takes: none when it finds
a connection before or makes no such login. -/
def lazyLogin (p : Pool) (group : Text) : Option (Pool × Nat) :=
  if p.maxConns = 0 then none
  else
    let p := poolMaintain env p
    let order := searchOrder p
    match checkoutScan w env group order none p with
    | (_, some _, _) => none
    | (p, none, _) =>
        if p.useGroupAsUser = true ∧ group ≠ [] then
          match checkoutGroup w env group order p with
          | (_, some _) => none
          | (p, none) =>
              if p.lazyConnect then (lazySlot order p).map fun idx => (p, idx) else none
        else none

/-! ### Sessions -/

/-- A pipeline can end with the connection dead, never with another session. -/
theorem flushConn_session (now cap : Nat) (skip : Bool) (c : BackendConn) :
    (flushConn w env now cap skip c).1.loginUser = c.loginUser ∧
      (flushConn w env now cap skip c).1.role = c.role ∧
      (flushConn w env now cap skip c).1.busy = c.busy ∧
      ((flushConn w env now cap skip c).1.alive = true → c.alive = true) := by
  unfold flushConn
  split
  · rename_i halive _
    split
    · exact ⟨rfl, rfl, rfl, nofun⟩
    · unfold flushEnd
      dsimp only
      split
      · exact ⟨rfl, rfl, rfl, nofun⟩
      · exact ⟨rfl, rfl, rfl, id⟩
      · exact ⟨rfl, rfl, rfl, id⟩
  · exact ⟨rfl, rfl, rfl, id⟩

/-- So can a health check. -/
theorem healthCheck_session (p : Pool) (b : Nat) :
    ((healthCheck w env p b).1.conns b).loginUser = (p.conns b).loginUser ∧
      ((healthCheck w env p b).1.conns b).role = (p.conns b).role ∧
      ((healthCheck w env p b).1.conns b).busy = (p.conns b).busy ∧
      (((healthCheck w env p b).1.conns b).alive = true → (p.conns b).alive = true) := by
  unfold healthCheck
  dsimp only
  split
  · exact ⟨rfl, rfl, rfl, id⟩
  · split
    · rw [Pool.setConn_self]
      exact ⟨rfl, rfl, rfl, nofun⟩
    · rename_i out _
      have hflush := flushConn_session w env p.clock 2048 false { p.conns b with wire := some out }
      have hconn := flushPipelineEx_conn w env (p.setConn b { p.conns b with wire := some out }) b
        2048 false
      rw [Pool.setConn_self] at hconn
      split
      · rw [Pool.setConn_self, hconn]
        exact hflush
      · rw [Pool.setConn_self, hconn]
        exact ⟨hflush.1, hflush.2.1, hflush.2.2.1, nofun⟩

/-- What starting a pipeline does beyond the checkout: it fills the buffers of the connection, and
gives it back when that fails. -/
theorem asyncBegin_cases (p : Pool) (cache : StmtCache) (bind : PqBind) (id : Identity) :
    asyncBegin w env p cache bind id = ((checkout w env p id.group).1, none) ∨
      ∃ (b : Nat) (c : BackendConn), (checkout w env p id.group).2 = some b ∧
        (∃ wire sendBuf sendLen, c = { (checkout w env p id.group).1.conns b with
          wire := wire, sendBuf := sendBuf, sendLen := sendLen, sendOff := 0, recvAccLen := 0,
          skipParseBind := true, pipeSt := .init }) ∧
        (asyncBegin w env p cache bind id =
            (checkin ((checkout w env p id.group).1.setConn b c) b, none) ∨
          asyncBegin w env p cache bind id =
            (((checkout w env p id.group).1.setConn b c).wrote [c.sendBuf.read 0 c.sendLen],
              some b)) := by
  unfold asyncBegin
  generalize checkout w env p id.group = r
  obtain ⟨q, _ | b⟩ := r
  · exact Or.inl rfl
  · refine Or.inr ?_
    dsimp only
    generalize bindPipeline w cache bind id = r
    obtain ⟨out, _ | _⟩ := r
    · exact ⟨b, _, rfl, ⟨_, _, _, rfl⟩, Or.inl rfl⟩
    · dsimp only
      obtain ⟨wire, sendBuf, sendLen, hfill⟩ := fillSend_conn (out.length + 1) out
        { q.conns b with
          wire := some [], sendLen := 0, sendOff := 0, recvAccLen := 0, skipParseBind := true,
          pipeSt := .init }
      refine ⟨b, _, rfl, ⟨wire, sendBuf, sendLen, hfill⟩, ?_⟩
      split
      · exact Or.inl rfl
      · exact Or.inr rfl

end
