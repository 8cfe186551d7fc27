import PqProxy.LoopBooks

/-! The end of the program: `pqproxy_run` leaves its loop, closes the connections one after the other and
destroys the pool. A connection that is closed gives its backend back, and others may still be granted it. -/

section

variable (w : Pqwire) (env : Env)

/-- One turn of the loop that closes the connections. -/
def closeSlot (x : Server × Books) (i : Slot) : Server × Books :=
  let s := closeConn env (drainQueue w env) x.1 i
  (s, x.2.close x.1.conns s.conns)

/-- The loop that closes the connections. -/
def closeSlots (x : Server × Books) : Server × Books := (List.finRange maxConns).foldl (closeSlot w env) x

/-- `pqproxy_backend_pool_destroy`: the descriptors it closes, in order. -/
def poolDestroy (p : Pool) : List Nat := (List.range p.maxConns).filterMap fun b => (p.conns b).fd

/-- What `pqproxy_run` does after its loop: the server, its accounts, and the descriptors of backends that
were closed with the pool. -/
def shutdown (x : Server × Books) : Server × Books × List Nat :=
  let (s, books) := closeSlots w env x
  ({ s with pool := none }, books, (s.pool.map poolDestroy).getD [])

end

section

variable {w : Pqwire} {env : Env} {i : Slot} {x : Server × Books}

/-- A server whose accounts are in order. -/
def Orderly (x : Server × Books) : Prop := x.1.Good none ∧ x.2.Agrees x.1.conns

variable (w env) in
/-- Closing a slot frees it and keeps the others free that were, with the accounts in order. -/
theorem closeSlot_orderly (hx : Orderly x) (i : Slot) : Orderly (closeSlot w env x i) ∧
    ((closeSlot w env x i).1.conns i).state = .free ∧
    ∀ j, (x.1.conns j).state = .free → ((closeSlot w env x i).1.conns j).state = .free := by
  obtain ⟨hgood, hagrees⟩ := hx
  by_cases hfree : (x.1.conns i).state = .free
  · have hsame : closeConn env (drainQueue w env) x.1 i = x.1 := if_pos hfree
    unfold closeSlot
    rw [hsame]
    exact ⟨⟨hgood, hagrees.close fun _ => .of_same rfl⟩, hfree, fun _ hj => hj⟩
  · obtain ⟨hend, hgood'⟩ := closeConn_spec (w := w) env (hgood.exempt (some i)) hfree
    have hmoves : Moves w x.1 (closeConn env (drainQueue w env) x.1 i) := .single ⟨i, .ended hend⟩
    have hfate := hmoves.changes.fate
    have hclosed : ((closeConn env (drainQueue w env) x.1 i).conns i).state = .free := by
      obtain ⟨-, -, -, -, hclose⟩ := hend
      rw [hclose.conn]
      rfl
    refine ⟨⟨hgood', hagrees.close hfate⟩, hclosed, fun j hj => ?_⟩
    rcases hfate j with hkeeps | ⟨hlive, -⟩
    · exact hkeeps.free.mpr hj
    · exact absurd hj hlive

variable (w env) in
/-- Closing some slots frees these. -/
theorem closeSlots_from (slots : List Slot) (hx : Orderly x) :
    Orderly (slots.foldl (closeSlot w env) x) ∧
      ∀ j, j ∈ slots ∨ (x.1.conns j).state = .free →
        ((slots.foldl (closeSlot w env) x).1.conns j).state = .free := by
  induction slots generalizing x with
  | nil => exact ⟨hx, fun j hj => hj.resolve_left List.not_mem_nil⟩
  | cons i slots ih =>
      obtain ⟨hnext, hi, hothers⟩ := closeSlot_orderly w env hx i
      obtain ⟨hend, hfree⟩ := ih hnext
      rw [List.foldl_cons]
      refine ⟨hend, fun j hj => hfree j ?_⟩
      rcases hj with hj | hj
      · rcases List.mem_cons.mp hj with rfl | hj
        · exact Or.inr hi
        · exact Or.inl hj
      · exact Or.inr (hothers j hj)

/-- The descriptors of a pool are closed once each. -/
theorem poolDestroy_closes {p : Pool} (hp : p.Wf) :
    (poolDestroy p).Nodup ∧ ∀ fd, fd ∈ poolDestroy p ↔ ∃ b, (p.conns b).fd = some fd := by
  constructor
  · refine List.nodup_range.filterMap fun a b fd ha hb => ?_
    have ha' : (p.conns a).fd = some fd := ha
    have hb' : (p.conns b).fd = some fd := hb
    refine hp.distinct a b (ha'.trans hb'.symm) ?_
    rw [ha']
    exact Option.some_ne_none fd
  · intro fd
    rw [poolDestroy, List.mem_filterMap]
    constructor
    · rintro ⟨b, -, hb⟩
      exact ⟨b, hb⟩
    · rintro ⟨b, hb⟩
      refine ⟨b, List.mem_range.mpr (hp.inside b ?_), hb⟩
      rw [hb]
      exact Option.some_ne_none fd

/-- Nothing is left: every slot is free and holds no backend, everything that was acquired for a connection
was released exactly once, and so were the descriptors of the pool. -/
structure LeavesNothing (pool : Option Pool) (s : Server) (b : Books) (closed : List Nat) : Prop where
  free : ∀ i, (s.conns i).state = .free
  unheld : ∀ i, (s.conns i).be = none
  closes : b.closes = b.accepts
  released : ∀ r, b.released.count r = b.created.count r
  created : b.created.Nodup
  once : closed.Nodup
  all : ∀ p, pool = some p → ∀ fd, fd ∈ closed ↔ ∃ k, (p.conns k).fd = some fd

variable (w env) in
/-- All slots are freed. -/
theorem closeSlots_free (hx : Orderly x) :
    Orderly (closeSlots w env x) ∧ ∀ j, ((closeSlots w env x).1.conns j).state = .free := by
  unfold closeSlots
  obtain ⟨horderly, hfree⟩ := closeSlots_from w env (List.finRange maxConns) hx
  exact ⟨horderly, fun j => hfree j (Or.inl (List.mem_finRange j))⟩

theorem leavesNothing_of_free {s : Server} {b : Books} (h : Orderly (s, b))
    (hfree : ∀ i, (s.conns i).state = .free) :
    LeavesNothing s.pool { s with pool := none } b ((s.pool.map poolDestroy).getD []) := by
  obtain ⟨hgood, hagrees⟩ := h
  dsimp only at hgood hagrees
  have hunowned : ∀ r, ¬ ∃ j, Carries s.conns j r := fun r ⟨j, hj⟩ => hj.live (hfree j)
  refine ⟨hfree, fun j => ?_, ?_, fun r => ?_, hagrees.created, ?_, fun p hp fd => ?_⟩
  · exact (hgood.tidy j fun hopen => hopen.1 (hfree j)).2.2
  · have hnone : inUse s.conns = ∅ := Finset.filter_eq_empty_iff.mpr fun j _ hlive => hlive (hfree j)
    have hcount := hagrees.count
    rw [hnone] at hcount
    exact hcount.symm
  · by_cases hr : r ∈ b.created
    · have hgone : r ∈ b.released := (hagrees.settled r hr).mpr (hunowned r)
      calc b.released.count r
        _ = 1 := List.count_eq_one_of_mem hagrees.released hgone
        _ = b.created.count r := (List.count_eq_one_of_mem hagrees.created hr).symm
    · have hout : r ∉ b.released := fun hmem => hr (hagrees.sub r hmem)
      calc b.released.count r
        _ = 0 := List.count_eq_zero_of_not_mem hout
        _ = b.created.count r := (List.count_eq_zero_of_not_mem hr).symm
  · cases hp : s.pool with
    | none => exact List.nodup_nil
    | some p => exact (poolDestroy_closes (hgood.wf p hp)).1
  · rw [hp]
    exact (poolDestroy_closes (hgood.wf p hp)).2 fd

theorem Orderly.leavesNothing (hx : Orderly x) : LeavesNothing (closeSlots w env x).1.pool
    (shutdown w env x).1 (shutdown w env x).2.1 (shutdown w env x).2.2 := by
  obtain ⟨horderly, hfree⟩ := closeSlots_free w env hx
  unfold shutdown
  generalize closeSlots w env x = y at horderly hfree ⊢
  exact leavesNothing_of_free horderly hfree

/-- However a run went in which every `accept_one` got as far as the state of its slot: when it ends, nothing
is left. -/
theorem shutdown_leaves_nothing {cfg : Config} {nonblock : Bool} {now : Nat} {inputs : List Input}
    (hrun : Runs.Along (bookStep w env) (fun x input => Completes x.1 input)
      (start env cfg nonblock now, .empty) inputs) :
    let x := Runs.run (bookStep w env) (start env cfg nonblock now, .empty) inputs
    let y := shutdown w env x
    LeavesNothing (closeSlots w env x).1.pool y.1 y.2.1 y.2.2 := by
  obtain ⟨hready, hagrees⟩ := run_agrees hrun
  exact Orderly.leavesNothing ⟨hready.good, hagrees⟩

/-- The program ends while a client waits for its backend. -/
theorem shutdown_leaves_nothing_busy :
    let x := smallBooks [accepts 0, receives 0 [.startup, .parse smallParse, .bind smallBind]]
    (x.1.conns ⟨0, by decide⟩).be = some 0 ∧
      LeavesNothing (closeSlots pgWire smallEnv x).1.pool (shutdown pgWire smallEnv x).1
        (shutdown pgWire smallEnv x).2.1 (shutdown pgWire smallEnv x).2.2 :=
  ⟨by decide +kernel, shutdown_leaves_nothing (by decide +kernel)⟩

end
