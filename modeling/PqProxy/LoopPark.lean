import PqProxy.LoopEntries

/-! When a frontend waits for the pool. A Bind that no backend could run is parked like one that finds
the pool busy; as long as none is taken up, connections only wait when there is no idle backend for
them. -/

/-- The next thing that happens, after tries to check a backend out, is an error. -/
def Reported (log : List Obs) : Prop :=
  ∃ tries severity code message rest,
    log = tries ++ .replied (.errorResponse severity code message) :: rest ∧
      ∀ o ∈ tries, ∃ ready id, o = .checkout ready id

/-- Connections wait only while no idle backend is there for them, and a Bind that could not be run by
any is reported. -/
structure ParksForPool (log : List Obs) : Prop where
  exhausted : ∀ free, .parked free ∈ log → free = false
  reported : ∀ before held after, log = before ++ .binding held false :: after → Reported after

/-- A Bind that no backend could run is taken up, or a request to a backend could not be made. -/
def Obs.hopeless : Obs → Bool
  | .binding _ startable => !startable
  | .noSqe | .crossed => true
  | _ => false

section

variable {w : Pqwire} {env : Env} {cfg : Config}

/-- Connections that wait found no idle backend. -/
def Conn.Exhausted (c : Conn) : Prop := ∀ free, .parked free ∈ c.log → free = false

theorem Conn.Exhausted.goesOn {S : Obs → Prop} {c c' : Conn} (h : c.Exhausted)
    (henters : Enters S c c') (hS : ∀ free, S (.parked free) → free = false) : c'.Exhausted :=
  fun free hmem => (henters.mem hmem).elim (h free) (hS free)

/-- Nothing else is told by an entry about waiting. -/
theorem exhausted_of_tells {hasPool : Bool} {c c' : Conn} (hlog : ∀ o ∈ c'.log, ¬ o.hopeless = true)
    (free : Bool) (h : (Obs.parked free).Tells cfg hasPool c c') : free = false := by
  cases free with
  | false => rfl
  | true =>
      rcases h rfl with ⟨held, hmem⟩ | hmem | hmem
      · exact absurd rfl (hlog _ hmem)
      · exact absurd rfl (hlog _ hmem)
      · exact absurd rfl (hlog _ hmem)

theorem exhausted_stable (tls hasPool : Bool) : Conn.Stable w cfg tls hasPool
    (fun o => o.hopeless = true) (fun _ _ => True) Conn.Exhausted where
  fresh := fun gen free hmem => nomatch hmem
  admits := by
    intro s gen fd c _ _ hadmits free hmem
    cases hadmits <;> exact nomatch hmem
  act := fun ht ha hlog hc => hc.goesOn (ha.tells ht) (exhausted_of_tells hlog)
  land := fun {_ c c' _ _} _ _ hl hlog hc =>
    hc.goesOn (hl.tells cfg hasPool c.conn c'.conn) (exhausted_of_tells hlog)
  delivered := by
    intro r c _ _ hc
    cases r.op <;> exact hc
  abandon := by
    intro c _ hc
    have hnote : Enters (· = .closed) c (c.note .closed) := .note c rfl
    exact hc.goesOn (hnote.trans (.of_log rfl)) nofun
  close := by
    intro c _ _ _ hc
    have hclear : Enters (· = .discarded c.feQ.toList) c c.close :=
      ⟨[.discarded c.feQ.toList], rfl, by simp⟩
    exact hc.goesOn hclear nofun

/-- As long as every Bind that is taken up could be run, and requests to backends can be made, a
connection only waits while no idle backend is there for it. -/
theorem parks_for_pool {nonblock : Bool} {now : Nat} {inputs : List Input}
    (hrun : Runs.Along (step w env)
      (fun s input => (step w env s input).Lacks fun o => o.hopeless = true)
      (start env cfg nonblock now) inputs) (i : Slot) :
    ParksForPool ((Runs.run (step w env) (start env cfg nonblock now) inputs).conns i).log := by
  have hall : Runs.Along (step w env) (fun s input => Delivers (fun _ _ => True) s input ∧
      (step w env s input).Lacks fun o => o.hopeless = true) (start env cfg nonblock now) inputs :=
    hrun.mono fun s input h => ⟨delivers_any s input, h⟩
  refine ⟨(exhausted_stable (!cfg.plain) _).run hall i, fun before held after hlog => ?_⟩
  exact absurd rfl (Server.Lacks.run hall i (.binding held false)
    (hlog ▸ List.mem_append_right before List.mem_cons_self))

/-- Two clients share the only backend; the second one waits for it. -/
def busyInputs : List Input :=
  [accepts 0, accepts 1, receives 0 [.startup, .parse smallParse, .bind smallBind],
    receives 0 [.startup, .parse smallParse, .bind smallBind]]

theorem parks_for_pool_busy :
    ParksForPool ((smallRun busyInputs).conns ⟨1, by decide⟩).log ∧
      .parked false ∈ ((smallRun busyInputs).conns ⟨1, by decide⟩).log := by
  have hrun : Runs.Along (step pgWire smallEnv)
      (fun s input => (step pgWire smallEnv s input).Lacks fun o => o.hopeless = true)
      (start smallEnv smallConfig true 0) busyInputs := by decide +kernel
  exact ⟨parks_for_pool hrun ⟨1, by decide⟩, by decide +kernel⟩

/-- A Bind of a statement that was never parsed waits beside an idle backend. -/
theorem not_parks_for_pool :
    ¬ ParksForPool ((smallRun [accepts 0, receives 0 [.startup, .bind smallBind]]).conns
      ⟨0, by decide⟩).log := by
  intro h
  have hparked : .parked true ∈ ((smallRun [accepts 0, receives 0 [.startup, .bind smallBind]]).conns
      ⟨0, by decide⟩).log := by decide +kernel
  exact nomatch h.exhausted true hparked

end
