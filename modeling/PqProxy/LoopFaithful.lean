import PqProxy.LoopRun

/-! What reaches a backend: on a server that refuses simple queries every call writes a whole pipeline,
whatever was left in the context of the backend before. -/

section

variable {w : Pqwire} {env : Env} {s t : Server}

/-- The configuration and the faithfulness are kept by everything the event loop does. -/
theorem faithful_stable (hw : w.ReplacesSlot) (cfg : Config) :
    Server.Stable w (fun _ => False) (fun _ _ => True) fun s => s.cfg = cfg ∧ s.Faithful w where
  maintained := by
    intro s t _ hmaint h
    have hlocal := hmaint.frame ⟨0, by decide⟩
    exact ⟨hlocal.cfg.trans h.1, hlocal.writes hw h.2⟩
  begins := by
    intro s r k t hs _ _ hbegins _ h
    have herase : ({ s with inflight := s.inflight.eraseIdx k } : Server).Good none :=
      hs.good.erase fun x hx => List.mem_of_mem_eraseIdx hx
    obtain ⟨i, hframe, -⟩ := hbegins.frame herase.toOwned
    exact ⟨hframe.cfg.trans h.1, hframe.writes hw h.2⟩
  change := fun _ hchange _ h =>
    ⟨hchange.frame.cfg.trans h.1, hchange.frame.writes hw h.2⟩
  submitted := by
    intro s t hsubmit h
    have hrest := hsubmit.rest
    simp only [Prod.mk.injEq] at hrest
    obtain ⟨hcfg, -, hpool, -, -, -, -, hwrites, -⟩ := hrest
    exact ⟨hcfg.trans h.1, h.2.congr hcfg hpool hwrites⟩

/-- Nothing was written when the pool was made. -/
theorem start_faithful (cfg : Config) (nonblock : Bool) (now : Nat) :
    (start env cfg nonblock now).Faithful w := by
  have hpool : (start env cfg nonblock now).pool = if nonblock then
      (if cfg.backendHost = [] then none else poolCreate env cfg.backend).map poolSetNonblock
      else if cfg.backendHost = [] then none else poolCreate env cfg.backend := rfl
  have hnew : ∀ p, (if cfg.backendHost = [] then none else poolCreate env cfg.backend) = some p →
      p.written = [] := by
    intro p hp
    split at hp
    · cases hp
    · exact (poolCreate_silent env hp).2 rfl
  refine fun _ _ => ⟨?_, fun x hx => nomatch hx⟩
  change (start env cfg nonblock now).written = []
  unfold Server.written
  rw [hpool]
  generalize (if cfg.backendHost = [] then none else poolCreate env cfg.backend) = p at hnew
  cases p with
  | none => cases nonblock <;> rfl
  | some p => cases nonblock <;> exact hnew p rfl

/-- What was handed to backends so far are whole pipelines: each an unnamed Parse of a statement that
the frontend had cached, a Bind of its parameters with one replaced by its identity, Execute and
Sync. -/
theorem pipelines_whole (hw : w.ReplacesSlot) {cfg : Config} (hreject : cfg.rejectSimpleQuery = true)
    (nonblock : Bool) (now : Nat) (inputs : List Input) :
    let s := Runs.run (step w env) (start env cfg nonblock now) inputs
    s.written = s.writes.map Written.data ∧ ∀ x ∈ s.writes, x.Whole w := by
  have hready := run_ready (w := w) env cfg nonblock now inputs
  have hstart : (start env cfg nonblock now).cfg = cfg ∧ (start env cfg nonblock now).Faithful w :=
    ⟨rfl, start_faithful cfg nonblock now⟩
  obtain ⟨hcfg, hfaithful⟩ := (faithful_stable hw cfg).run hstart (Server.Stable.along_any _ inputs)
  exact hfaithful (by rw [hcfg]; exact hreject) hready.good.unprobed

/-- A client runs its Bind on the only backend. -/
theorem pipelines_whole_bind :
    let s := smallRun [accepts 0, receives 0 [.startup, .parse smallParse, .bind smallBind]]
    (s.written = s.writes.map Written.data ∧ ∀ x ∈ s.writes, x.Whole pgWire) ∧ s.writes.length = 1 :=
  ⟨pipelines_whole WirePg.replacesSlot rfl true 0 _, by decide +kernel⟩

end
