import PqProxy.LoopWalk

/-! Running a Bind: a pipeline is started for it, it parks, or it is run by blocking calls. Each of
these is one turn of its connection, also when the pipeline is lost right away. -/

section

variable {w : Pqwire} (env : Env) {i : Slot} {s t u : Server}

/-- Only the backend that the connection holds matters. -/
theorem submitBeSend_congr {f g : Nat → BackendConn} {c : Cell} {b : Nat} (hbe : c.conn.be = some b)
    (h : f b = g b) : submitBeSend f c = submitBeSend g c := by
  have hrecv : ∀ c : Cell, c.conn.be = some b → submitBeRecv f c = submitBeRecv g c := by
    intro c hbe
    unfold submitBeRecv
    rw [hbe]
    dsimp only
    rw [h]
  unfold submitBeSend
  rw [hbe]
  dsimp only
  rw [h]
  split
  · rfl
  · split
    · exact hrecv _ hbe
    · rfl

/-- A write to the backend is pending. -/
def Conn.writing (c : Conn) : Conn := { c with beSendPending := true, beWait := .sending }

/-- While there are bytes to send, a write is prepared unless one is pending. -/
theorem submitBeSend_eq {f : Nat → BackendConn} {c : Cell} {b off len : Nat}
    (hbe : c.conn.be = some b) (hptr : asyncSendPtr (f b) = some (off, len)) :
    submitBeSend f c =
      if c.conn.beSendPending then (c.note .crossed, true)
      else
        c.prep { c.request .beSend with
          fd := (f b).fd, backend := some b, off := off, len := len,
          session := (f b).session }
          Conn.writing := by
  unfold submitBeSend
  rw [hbe]
  dsimp only
  rw [hptr]
  rfl

section

variable (c : Conn) (b : Nat)

@[simp] theorem begun_be : (c.begun b).be = some b := by rw [begun_eq]

@[simp] theorem begun_beWait : (c.begun b).beWait = c.beWait := by rw [begun_eq]

@[simp] theorem begun_drainingQueue : (c.begun b).drainingQueue = c.drainingQueue := by
  rw [begun_eq]

theorem begun_beSendPending : (c.begun b).beSendPending = c.beSendPending := by rw [begun_eq]

end

theorem startOn_cases (c : Cell) (b : Nat) {h : BackendConn} (hbegun : h.Begun) :
    (c.conn.beSendPending = true ∧
        c.startOn b h = (({ c with conn := c.conn.begun b } : Cell).note .crossed, true)) ∨
      (c.conn.beSendPending = false ∧ ∃ r, r.op = .beSend ∧ c.startOn b h =
        (⟨(c.conn.begun b).writing, c.slot, c.sq ++ [r]⟩, true)) ∨
      (c.conn.beSendPending = false ∧
        c.startOn b h = (({ c with conn := c.conn.begun b } : Cell).note .noSqe, false)) := by
  have hptr : asyncSendPtr h = some (h.sendOff, h.sendLen - h.sendOff) := by
    unfold asyncSendPtr
    have := hbegun.sendLen
    rw [if_neg (by rw [hbegun.sendOff]; omega)]
  have hstart := startOn_eq c b h
  have hbe := begun_be c.conn b
  have hsame := begun_beSendPending c.conn b
  generalize c.conn.begun b = d at hstart hbe hsame ⊢
  rw [submitBeSend_eq (f := fun _ => h) (c := { c with conn := d }) hbe hptr] at hstart
  dsimp only at hstart
  rw [hsame] at hstart
  cases hpending : c.conn.beSendPending with
  | true =>
      rw [hpending, if_pos rfl] at hstart
      exact Or.inl ⟨rfl, hstart⟩
  | false =>
      rw [hpending, if_neg nofun] at hstart
      obtain ⟨r, hop, hprep⟩ : ∃ r : Request, r.op = .beSend ∧ c.startOn b h =
          ({ c with conn := d } : Cell).prep r Conn.writing := ⟨_, rfl, hstart⟩
      rw [hprep]
      rcases prep_cases ({ c with conn := d } : Cell) r Conn.writing with h' | h'
      · exact Or.inr (Or.inl ⟨rfl, r, hop, h'⟩)
      · exact Or.inr (Or.inr ⟨rfl, h'⟩)

/-- How the connection stands once a pipeline is on its backend. -/
theorem startOn_facts (c : Cell) (b : Nat) {h : BackendConn} (hbegun : h.Begun) :
    (c.startOn b h).1.slot = c.slot ∧ (c.startOn b h).1.conn.be = some b ∧
      (c.startOn b h).1.conn.drainingQueue = c.conn.drainingQueue ∧
      ((c.startOn b h).2 = true → (c.startOn b h).1.conn.beWait = .sending ∨
        (c.startOn b h).1.conn.beWait = c.conn.beWait ∧ .crossed ∈ (c.startOn b h).1.conn.log) ∧
      ((c.startOn b h).2 = false → (c.startOn b h).1.conn.beWait = c.conn.beWait ∧
        .noSqe ∈ (c.startOn b h).1.conn.log) := by
  have hcases := startOn_cases c b hbegun
  have hbe := begun_be c.conn b
  have hwait := begun_beWait c.conn b
  have hdrain := begun_drainingQueue c.conn b
  generalize c.conn.begun b = d at hcases hbe hwait hdrain
  have hnote : ∀ o, o ∈ (d.note o).log := fun o => List.mem_append_right _ List.mem_cons_self
  rcases hcases with ⟨-, h⟩ | ⟨-, r, -, h⟩ | ⟨-, h⟩
  · rw [h]
    exact ⟨rfl, hbe, hdrain, fun _ => Or.inr ⟨hwait, hnote _⟩, nofun⟩
  · rw [h]
    exact ⟨rfl, hbe, hdrain, fun _ => Or.inl rfl, nofun⟩
  · rw [h]
    exact ⟨rfl, hbe, hdrain, nofun, fun _ => ⟨hwait, hnote _⟩⟩

theorem reply_conn (c : Conn) (r : Reply) :
    (reply w c r).1 = { c with frontend := (reply w c r).1.frontend, log := (reply w c r).1.log } := by
  rcases reply_cases w c r with ⟨-, h⟩ | ⟨-, h⟩
  · rw [h]
    rfl
  · rw [h]

/-- The report of a failure leaves the connection without a backend. -/
theorem reportLost_facts (c : Cell) : (reportLost w c).1.slot = c.slot ∧
    (reportLost w c).1.conn.be = none ∧ (reportLost w c).1.conn.beWait = c.conn.beWait ∧
      (reportLost w c).1.conn.drainingQueue = c.conn.drainingQueue ∧
      (reportLost w c).1.conn.feQ = c.conn.feQ ∧
      ((reportLost w c).2 = false → Overflowed (reportLost w c).1.conn.log) := by
  have hslot := (ext_reportLost (w := w) c).slot
  revert hslot
  unfold reportLost replyBoth
  dsimp only
  generalize hconn : ({ (c.conn.note .lost).emptyResp with be := none } : Conn) = d
  have hd : d.be = none ∧ d.beWait = c.conn.beWait ∧ d.drainingQueue = c.conn.drainingQueue ∧
      d.feQ = c.conn.feQ := by
    rw [← hconn]
    exact ⟨rfl, rfl, rfl, rfl⟩
  have hfirst := reply_conn (w := w) d pipelineError
  generalize (reply w d pipelineError).1 = e at hfirst ⊢
  have hsecond := reply_conn (w := w) e .readyForQuery
  generalize (reply w e .readyForQuery).1 = f at hsecond ⊢
  have hf : f.be = none ∧ f.beWait = c.conn.beWait ∧ f.drainingQueue = c.conn.drainingQueue ∧
      f.feQ = c.conn.feQ := by
    rw [hsecond, hfirst]
    exact hd
  obtain ⟨hio, hover, -⟩ := drainFrontendOut_io { c with conn := f }
  intro hslot
  refine ⟨hslot, ?_⟩
  rw [hio.conn]
  exact ⟨hf.1, hf.2.1, hf.2.2.1, hf.2.2.2, hover⟩

@[simp] theorem conns_finishBackend (s : Server) (i : Slot) (failed : Bool) :
    (finishBackend env s i failed).conns = s.conns := by
  unfold finishBackend
  split <;> rfl

theorem cell_finishBackend (s : Server) (i : Slot) (failed : Bool) :
    (finishBackend env s i failed).cell i = s.cell i ∧
      (finishBackend env s i failed).waiters = s.waiters := by
  unfold finishBackend
  split
  · exact ⟨rfl, rfl⟩
  · exact ⟨rfl, rfl⟩

theorem held_none (h : (s.conns i).be = none) : s.held i = noBackend := by
  unfold Server.held
  rw [h]

/-! ### Taking up a Bind -/

/-- The connection takes up a Bind. -/
structure Took (w : Pqwire) (i : Slot) (src : BindSource) (s t : Server) : Prop where
  beside : Beside i s t
  arrives : BindArrives w (s.cell i) src (t.cell i)
  idle : (s.conns i).beWait = .idle ∧ (t.conns i).beWait = .idle
  be : (t.conns i).be = (s.conns i).be
  ring : t.waiters = s.waiters
  draining : (t.conns i).drainingQueue = (s.conns i).drainingQueue

/-- Nothing came of a Bind so far that was taken up as `c`. -/
structure Pending (w : Pqwire) (i : Slot) (src : BindSource) (c : Cell) (s t : Server) : Prop extends
    Local w i s t where
  arrives : BindArrives w (s.cell i) src c
  tried : Tried c (t.cell i)
  backend : t.held i = s.held i
  be : (t.conns i).be = (s.conns i).be
  ring : t.waiters = s.waiters
  draining : (t.conns i).drainingQueue = (s.conns i).drainingQueue
  wait : (t.conns i).beWait = (s.conns i).beWait

/-- No pipeline could be started for the Bind. -/
structure Refused (w : Pqwire) (i : Slot) (src : BindSource) (c : Cell) (s t : Server) : Prop extends
    Pending w i src c s t where
  free : t.idleFor i = true →
    startable w c.conn.cache (src.bind w) c.conn.id = false ∨ .noSqe ∈ (t.conns i).log

theorem Tried.refl (c : Cell) : Tried c c := ⟨[], by simp [Cell.upd], by simp⟩

theorem Local.refl (hown : Owned s) : Local w i s s := (Beside.refl s).local hown rfl

/-- A pipeline was lost at once, and so was the answer to it: the Bind is taken up once more. -/
theorem Refused.again {src : BindSource} (hown : Owned s) (hopen : (s.conns i).Open)
    (hsqe : .noSqe ∈ (s.conns i).log) (hlogged : src.Logged (s.conns i).log) :
    Refused w i src (s.cell i) s s :=
  { Local.refl hown with
    arrives := .again hopen hsqe hlogged, tried := .refl _, backend := rfl, be := rfl, ring := rfl,
    draining := rfl, wait := rfl, free := fun _ => Or.inr hsqe }

theorem BindSource.Logged.mono {src : BindSource} {l m : List Obs} (h : src.Logged l)
    (hsub : ∀ o ∈ l, o ∈ m) : src.Logged m := by
  cases src with
  | event bind => exact h.imp fun _ => hsub _
  | queue it => exact hsub _ h

/-- Whether an idle backend is there for a group. -/
theorem offers_of_idleFor {p : Pool} {group : Text} (h : p.idleFor group = true) :
    ∃ b, p.Offers group b := by
  unfold Pool.idleFor at h
  obtain ⟨b, -, hb⟩ := List.any_eq_true.mp h
  simp only [Bool.and_eq_true, Bool.not_eq_eq_eq_not, Bool.not_true, Bool.or_eq_true,
    beq_iff_eq] at hb
  refine ⟨b, hb.1.1, hb.1.2, fun huse => ?_⟩
  rcases hb.2 with h | h
  · rw [huse] at h
    cases h
  · exact h

/-- The pipeline of a Bind that was taken up is whole. -/
theorem written_whole (hw : w.ReplacesSlot) {src : BindSource} {c : Conn} {bind : PqBind}
    (hlogged : src.Logged c.log)
    (hbind : bind = src.bind w ∨ ∃ it, src = .queue it ∧ bind = { it.toBind w with portal := [] })
    (hok : (bindPipeline w c.cache bind c.id).2 = true) :
    Written.Whole w ⟨c, (bindPipeline w c.cache bind c.id).1⟩ := by
  obtain ⟨prep, slot, hget, hlt, hout⟩ := bindPipeline_whole hw hok
  refine ⟨bind, prep, slot, ?_, hget, hlt, hout⟩
  cases src with
  | event bind' =>
      rcases hbind with rfl | ⟨it, h, -⟩
      · exact Or.inl hlogged
      · cases h
  | queue it =>
      rcases hbind with rfl | ⟨it', h, rfl⟩
      · exact Or.inr ⟨it, hlogged, Or.inl rfl⟩
      · cases h
        exact Or.inr ⟨it, hlogged, Or.inr rfl⟩

theorem asyncBegin_whole {p : Pool} {src : BindSource} (hlogged : src.Logged (s.conns i).log) :
    WritesWhole w s i p (asyncBegin w env p (s.conns i).cache (src.bind w) (s.conns i).id).1 := by
  intro hw _ hoff
  rcases (asyncBegin_call w env p (s.conns i).cache (src.bind w) (s.conns i).id).2 hoff with h | h
  · exact Or.inl h
  · exact Or.inr ⟨_, h.2, written_whole hw hlogged (Or.inl rfl) h.1⟩

theorem Took.open {src : BindSource} (h : Took w i src s t) (hs : s.Sound) : (t.conns i).Open :=
  h.arrives.ext.keeps.open (h.arrives.open (hs.tidy i))

theorem Took.sound {src : BindSource} (h : Took w i src s t) (hs : s.Sound) : t.Sound :=
  hs.frame (h.beside.local (w := w) hs.toOwned h.be).toFrame fun hnot => absurd (h.open hs) hnot

/-- Nothing was begun for a Bind that was just taken up. -/
theorem Took.pending {src : BindSource} (htook : Took w i src s t) (hown : Owned s)
    (hlocal : Local w i t u) (htried : Tried (t.cell i) (u.cell i))
    (hheld : u.held i = t.held i) (hring : u.waiters = t.waiters) : Pending w i src (t.cell i) s u := by
  obtain ⟨l, heq, hl⟩ := htried
  have hconn : u.conns i = { t.conns i with log := (t.conns i).log ++ l } := congrArg Cell.conn heq
  exact { (htook.beside.local hown htook.be).trans hlocal with
    arrives := htook.arrives
    tried := ⟨l, heq, hl⟩
    backend := hheld.trans (htook.beside.held htook.be)
    be := by rw [hconn]; exact htook.be
    ring := hring.trans htook.ring
    draining := by rw [hconn]; exact htook.draining
    wait := by rw [hconn]; exact htook.idle.2.trans htook.idle.1.symm }

/-- Nothing was tried for it. -/
theorem Took.untried {src : BindSource} (htook : Took w i src s t) (hs : s.Sound) :
    Pending w i src (t.cell i) s t :=
  htook.pending hs.toOwned (.refl (htook.sound hs).toOwned) (.refl _) rfl rfl

theorem begun_frame {src : BindSource} (htook : Took w i src s t) (hown : Owned s) {p p' : Pool}
    {b : Nat} (hpool : t.pool = some p) (hcall : Call p p' (some b))
    (hheld : (p'.conns b).Held ∧ ¬ (p.conns b).Held)
    (hwrites : WritesWhole w (t.updConn i Conn.checkingOut) i p p')
    (hu : Beside i ((t.updConn i Conn.checkingOut).afterCall i p') u)
    (hbe : (u.conns i).be = some b) :
    Frame w i s u ∧ ((s.conns i).be = none → Busies i s u) ∧ u.held i = p'.conns b := by
  have hcheck : Beside i s (t.updConn i Conn.checkingOut) := htook.beside.trans (.updConn t _)
  have hsame : ((t.updConn i Conn.checkingOut).conns i).be = (s.conns i).be := by
    rw [conns_updConn]
    exact htook.be
  have hlocal := hcheck.local (w := w) hown hsame
  obtain ⟨hframe, hbusy⟩ := frame_begin (w := w) (s := t.updConn i Conn.checkingOut) hpool hcall
    hheld hwrites hu hbe
  refine ⟨hlocal.toFrame.trans hframe, fun hnone => hlocal.busy.trans (hbusy (hsame.trans hnone)), ?_⟩
  unfold Server.held
  rw [hbe]
  exact hu.backends b

/-- How `startPipeline` ends. -/
structure Started (w : Pqwire) (i : Slot) (src : BindSource) (s t : Server) (r : Server × Bool) :
    Prop where
  done : r.2 = true → Kept w (some i) s r.1 ∧ (r.1.conns i).Rested ∧
    ((s.conns i).drainingQueue = true → (r.1.conns i).beWait ≠ .waitingPool)
  refused : r.2 = false → ∃ v c, Kept w (some i) s v ∧ Refused w i src c v r.1 ∧
    ((s.conns i).drainingQueue = true → (v.conns i).beWait = .idle) ∧
    (c.conn.feQ = (t.conns i).feQ ∨ .noSqe ∈ (v.conns i).log)

theorem Refused.started {src : BindSource} (h : Refused w i src (t.cell i) s u)
    (hidle : (s.conns i).beWait = .idle) : Started w i src s t (u, false) :=
  ⟨nofun, fun _ => ⟨s, t.cell i, .refl s, h, fun _ => hidle, Or.inl rfl⟩⟩

section

variable {n : Nat} {drain : Server → Slot → Server × Bool}

/-- The first write could not be prepared, and the pipeline fails. -/
theorem lost_started (hd : DrainSpec w n drain) (hs : s.Sound) (hcalm : s.Calm)
    (hcount : maxConns < n + drainingCount s) {src : BindSource} (htook : Took w i src s t)
    (hready : (t.conns i).identityReady = true) {b : Nat} (hframe : Frame w i s u)
    (hring : u.waiters = s.waiters)
    (hstart : (t.cell i).startOn b (u.held i) = (u.cell i, false))
    (hbegun : (u.held i).Begun) :
    Started w i src s t (backendAsyncFail w env drain u i) := by
  obtain ⟨-, -, hdrainU, -, hlost⟩ := startOn_facts (t.cell i) b hbegun
  have hgrows := (grows_startOn (w := w) (t.cell i) b (u.held i))
  rw [hstart] at hdrainU hlost hgrows
  obtain ⟨hwaitU, hsqeU⟩ := hlost rfl
  have hloggedU : src.Logged (u.conns i).log := htook.arrives.logged.mono fun o ho => hgrows.log_mem ho
  have hu : u.Sound := hs.frame hframe fun hnot => absurd (hgrows.keeps.open (htook.open hs)) hnot
  obtain ⟨hslotX, hbeX, hwaitX, hdrainX, -⟩ := reportLost_facts (w := w) (u.cell i)
  have hextX := ext_reportLost (w := w) (u.cell i)
  have hlive : (s.conns i).state ≠ .free := (htook.arrives.open (hs.tidy i)).1
  obtain ⟨hsame, hringX⟩ := cell_finishBackend env u i true
  unfold backendAsyncFail
  have hcellX : ((finishBackend env u i true).onCell i (reportLost w)).1.cell i =
      (reportLost w (u.cell i)).1 := by
    rw [cell_onCell (by rw [hsame]; exact hslotX), hsame]
  have hokX : ((finishBackend env u i true).onCell i (reportLost w)).2 =
      (reportLost w (u.cell i)).2 := by
    rw [← hsame]
    rfl
  have hbesideX := Beside.onCell (i := i) (finishBackend env u i true) (reportLost w)
  have hringX' : ((finishBackend env u i true).onCell i (reportLost w)).1.waiters = u.waiters := hringX
  generalize (finishBackend env u i true).onCell i (reportLost w) = q at hcellX hokX hbesideX hringX' ⊢
  obtain ⟨x, ok⟩ := q
  dsimp only at hcellX hokX hbesideX hringX'
  have hsend : reportLost w (u.cell i) = (x.cell i, ok) := Prod.ext hcellX.symm hokX.symm
  rw [hsend] at hbeX hwaitX hdrainX hextX
  have hlocalX : Local w i u x := local_finish env hu true hbesideX hbeX
  have hidleX : (x.conns i).beWait = .idle := (hwaitX.trans hwaitU).trans htook.idle.2
  have hsqeX : .noSqe ∈ (x.conns i).log := hextX.log_mem hsqeU
  have hdrainXs : (x.conns i).drainingQueue = (s.conns i).drainingQueue :=
    (hdrainX.trans hdrainU).trans htook.draining
  have hloggedX : src.Logged (x.conns i).log := hloggedU.mono fun o ho => hextX.log_mem ho
  have hframeX := hframe.trans hlocalX.toFrame
  have hopenX : (x.conns i).Open := hextX.keeps.open (hgrows.keeps.open (htook.open hs))
  cases ok with
  | false =>
      have hturn : ActTurn w i s x :=
        { hframeX with
          act := by
            rw [held_none hbeX]
            exact .lostCut htook.arrives hready hstart hsend
          busy := fun hno => absurd hsqeX hno
          sq_free := fun hfree => absurd hfree hlive
          queue := Or.inl (by rw [hringX', hring])
          ring := fun _ h => by cases hidleX.symm.trans h
          ringed := fun hin hmem => by
            cases htook.idle.1.symm.trans (hin (hring ▸ hringX' ▸ hmem))
          parked := fun _ h => nomatch hidleX.symm.trans h }
      have hx := hs.act hturn
      exact ⟨nofun, fun _ => ⟨x, x.cell i, .of_turn hturn hdrainXs,
        .again hx.toOwned hopenX hsqeX hloggedX, fun _ => hidleX, Or.inr hsqeX⟩⟩
  | true =>
      have hconnY : (x.updConn i Conn.release).conns i = (x.conns i).release := conns_updConn ..
      have hbesideY : Beside i x (x.updConn i Conn.release) := .updConn x _
      have hx : x.Sound := hu.frame hlocalX.toFrame fun hnot => absurd hopenX hnot
      have hlocalY := hbesideY.local (w := w) hx.toOwned (by rw [hconnY]; rfl)
      have hringY : (x.updConn i Conn.release).waiters = x.waiters := rfl
      have hcellY : (x.updConn i Conn.release).cell i = (x.cell i).upd Conn.release := cell_updConn ..
      dsimp only
      generalize hy : x.updConn i Conn.release = y at hconnY hlocalY hringY hcellY
      have hbeY : (y.conns i).be = none := by
        rw [hconnY]
        exact hbeX
      have hidleY : (y.conns i).beWait = .idle := by
        rw [hconnY]
        rfl
      have hsqeY : .noSqe ∈ (y.conns i).log := by
        rw [hconnY]
        exact hsqeX
      have hturn : ActTurn w i s y :=
        { hframeX.trans hlocalY.toFrame with
          act := by
            rw [held_none hbeY, hcellY]
            exact .lost htook.arrives hready hstart hsend
          busy := fun hno => absurd hsqeY hno
          sq_free := fun hfree => absurd hfree hlive
          queue := Or.inl (by rw [hringY, hringX', hring])
          ring := fun _ h => by cases hidleY.symm.trans h
          ringed := fun hin hmem => by
            cases htook.idle.1.symm.trans (hin (hring ▸ hringX' ▸ hringY ▸ hmem))
          parked := fun _ h => nomatch hidleY.symm.trans h }
      have hdrainY : (y.conns i).drainingQueue = (s.conns i).drainingQueue := by
        rw [hconnY]
        exact hdrainXs
      have hkeptY := Kept.of_turn hturn hdrainY
      obtain ⟨hkept, hrest, -, hidle, -⟩ := released_spec hd hy (hs.act hturn)
        (by rw [hconnY]; exact hopenX) (hkeptY.calm hcalm fun _ hw => nomatch hidleY.symm.trans hw)
        (by rw [hkeptY.drainingCount_eq]; exact hcount)
      generalize afterBackendRelease drain x i = r at hkept hrest hidle ⊢
      have hall := hkeptY.trans hkept
      refine ⟨fun _ => ⟨hall, hrest (Or.inr (Or.inl hsqeY)), fun h => ?_⟩, fun h => ?_⟩
      · rw [hidle (hdrainY.trans h)]
        nofun
      · obtain ⟨r, ok⟩ := r
        subst h
        have hloggedY : src.Logged (y.conns i).log := by
          rw [hconnY]
          exact hloggedX
        refine ⟨r, r.cell i, hall, .again (hs.path hall.path).toOwned ?_ (hkept.path.log_mem hsqeY)
          (hloggedY.mono fun o ho => hkept.path.log_mem ho), fun h => hidle (hdrainY.trans h),
          Or.inr (hkept.path.log_mem hsqeY)⟩
        refine (hkept.path.keeps i).1.open ?_
        rw [hconnY]
        exact hopenX

theorem startPipeline_spec (hd : DrainSpec w n drain) (hs : s.Sound) (hcalm : s.Calm)
    (hcount : maxConns < n + drainingCount s) {src : BindSource} (htook : Took w i src s t)
    (hready : (t.conns i).identityReady = true) {mark : Conn → Conn}
    (hmark : ∀ b, mark ((t.conns i).checkingOut.begin b) = (t.conns i).begun b) :
    Started w i src s t (startPipeline w env drain t i (src.bind w) mark) := by
  have ht := htook.sound hs
  unfold startPipeline
  cases hpool : t.pool with
  | none =>
      refine Refused.started ⟨htook.untried hs, fun hfree => ?_⟩ htook.idle.1
      unfold Server.idleFor at hfree
      rw [hpool] at hfree
      cases hfree
  | some p =>
      dsimp only
      have hconn : (t.updConn i Conn.checkingOut).conns i = (t.conns i).checkingOut := conns_updConn ..
      have hwrites : WritesWhole w (t.updConn i Conn.checkingOut) i p
          (asyncBegin w env p ((t.updConn i Conn.checkingOut).conns i).cache (src.bind w)
            ((t.updConn i Conn.checkingOut).conns i).id).1 := by
        refine asyncBegin_whole env (htook.arrives.logged.mono fun o ho => ?_)
        rw [hconn]
        exact List.mem_append_left _ ho
      rw [hconn] at hwrites ⊢
      have hcall := (asyncBegin_call w env p (t.conns i).checkingOut.cache (src.bind w)
        (t.conns i).checkingOut.id).1
      have hspec := (asyncBegin_spec w env p (t.conns i).checkingOut.cache (src.bind w)
        (t.conns i).checkingOut.id).2
      have hnone := asyncBegin_none w env (ht.wf p hpool) (ht.unprobed p hpool)
        (t.conns i).checkingOut.cache (src.bind w) (t.conns i).checkingOut.id
      generalize asyncBegin w env p (t.conns i).checkingOut.cache (src.bind w)
        (t.conns i).checkingOut.id = r at hwrites hcall hspec hnone ⊢
      obtain ⟨p', _ | b⟩ := r
      · have hcheck : Beside i t (t.updConn i Conn.checkingOut) := .updConn t _
        have hown := ht.toOwned.frame
          (hcheck.local (w := w) ht.toOwned (by rw [hconn]; rfl)).toFrame
        have hlocal : Local w i t ((t.updConn i Conn.checkingOut).afterCall i p') :=
          (hcheck.local ht.toOwned (by rw [hconn]; rfl)).trans (local_call hown hpool hcall hwrites)
        have hheld : ((t.updConn i Conn.checkingOut).afterCall i p').held i = t.held i :=
          (held_call hown hpool hcall).trans (hcheck.held (by rw [hconn]; rfl))
        refine Refused.started ⟨htook.pending hs.toOwned hlocal ?_ hheld rfl, ?_⟩ htook.idle.1
        · exact ⟨[.checkout (t.conns i).identityReady (t.conns i).id],
            cell_updConn t i Conn.checkingOut,
            fun o ho => Or.inl ⟨List.mem_singleton.mp ho, hready⟩⟩
        · intro hfree
          refine Or.inl ?_
          rw [← Bool.not_eq_true]
          intro hstart
          change p'.idleFor ((t.updConn i Conn.checkingOut).conns i).id.group = true at hfree
          rw [hconn] at hfree
          obtain ⟨b, hb⟩ := offers_of_idleFor hfree
          exact hnone hstart rfl b hb
      · obtain ⟨hheld, hnot, hbegun⟩ := hspec b rfl
        have hbegin : ((t.updConn i Conn.checkingOut).afterCall i p').updConn i
            (fun c => mark (c.begin b)) = ((t.updConn i Conn.checkingOut).afterCall i p').setConn i
              ((t.conns i).begun b) := by
          rw [← hmark b, ← hconn]
          rfl
        dsimp only
        rw [hbegin]
        have hu := (Beside.setConn ((t.updConn i Conn.checkingOut).afterCall i p')
          ((t.conns i).begun b)).trans (.onCell (i := i) _ (submitBeSend p'.conns))
        have hcell : (((t.updConn i Conn.checkingOut).afterCall i p').setConn i
            ((t.conns i).begun b)).cell i = { t.cell i with conn := (t.conns i).begun b } := by
          simp [Server.cell, Server.setConn, Server.afterCall, Server.updConn]
        have hsub : submitBeSend p'.conns { t.cell i with conn := (t.conns i).begun b } =
            (t.cell i).startOn b (p'.conns b) := submitBeSend_congr rfl rfl
        rw [← hcell] at hsub
        obtain ⟨hkeepSlot, hbe, hdraining, hgo, -⟩ := startOn_facts (t.cell i) b hbegun
        have hslot : (submitBeSend p'.conns ((((t.updConn i Conn.checkingOut).afterCall i p').setConn i
            ((t.conns i).begun b)).cell i)).1.slot = i := by
          rw [hsub]
          exact hkeepSlot
        have hafter := (cell_onCell hslot).trans (congrArg Prod.fst hsub)
        have hok : ((((t.updConn i Conn.checkingOut).afterCall i p').setConn i
            ((t.conns i).begun b)).onCell i (submitBeSend p'.conns)).2 =
              ((t.cell i).startOn b (p'.conns b)).2 := congrArg Prod.snd hsub
        have hring : ((((t.updConn i Conn.checkingOut).afterCall i p').setConn i
            ((t.conns i).begun b)).onCell i (submitBeSend p'.conns)).1.waiters = s.waiters :=
          htook.ring
        generalize (((t.updConn i Conn.checkingOut).afterCall i p').setConn i
          ((t.conns i).begun b)).onCell i (submitBeSend p'.conns) = q at hu hafter hok hring ⊢
        obtain ⟨u, ok⟩ := q
        dsimp only at hu hafter hok hring
        have hstart : (t.cell i).startOn b (p'.conns b) = (u.cell i, ok) :=
          Prod.ext hafter.symm hok.symm
        rw [hstart] at hbe hdraining hgo
        obtain ⟨hframe, hbusy, hheldEq⟩ := begun_frame htook hs.toOwned hpool hcall ⟨hheld, hnot⟩
          hwrites hu hbe
        dsimp only at hbegun hheldEq
        cases ok with
        | false =>
            rw [← hheldEq] at hstart hbegun
            exact lost_started env hd hs hcalm hcount htook hready hframe hring hstart hbegun
        | true =>
            have hidle : (t.cell i).conn.beWait = .idle := htook.idle.2
            have hnot' : (u.conns i).beWait ≠ .waitingPool := by
              rcases hgo rfl with h | ⟨h, -⟩
              · exact fun hw => by cases (show (u.conns i).beWait = .sending from h).symm.trans hw
              · exact fun hw => by cases hidle.symm.trans (h.symm.trans hw)
            have hrest : (u.conns i).Rested := by
              rcases hgo rfl with h | ⟨-, h⟩
              · exact Or.inl fun hw => by cases (show (u.conns i).beWait = .sending from h).symm.trans hw
              · exact Or.inr (Or.inr (Or.inr h))
            have hturn : ActTurn w i s u :=
              { hframe with
                act := by
                  rw [hheldEq]
                  exact .begin htook.arrives hready hbegun hstart
                busy := fun _ hmatched => hbusy (Classical.not_not.mp fun hne => by
                  rcases hmatched hne with h | h
                  · cases htook.idle.1.symm.trans h
                  · cases htook.idle.1.symm.trans h)
                sq_free := fun hfree => absurd hfree (htook.arrives.open (hs.tidy i)).1
                queue := Or.inl (by rw [hring])
                ring := fun _ h => absurd h hnot'
                ringed := fun hin hmem => by cases htook.idle.1.symm.trans (hin (hring ▸ hmem))
                parked := fun _ h => absurd h hnot' }
            exact ⟨fun _ => ⟨.of_turn hturn (hdraining.trans htook.draining), hrest, fun _ => hnot'⟩,
              by rintro ⟨⟩⟩

/-- A statement that is not cached cannot be run. -/
theorem startable_none {cache : StmtCache} {bind : PqBind} {owner : Identity}
    (hget : stmtCacheGet cache bind.statement = none) : startable w cache bind owner = false := by
  have hon : onBind w ⟨[], []⟩ cache bind owner = (⟨[], []⟩, false) := by
    unfold onBind
    rw [hget]
  simp [startable, bindPipeline, hon]

theorem startAsyncBindFromQueue_spec (hd : DrainSpec w n drain) (hs : s.Sound) (hcalm : s.Calm)
    (hcount : maxConns < n + drainingCount s) {it : BindItem} (htook : Took w i (.queue it) s t)
    (hready : (t.conns i).identityReady = true) :
    Started w i (.queue it) s t (startAsyncBindFromQueue w env drain t i it) := by
  unfold startAsyncBindFromQueue
  split
  · rename_i hget
    refine Refused.started ⟨htook.untried hs, fun _ => Or.inl ?_⟩ htook.idle.1
    exact startable_none (Option.isNone_iff_eq_none.mp hget)
  · exact startPipeline_spec env hd hs hcalm hcount htook hready fun b => rfl

/-- The fields of the backend side, and the queue. -/
def Conn.side (c : Conn) : Option Nat × BeWait × Bool × RingBuffer FeqItem feQMax :=
  (c.be, c.beWait, c.drainingQueue, c.feQ)

theorem side_reply (c : Conn) (r : Reply) : (reply w c r).1.side = c.side := by
  rw [reply_conn]
  rfl

/-- The acknowledgement of a Bind leaves the rest of the connection alone. -/
theorem side_answerBind (c : Conn) (why : Unrun) (r : Option ExecResult) :
    (answerBind w c why r).1.side = c.side := by
  unfold answerBind
  cases r with
  | none => exact side_reply _ _
  | some r =>
      dsimp only
      split
      · exact side_reply _ _
      · exact side_reply _ _

/-- The turn of a connection whose Bind is not run by a pipeline in steps. -/
theorem blockingBind_spec {src : BindSource} {c : Cell} (hs : s.Sound)
    (hpending : Pending w i src c s t) {bind : PqBind}
    (hbind : bind = src.bind w ∨ ∃ it, src = .queue it ∧ bind = { it.toBind w with portal := [] }) :
    ActTurn w i s (blockingBind w env t i bind).1 ∧
      ((blockingBind w env t i bind).1.conns i).beWait = (s.conns i).beWait ∧
      ((blockingBind w env t i bind).1.conns i).drainingQueue = (s.conns i).drainingQueue ∧
      ((blockingBind w env t i bind).1.conns i).feQ = c.conn.feQ := by
  obtain ⟨l, hcell, hl⟩ := hpending.tried
  have hqueue : (t.conns i).feQ = c.conn.feQ := by
    rw [show t.conns i = _ from congrArg Cell.conn hcell]
    rfl
  -- the last step of every branch
  have hlast : ∀ (u : Server) (why : Unrun) (r : Option ExecResult), Local w i t u →
      u.waiters = t.waiters → u.held i = t.held i → Tried c (u.cell i) →
      (∀ x, r = some x → x.Sound w) → (u.conns i).side = (t.conns i).side →
      why.pool = u.pool.isSome → why.ready = (u.conns i).identityReady → why.Holds →
      ActTurn w i s (u.onConn i fun c => answerBind w c why r).1 ∧
        ((u.onConn i fun c => answerBind w c why r).1.conns i).beWait = (s.conns i).beWait ∧
        ((u.onConn i fun c => answerBind w c why r).1.conns i).drainingQueue =
          (s.conns i).drainingQueue ∧
        ((u.onConn i fun c => answerBind w c why r).1.conns i).feQ = c.conn.feQ := by
    intro u why r hlocal hring hheldU htried hsound hside hpool hready hwhy
    have hside' := side_answerBind (w := w) (u.conns i) why r
    simp only [Conn.side, Prod.mk.injEq] at hside hside'
    obtain ⟨hbe, hwait, hdrain, hfeQ⟩ := hside
    obtain ⟨hbe', hwait', hdrain', hfeQ'⟩ := hside'
    have hself : (u.onConn i fun c => answerBind w c why r).1.conns i = (answerBind w (u.conns i) why r).1 :=
      Function.update_self ..
    have hsu := hpending.toLocal.trans hlocal
    have hbeside : Beside i u (u.onConn i fun c => answerBind w c why r).1 := .onConn u _
    have hstep := hbeside.local (w := w) (hs.toOwned.frame hsu.toFrame) (by rw [hself, hbe'])
    have hall := hsu.trans hstep
    have hpoolAll : why.pool = s.pool.isSome := by
      have hsetup := congrArg Option.isSome hsu.setup
      rw [Option.isSome_map, Option.isSome_map] at hsetup
      exact hpool.trans hsetup
    have hreadyAll : why.ready = (s.conns i).identityReady := by
      obtain ⟨m, hm, -⟩ := htried
      have hsame : (u.conns i).identityReady = c.conn.identityReady :=
        congrArg (fun x : Cell => x.conn.identityReady) hm
      have hopen := (hpending.arrives.open (hs.tidy i)).2
      exact hready.trans (hsame.trans (hpending.arrives.ext.keeps.identity hopen).2)
    have hbeAll : ((u.onConn i fun c => answerBind w c why r).1.conns i).be = (s.conns i).be := by
      rw [hself, hbe', hbe, hpending.be]
    have hheld : (u.onConn i fun c => answerBind w c why r).1.held i = s.held i := by
      rw [hbeside.held (by rw [hself, hbe']), hheldU, hpending.backend]
    have hwaitAll : ((u.onConn i fun c => answerBind w c why r).1.conns i).beWait = (s.conns i).beWait := by
      rw [hself, hwait', hwait, hpending.wait]
    have hringU : (u.onConn i fun c => answerBind w c why r).1.waiters = s.waiters :=
      hring.trans hpending.ring
    refine ⟨{ hall.toFrame with
      act := ?_
      busy := fun _ _ => hall.busy
      sq_free := fun hfree => absurd hfree (hpending.arrives.open (hs.tidy i)).1
      queue := Or.inl (congrArg Waiters.slots hringU)
      ring := fun hne h => absurd (hwaitAll.symm.trans h) hne
      ringed := fun hin hmem => hwaitAll.trans (hin (hringU ▸ hmem))
      parked := fun hne h => absurd (hwaitAll.symm.trans h) hne }, hwaitAll, ?_, ?_⟩
    · rw [hheld, cell_onConn]
      exact .bind hpending.arrives htried hsound hpoolAll hreadyAll hwhy
    · rw [hself, hdrain', hdrain, hpending.draining]
    · rw [hself, hfeQ', hfeQ, hqueue]
  have hself := hlast t (t.unrun w i bind false) none (.refl (hs.toOwned.frame hpending.toFrame)) rfl rfl
    hpending.tried nofun rfl rfl rfl
  unfold blockingBind
  cases hpool : t.pool with
  | none =>
      refine hself fun hsome => ?_
      rw [Server.unrun, hpool] at hsome
      cases hsome
  | some p =>
      dsimp only
      split
      · rename_i hnot
        exact hself fun _ hready => absurd (hnot.symm.trans hready) nofun
      · rename_i hnot
        have hready : (t.conns i).identityReady = true := by simpa using hnot
        have hcheck : Beside i t (t.updConn i Conn.checkingOut) := .updConn t _
        have hconn : (t.updConn i Conn.checkingOut).conns i = (t.conns i).checkingOut :=
          conns_updConn ..
        have hownT := hs.toOwned.frame hpending.toFrame
        have hstep := hcheck.local (w := w) hownT (by rw [hconn]; rfl)
        have hown := hownT.frame hstep.toFrame
        rw [hconn]
        have hcall := execOn_call w env p (t.conns i).checkingOut.id.group ioBuf true
          (bindPipeline w (t.conns i).checkingOut.cache bind (t.conns i).checkingOut.id)
        have hsound := execBindEx_sound w env p (t.conns i).checkingOut.cache bind
          (t.conns i).checkingOut.id ioBuf
        have hopen : (t.conns i).Open := by
          rw [show t.conns i = _ from congrArg Cell.conn hcell]
          exact hpending.arrives.ext.keeps.open (hpending.arrives.open (hs.tidy i))
        have ht := hs.frame hpending.toFrame fun hclosed => absurd hopen hclosed
        have hunflushed := execBindEx_unflushed w env (ht.wf p hpool) (ht.unprobed p hpool)
          (t.conns i).checkingOut.cache bind (t.conns i).checkingOut.id ioBuf
        have hlogged : src.Logged (t.conns i).checkingOut.log := by
          refine hpending.arrives.logged.mono fun o ho => List.mem_append_left _ ?_
          rw [show t.conns i = _ from congrArg Cell.conn hcell]
          exact List.mem_append_left _ ho
        change Call p (execBindEx w env p (t.conns i).checkingOut.cache bind
          (t.conns i).checkingOut.id ioBuf).1 none ∧ (p.cfg.healthCheckOnCheckout = false →
            (execBindEx w env p (t.conns i).checkingOut.cache bind
              (t.conns i).checkingOut.id ioBuf).1.written = p.written ∨ _ ∧ _ ∧
                (execBindEx w env p (t.conns i).checkingOut.cache bind
                  (t.conns i).checkingOut.id ioBuf).1.written = _) at hcall
        generalize execBindEx w env p (t.conns i).checkingOut.cache bind
          (t.conns i).checkingOut.id ioBuf = x at hcall hsound hunflushed ⊢
        obtain ⟨p', r⟩ := x
        obtain ⟨hcall, hwritten⟩ := hcall
        have hwrites : WritesWhole w (t.updConn i Conn.checkingOut) i p p' := by
          intro hw _ hoff
          rw [hconn]
          rcases hwritten hoff with h | ⟨hok, -, h⟩
          · exact Or.inl h
          · exact Or.inr ⟨_, h, written_whole hw hlogged hbind hok⟩
        have hu : ((t.updConn i Conn.checkingOut).afterCall i p').conns i =
            (t.conns i).checkingOut := hconn
        refine hlast _ _ (some r) (hstep.trans (local_call hown hpool hcall hwrites)) rfl
          ((held_call hown hpool hcall).trans (hcheck.held (by rw [hconn]; rfl))) ?_ ?_ ?_ rfl rfl ?_
        · refine ⟨l ++ [.checkout c.conn.identityReady c.conn.id], ?_, fun o ho => ?_⟩
          · have hcheckCell : ((t.updConn i Conn.checkingOut).afterCall i p').cell i =
                (t.cell i).upd Conn.checkingOut := cell_updConn t i _
            rw [hcheckCell, hcell]
            simp [Cell.upd, Conn.checkingOut, Conn.note]
          · rcases List.mem_append.mp ho with ho | ho
            · exact hl o ho
            · refine Or.inl ⟨List.mem_singleton.mp ho, ?_⟩
              rw [show t.conns i = _ from congrArg Cell.conn hcell] at hready
              exact hready
        · rintro x ⟨⟩
          exact hsound
        · rw [hu]
          rfl
        · -- an idle backend would have been checked out
          intro _ _ hfree hstart
          change p'.idleFor _ = true at hfree
          change startable w _ bind _ = true at hstart
          rw [hu] at hfree hstart
          obtain ⟨b, hb⟩ := offers_of_idleFor hfree
          change r.flushed = true
          by_contra hnot
          exact hunflushed hstart (Bool.not_eq_true _ ▸ hnot) b hb

/-! ### Parking -/

/-- There is a place in the ring for every connection. -/
theorem Waiters.push_exists (q : Waiters) (i : Slot) : ∃ q', q.push i = some q' := by
  unfold Waiters.push
  split
  · exact ⟨_, rfl⟩
  · rename_i hnot
    have hlen : (i :: q.ring.toList).length ≤ maxConns := by
      have hcard := (List.nodup_cons.mpr ⟨hnot, q.nodup⟩).length_le_card
      rwa [Fintype.card_fin] at hcard
    rw [List.length_cons, q.ring.length_toList] at hlen
    rw [dif_pos (by omega)]
    exact ⟨_, rfl⟩

/-- Only the queue and the history change when a Bind goes to the queue. -/
theorem requeue_conn {c c' : Conn} {src : BindSource} (h : requeue w c src = some c') :
    c' = { c with feQ := c'.feQ, log := c'.log } := by
  cases src with
  | event bind =>
      dsimp only [requeue] at h
      rcases feqPushBind_cases (w := w) c bind with ⟨it, -, heq⟩ | heq
      · rw [heq] at h
        rcases feqPush_cases c (.bind it) with ⟨q, -, hpush⟩ | hpush
        · rw [hpush] at h
          cases h
          rfl
        · rw [hpush] at h
          cases h
      · rw [heq] at h
        cases h
  | queue it =>
      obtain ⟨q, -, rfl⟩ := feqPutBack_some h
      rfl

theorem BindArrives.entries {c c₁ : Cell} {src : BindSource} (h : BindArrives w c src c₁) :
    c₁ = { c with conn := c₁.conn } := by
  cases h <;> rfl

/-- A Bind for which no pipeline could be started waits for a backend. -/
theorem park_spec {src : BindSource} {c : Cell} (hs : s.Sound) (hrefused : Refused w i src c s t)
    (hfair : t.fairSchedule = true) {conn : Conn} (hqueue : requeue w (t.conns i) src = some conn) :
    (parkForBackend (t.setConn i conn) i).2 = true ∧
      ActTurn w i s (parkForBackend (t.setConn i conn) i).1 ∧
      ((parkForBackend (t.setConn i conn) i).1.conns i).beWait = .waitingPool ∧
      ((parkForBackend (t.setConn i conn) i).1.conns i).drainingQueue = (s.conns i).drainingQueue := by
  have hconn := requeue_conn hqueue
  have hself : (t.setConn i conn).conns i = conn := Function.update_self ..
  have hset : Beside i t (t.setConn i conn) := .setConn t conn
  have hfree : (t.setConn i conn).idleFor i = t.idleFor i :=
    idleFor_eq rfl (by rw [hself, hconn])
  obtain ⟨q, hpush⟩ := Waiters.push_exists (t.setConn i conn).waiters i
  have heq : parkForBackend (t.setConn i conn) i =
      ({ t.setConn i conn with waiters := q }.updConn i fun c =>
        { c.note (.parked ((t.setConn i conn).idleFor i)) with beWait := .waitingPool }, true) := by
    unfold parkForBackend waitersPush
    rw [if_pos (show (t.setConn i conn).fairSchedule = true from hfair), hpush]
  rw [heq, hfree]
  obtain ⟨hmem, hslots⟩ := Waiters.push_some hpush
  have hpark : Beside i t ({ t.setConn i conn with waiters := q }.updConn i fun c =>
      { c.note (.parked (t.idleFor i)) with beWait := .waitingPool }) := by
    refine hset.trans ⟨fun j hj => Function.update_of_ne hj .., fun j hj => ?_, rfl⟩
    rcases hslots with h | h
    · exact iff_of_eq (congrArg (j ∈ ·) h)
    · exact (iff_of_eq (congrArg (j ∈ ·) h)).trans (by simp [hj])
  have hafter : (({ t.setConn i conn with waiters := q } : Server).updConn i fun c =>
      { c.note (.parked (t.idleFor i)) with beWait := .waitingPool }).conns i =
        { conn.note (.parked (t.idleFor i)) with beWait := .waitingPool } := by
    rw [conns_updConn]
    exact congrArg (fun c : Conn => { c.note (.parked (t.idleFor i)) with beWait := .waitingPool })
      hself
  have hslots' : q.slots = s.waiters.slots ∨ q.slots = s.waiters.slots ++ [i] := by
    rw [← hrefused.ring]
    exact hslots
  have hbe : conn.be = (t.conns i).be := by rw [hconn]
  have hid : conn.id = (t.conns i).id := by rw [hconn]
  have hdrain : conn.drainingQueue = (t.conns i).drainingQueue := by rw [hconn]
  have hsq : t.sq = s.sq := by
    obtain ⟨l, hcell, -⟩ := hrefused.tried
    have harrives := hrefused.arrives.entries
    rw [harrives] at hcell
    exact congrArg Cell.sq hcell
  generalize hu : ({ t.setConn i conn with waiters := q } : Server).updConn i (fun c =>
      { c.note (.parked (t.idleFor i)) with beWait := .waitingPool }) = u at hpark hafter
  have hring : u.waiters = q := by rw [← hu]; rfl
  have hsqU : u.sq = s.sq := by rw [← hu]; exact hsq
  have hbeT : (u.conns i).be = (t.conns i).be := by rw [hafter]; exact hbe
  have hall := hrefused.toLocal.trans (hpark.local (hs.toOwned.frame hrefused.toFrame) hbeT)
  have hheld : u.held i = s.held i := (hpark.held hbeT).trans hrefused.backend
  have hcell : u.cell i = { s.cell i with
      conn := { conn.note (.parked (t.idleFor i)) with beWait := .waitingPool } } := by
    unfold Server.cell
    rw [hafter, hsqU]
  refine ⟨rfl, { hall.toFrame with
    act := ?_
    busy := fun _ _ => hall.busy
    sq_free := fun _ => hsqU
    queue := by
      rw [hring]
      exact hslots'.imp_right Or.inr
    ring := fun _ _ => by
      rw [hring]
      exact hmem
    ringed := fun _ _ => by rw [hafter]
    parked := fun _ _ => ⟨conn.log, ?_⟩ }, by rw [hafter], ?_⟩
  · rw [hheld, hcell]
    exact .park hrefused.arrives hrefused.tried hqueue hrefused.free
  · rw [hafter, idleFor_eq (s := t) hpark.pool (by rw [hafter]; exact hid)]
    rfl
  · rw [hafter]
    exact hdrain.trans hrefused.draining

end

end
