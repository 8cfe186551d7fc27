import PqProxy.LoopClose

/-! The completions of requests to backends: the connection goes on with its pipeline, or gives its
backend up, and then those that wait are granted one. -/

section

variable {w : Pqwire} (env : Env) {i : Slot} {s t u : Server} {op : Op}

/-- How the handler of a completion ends. -/
structure LandedTo (w : Pqwire) (op : Op) (i : Slot) (s : Server) (r : Server × Bool) : Prop where
  lands : ∃ t, LandTurn w op i s t ∧
    ((t.conns i).GoesOn ∧ Turns w t r.1 ∧
        ((t.conns i).be = none → Woken w t r.1 ∨ Overflowed (t.conns i).log) ∨
      r = (t, false) ∧ ((t.conns i).be = none → Overflowed (t.conns i).log))
  good : r.1.Good none

/-- A request to a backend fails: an error other than EAGAIN for a write, and for a receive an error, no
bytes, or bytes that cannot be read or do not fit. -/
def Server.Fails (w : Pqwire) (s : Server) (i : Slot) : Op → Cqe → Prop
  | .beSend, .sent _ => False
  | .beSend, .failed again => again = false
  | .beSend, _ => True
  | .beRecv, .data (x :: bytes) =>
      (asyncOnRecv w (s.held i) (x :: bytes) (s.conns i).beResp ioBuf).2.2 = .failed
  | .beRecv, _ => True
  | _, _ => False

/-- The history goes on with the report of a lost pipeline. -/
def Conn.TellsLoss (c c' : Conn) : Prop := ∃ behind,
  c'.log = c.log ++ .lost :: .replied pipelineError :: .replied .readyForQuery :: behind

theorem landed_fields (c : Conn) (op : Op) : (c.landed op).state = c.state ∧
    (c.landed op).ssl = c.ssl ∧ (c.landed op).pollPending = c.pollPending ∧
    (c.landed op).log = c.log ∧ (c.landed op).side = c.side := by
  cases op <;> exact ⟨rfl, rfl, rfl, rfl, rfl⟩

/-- The server is in order again once the connection is rested. -/
theorem LandTurn.good (h : LandTurn w op i s t) (hs : s.Good none)
    (hdrain : (t.conns i).drainingQueue = false) (hkept : Kept w (some i) t u)
    (hrest : (u.conns i).Rested) : u.Good none := by
  have hopen : (s.conns i).Open := h.land.open (hs.tidy i)
  have ht : t.Sound := hs.toSound.land h
  obtain ⟨hstate, hssl, hpoll, -⟩ := landed_fields (s.conns i) op
  have hne : ∀ {j}, j ≠ i → some j ≠ some i := fun hj heq => hj (Option.some.inj heq)
  have hmodeT : t.Mode := hs.mode.grows h.toFrame h.land.grows hstate hssl rfl
    fun hfree => absurd hfree hopen.1
  refine ⟨⟨ht.path hkept.path, fun j => ?_, fun j => ?_⟩, hmodeT.path hkept.path, fun j _ => ?_,
    fun j _ => ?_⟩
  · by_cases hj : j = i
    · rw [hj]
      exact hrest
    · refine hkept.rested j (hne hj) ?_
      rw [h.others j hj]
      exact hs.rested j
  · rw [hkept.draining]
    by_cases hj : j = i
    · rw [hj]
      exact hdrain
    · rw [h.others j hj]
      exact hs.undrained j
  · rw [hkept.path.cfg.1, h.cfg]
    by_cases hj : j = i
    · rw [hj]
      have hkeeps : Keeps (s.conns i) (u.conns i) := h.land.keeps.trans (hkept.path.keeps i).1
      exact fun _ => (hkeeps.identity hopen.2).2 ▸ hs.admitted i nofun hopen
    · refine hkept.admitted ht (hne hj) ?_
      rw [h.others j hj]
      exact hs.admitted j nofun
  · refine hkept.path.polled ?_
    by_cases hj : j = i
    · rw [hj]
      have hgrows := h.land.grows
      intro hlive hsslT
      have hold : (s.conns i).pollPending = true := hs.polled i nofun hopen.1
        ((h.land.keeps.ssl).symm.trans hsslT)
      exact (hgrows.sends.pollPending (hpoll.trans hold)).1
    · rw [h.others j hj]
      exact hs.polled j nofun

theorem Server.Sound.open_of_be (hs : s.Sound) {b : Nat} (hbe : (s.conns i).be = some b) :
    (s.conns i).Open :=
  Classical.not_not.mp fun hnot => nomatch (hs.tidy i hnot).2.2.symm.trans hbe

/-- The connection is rested as before, as long as it waits as before and its queue does not grow. -/
theorem Conn.Rested.of_eq {c c' : Conn} (h : c.Rested) (hwait : c'.beWait = c.beWait)
    (hqueue : c'.feQ = c.feQ ∨ c'.feQ.toList = []) (hlog : ∀ o ∈ c.log, o ∈ c'.log) : c'.Rested := by
  rcases h with h | h | h
  · exact Or.inl (hwait ▸ h)
  · rcases hqueue with hq | hq
    · exact Or.inr (Or.inl (by rw [hq, h]))
    · exact Or.inr (Or.inl hq)
  · exact Or.inr (Or.inr (h.imp (hlog _) (hlog _)))

/-- The connection that gave its backend up is released, and those that wait are served. -/
theorem released_landed (hs : s.Good none) {b : Nat} (hbe : (s.conns i).be = some b) {v y : Server}
    (hy : v.updConn i Conn.release = y) (hland : LandTurn w op i s y) (hopen : (y.conns i).Open)
    (hdrain : (y.conns i).drainingQueue = false) (hidle : (y.conns i).beWait = .idle)
    (hnone : (y.conns i).be = none) :
    LandedTo w op i s (afterBackendRelease (drainQueue w env) v i) ∧
      Turns w y (afterBackendRelease (drainQueue w env) v i).1 := by
  have hpool : y.pool.isSome = true := by
    obtain ⟨p, hp, -⟩ := hs.toOwned.pool hbe
    have hsetup := hland.setup
    rw [hp] at hsetup
    cases hq : y.pool with
    | none =>
        rw [hq] at hsetup
        cases hsetup
    | some q => rfl
  have hcalm : y.Calm := by
    intro j hj
    by_cases hji : j = i
    · rw [hji]
      exact fun hw => nomatch hidle.symm.trans hw
    · rw [hland.others j hji, hs.undrained j] at hj
      cases hj
  obtain ⟨hkept, hrest, -, -, hwoken⟩ := released_spec (drainQueue_spec w env) hy
    (hs.toSound.land hland) hopen hcalm (by omega)
  refine ⟨⟨⟨y, hland, Or.inl ⟨⟨fun _ => hidle, fun h => absurd hnone h⟩, hkept.path, fun _ => ?_⟩⟩,
    hland.good hs hdrain hkept (hrest (Or.inl hdrain))⟩, hkept.path⟩
  exact Or.inl (hwoken hpool)

/-- What the history says when a pipeline was lost. -/
theorem log_reportLost (hw : w.Appends) (c : Cell) : ∃ behind, (reportLost w c).1.conn.log =
    c.conn.log ++ .lost :: .replied pipelineError :: .replied .readyForQuery :: behind := by
  have hboth : ∀ d : Conn, (replyBoth w d pipelineError .readyForQuery).log =
      d.log ++ [.replied pipelineError, .replied .readyForQuery] := fun d => by
    rw [replyBoth, reply_eq hw, reply_eq hw]
    exact List.append_assoc ..
  obtain ⟨d, hd⟩ : ∃ d : Conn, d = { (c.conn.note .lost).emptyResp with be := none } := ⟨_, rfl⟩
  have hlost : reportLost w c =
      drainFrontendOut { c with conn := replyBoth w d pipelineError .readyForQuery } := by
    rw [hd]
    rfl
  have hlog : d.log = c.conn.log ++ [.lost] := congrArg Conn.log hd
  obtain ⟨hio, -⟩ := drainFrontendOut_io { c with conn := replyBoth w d pipelineError .readyForQuery }
  obtain ⟨l, hl, -⟩ := hio.log
  rw [hlost]
  refine ⟨l, hl.trans ?_⟩
  rw [hboth, hlog]
  simp

/-- The backend of a pipeline was lost, and the connection reports it. -/
theorem backendAsyncFail_spec (hs : s.Good none) {b : Nat} (hbe : (s.conns i).be = some b)
    (hlocal : Local w i s t) (hring : t.waiters = s.waiters) {resp : RespBuf}
    (hcell : t.cell i = (s.cell i).upd fun c => { c.landed op with beResp := resp }) :
    LandedTo w op i s (backendAsyncFail w env (drainQueue w env) t i) ∧ (w.Appends →
      (s.conns i).TellsLoss ((backendAsyncFail w env (drainQueue w env) t i).1.conns i)) := by
  have hopen : (s.conns i).Open := hs.toSound.open_of_be hbe
  obtain ⟨hstateL, -, -, hlogL, hsideL⟩ := landed_fields (s.conns i) op
  have hconn : t.conns i = { (s.conns i).landed op with beResp := resp } := congrArg Cell.conn hcell
  have hsideT : (t.conns i).side = (s.conns i).side := by
    rw [hconn]
    exact hsideL
  have hopenT : (t.conns i).Open := by
    rw [hconn]
    exact ⟨fun h => hopen.1 (hstateL.symm.trans h), fun h => hopen.2 (hstateL.symm.trans h)⟩
  have hlogT : (t.conns i).log = (s.conns i).log := by
    rw [hconn]
    exact hlogL
  simp only [Conn.side, Prod.mk.injEq] at hsideT
  obtain ⟨-, hwaitT, hdrainT, hqueueT⟩ := hsideT
  have ht : t.Sound := hs.toSound.frame hlocal.toFrame fun hnot => absurd hopenT hnot
  obtain ⟨hslotX, hbeX, hwaitX, hdrainX, hqueueX, hoverX⟩ := reportLost_facts (w := w) (t.cell i)
  have hextX := ext_reportLost (w := w) (t.cell i)
  obtain ⟨hsame, hringX⟩ := cell_finishBackend env t i true
  unfold backendAsyncFail
  have hcellX : ((finishBackend env t i true).onCell i (reportLost w)).1.cell i =
      (reportLost w (t.cell i)).1 := by
    rw [cell_onCell (by rw [hsame]; exact hslotX), hsame]
  have hokX : ((finishBackend env t i true).onCell i (reportLost w)).2 =
      (reportLost w (t.cell i)).2 := by
    rw [← hsame]
    rfl
  have hbesideX := Beside.onCell (i := i) (finishBackend env t i true) (reportLost w)
  have hringX' : ((finishBackend env t i true).onCell i (reportLost w)).1.waiters = t.waiters := hringX
  generalize (finishBackend env t i true).onCell i (reportLost w) = q at hcellX hokX hbesideX hringX' ⊢
  obtain ⟨v, ok⟩ := q
  dsimp only at hcellX hokX hbesideX hringX'
  have hsend : reportLost w (t.cell i) = (v.cell i, ok) := Prod.ext hcellX.symm hokX.symm
  have htold : w.Appends → (s.conns i).TellsLoss (v.conns i) := by
    intro hw
    obtain ⟨behind, hlog⟩ := log_reportLost hw (t.cell i)
    rw [hsend, show (t.cell i).conn.log = (s.conns i).log from hlogT] at hlog
    exact ⟨behind, hlog⟩
  rw [hsend] at hbeX hwaitX hdrainX hqueueX hoverX hextX
  rw [hcell] at hsend
  have hlocalX : Local w i s v := hlocal.trans (local_finish env ht true hbesideX hbeX)
  have hdrainV : (v.conns i).drainingQueue = false :=
    (hdrainX.trans hdrainT).trans (hs.undrained i)
  have hopenV : (v.conns i).Open := hextX.keeps.open hopenT
  cases ok with
  | false =>
      have hland : LandTurn w op i s v := by
        refine ⟨hlocalX.toFrame, ?_, hlocalX.busy, hringX'.trans hring⟩
        rw [held_none hbeX]
        exact .lostCut resp (by change (s.conns i).be ≠ none; rw [hbe]; rintro ⟨⟩) hsend
      refine ⟨⟨⟨v, hland, Or.inr ⟨rfl, fun _ => hoverX rfl⟩⟩, hland.good hs hdrainV (.refl v) ?_⟩, htold⟩
      refine (hs.rested i).of_eq (hwaitX.trans hwaitT) (Or.inl (hqueueX.trans hqueueT)) fun o ho => ?_
      exact hextX.log_mem (show o ∈ (t.conns i).log from hlogT ▸ ho)
  | true =>
      have hconnY : (v.updConn i Conn.release).conns i = (v.conns i).release := conns_updConn ..
      have hbesideY : Beside i v (v.updConn i Conn.release) := .updConn v _
      have hv : v.Sound := hs.toSound.frame hlocalX.toFrame fun hnot => absurd hopenV hnot
      have hlocalY := hlocalX.trans (hbesideY.local (w := w) hv.toOwned (by rw [hconnY]; rfl))
      have hringY : (v.updConn i Conn.release).waiters = v.waiters := rfl
      have hcellY : (v.updConn i Conn.release).cell i = (v.cell i).upd Conn.release := cell_updConn ..
      dsimp only
      generalize hy : v.updConn i Conn.release = y at hconnY hlocalY hringY hcellY
      have hfieldsY : (y.conns i).be = (v.conns i).be ∧ (y.conns i).beWait = .idle ∧
          (y.conns i).drainingQueue = (v.conns i).drainingQueue ∧
          (y.conns i).state = (v.conns i).state := by
        rw [hconnY]
        exact ⟨rfl, rfl, rfl, rfl⟩
      obtain ⟨hbeY, hidleY, hdrainY, hstateY⟩ := hfieldsY
      have hnone : (y.conns i).be = none := hbeY.trans hbeX
      have hopenY : (y.conns i).Open := ⟨hstateY ▸ hopenV.1, hstateY ▸ hopenV.2⟩
      have hland : LandTurn w op i s y := by
        refine ⟨hlocalY.toFrame, ?_, hlocalY.busy, hringY.trans (hringX'.trans hring)⟩
        rw [held_none hnone, hcellY]
        exact .lost resp (by change (s.conns i).be ≠ none; rw [hbe]; rintro ⟨⟩) hsend
      have hlogY : (y.conns i).log = (v.conns i).log := by
        rw [hconnY]
        rfl
      obtain ⟨hlanded, hpath⟩ := released_landed env hs hbe hy hland hopenY (hdrainY.trans hdrainV) hidleY hnone
      refine ⟨hlanded, fun hw => ?_⟩
      obtain ⟨behind, hlog⟩ := htold hw
      obtain ⟨-, l, hl⟩ := hpath.keeps i
      exact ⟨behind ++ l, by rw [hl, hlogY, hlog]; simp⟩

theorem side_sendResult (c : Cell) (hadError : Bool) :
    (sendResult w c hadError).1.slot = c.slot ∧ (sendResult w c hadError).1.conn.side = c.conn.side := by
  have hqueue := side_queueBackend c c.conn.beResp.bytes
  unfold sendResult
  split
  · generalize queueBackend c c.conn.beResp.bytes = r at hqueue
    obtain ⟨c₁, _ | _⟩ := r
    · exact hqueue
    · exact hqueue
  · split
    · generalize queueBackend c c.conn.beResp.bytes = r at hqueue
      obtain ⟨c₁, _ | _⟩ := r
      · exact hqueue
      · exact hqueue
    · split
      · exact ⟨rfl, side_reply _ _⟩
      · exact ⟨rfl, rfl⟩

/-- What `deliverResult` does once it has acknowledged the pipeline, or discarded the queue. -/
theorem side_delivered (c : Cell) (ok hadError : Bool) :
    let r := if ok = false then (c, false) else
      match sendResult w c hadError with
      | (c, false) => (c, false)
      | (c, true) => drainFrontendOut c
    r.1.slot = c.slot ∧ r.1.conn.side = c.conn.side := by
  dsimp only
  split
  · exact ⟨rfl, rfl⟩
  · have hresult := side_sendResult (w := w) c hadError
    generalize sendResult w c hadError = r at hresult
    obtain ⟨c₁, _ | _⟩ := r
    · exact hresult
    · obtain ⟨hio, -⟩ := drainFrontendOut_io c₁
      exact ⟨hio.slot.trans hresult.1, hio.side.trans hresult.2⟩

/-- The delivery of a result leaves the backend side alone, except that the queue is emptied after an
error. -/
theorem deliverResult_facts (c : Cell) (hadError : Bool) :
    (deliverResult w c hadError).1.slot = c.slot ∧ (deliverResult w c hadError).1.conn.be = c.conn.be ∧
      (deliverResult w c hadError).1.conn.beWait = c.conn.beWait ∧
      (deliverResult w c hadError).1.conn.drainingQueue = c.conn.drainingQueue ∧
      ((deliverResult w c hadError).1.conn.feQ = c.conn.feQ ∨
        (deliverResult w c hadError).1.conn.feQ.toList = []) := by
  unfold deliverResult
  cases hadError with
  | true =>
      obtain ⟨d, hd⟩ : ∃ d : Conn, d = { feqClearAll (c.conn.note (.completed true)) with
          gotExecute := false } := ⟨_, rfl⟩
      have hfields : d.be = c.conn.be ∧ d.beWait = c.conn.beWait ∧
          d.drainingQueue = c.conn.drainingQueue ∧ d.feQ.toList = [] := by
        rw [hd]
        exact ⟨rfl, rfl, rfl, rfl⟩
      dsimp only
      rw [if_pos rfl, ← hd]
      have hrest := side_delivered (w := w) { c with conn := d } true true
      dsimp only at hrest ⊢
      obtain ⟨hslot, hside⟩ := hrest
      simp only [Conn.side, Prod.mk.injEq] at hside
      obtain ⟨hbe, hwait, hdrain, hqueue⟩ := hside
      exact ⟨hslot, hbe.trans hfields.1, hwait.trans hfields.2.1, hdrain.trans hfields.2.2.1,
        Or.inr ((congrArg RingBuffer.toList hqueue).trans hfields.2.2.2)⟩
  | false =>
      have hreply := side_reply (w := w) (c.conn.note (.completed false)) .bindComplete
      dsimp only
      rw [if_neg (show ¬ (false = true) by rintro ⟨⟩)]
      generalize reply w (c.conn.note (.completed false)) .bindComplete = q at hreply ⊢
      obtain ⟨d, ok⟩ := q
      have hrest := side_delivered (w := w) { c with conn := d } ok false
      dsimp only at hrest hreply ⊢
      obtain ⟨hslot, hside⟩ := hrest
      have hall := hside.trans (hreply.trans (side_note _ _))
      simp only [Conn.side, Prod.mk.injEq] at hall
      obtain ⟨hbe, hwait, hdrain, hqueue⟩ := hall
      exact ⟨hslot, hbe, hwait, hdrain, Or.inl hqueue⟩

/-- A receive leaves the connection as it is, but for the response. -/
theorem gotData_fields (c : Conn) (resp : RespBuf) (data : Bytes) :
    ((c.landed .beRecv).gotData resp data).state = c.state ∧
      ((c.landed .beRecv).gotData resp data).side = c.side ∧
      ∀ o ∈ c.log, o ∈ ((c.landed .beRecv).gotData resp data).log :=
  ⟨rfl, rfl, fun _ => List.mem_append_left _⟩

/-- The pipeline is over. -/
theorem backendAsyncComplete_spec (hs : s.Good none) {b : Nat} (hbe : (s.conns i).be = some b)
    (hlocal : Local w i s t) (hring : t.waiters = s.waiters) {data : Bytes} {resp : RespBuf}
    (hrecv : asyncOnRecv w (s.held i) data (s.conns i).beResp ioBuf = (t.held i, resp, .complete))
    (hcell : t.cell i = (s.cell i).upd fun c =>
      (c.landed .beRecv).gotData resp (usedUp (s.held i) (t.held i) data)) :
    LandedTo w .beRecv i s (backendAsyncComplete w env (drainQueue w env) t i) := by
  have hopen : (s.conns i).Open := hs.toSound.open_of_be hbe
  have hconn : t.conns i = ((s.conns i).landed .beRecv).gotData resp
    (usedUp (s.held i) (t.held i) data) := congrArg Cell.conn hcell
  obtain ⟨hstateT, hsideT, hlogT⟩ :=
    gotData_fields (s.conns i) resp (usedUp (s.held i) (t.held i) data)
  rw [← hconn] at hstateT hsideT hlogT
  have hopenT : (t.conns i).Open := ⟨hstateT ▸ hopen.1, hstateT ▸ hopen.2⟩
  simp only [Conn.side, Prod.mk.injEq] at hsideT
  obtain ⟨hbeT, hwaitT, hdrainT, hqueueT⟩ := hsideT
  have ht : t.Sound := hs.toSound.frame hlocal.toFrame fun hnot => absurd hopenT hnot
  have hheld : t.held i = t.backends b := by
    unfold Server.held
    rw [hbeT, hbe]
  unfold backendAsyncComplete
  rw [hbeT, hbe]
  dsimp only
  rw [← hheld]
  obtain ⟨hslotX, hbeX, hwaitX, hdrainX, hqueueX⟩ :=
    deliverResult_facts (w := w) (t.cell i) (t.held i).pipeSt.sawError
  have hextX := ext_deliverResult (w := w) (t.cell i) (t.held i).pipeSt.sawError
  have hcellX := cell_onCell (f := fun c => deliverResult w c (t.held i).pipeSt.sawError) hslotX
  have hokX : (t.onCell i fun c => deliverResult w c (t.held i).pipeSt.sawError).2 =
      (deliverResult w (t.cell i) (t.held i).pipeSt.sawError).2 := rfl
  have hbesideX := Beside.onCell (i := i) t fun c => deliverResult w c (t.held i).pipeSt.sawError
  have hringX : (t.onCell i fun c => deliverResult w c (t.held i).pipeSt.sawError).1.waiters =
      t.waiters := rfl
  generalize t.onCell i (fun c => deliverResult w c (t.held i).pipeSt.sawError) = q
    at hcellX hokX hbesideX hringX ⊢
  obtain ⟨v, ok⟩ := q
  dsimp only at hcellX hokX hbesideX hringX
  have hsend : deliverResult w (t.cell i) (t.held i).pipeSt.sawError = (v.cell i, ok) :=
    Prod.ext hcellX.symm hokX.symm
  rw [hsend] at hbeX hwaitX hdrainX hqueueX hextX
  rw [hcell] at hsend
  have hlocalX : Local w i s v := hlocal.trans (hbesideX.local ht.toOwned hbeX)
  have hheldX : v.held i = t.held i := hbesideX.held hbeX
  have hopenV : (v.conns i).Open := hextX.keeps.open hopenT
  have hdrainV : (v.conns i).drainingQueue = false :=
    (hdrainX.trans hdrainT).trans (hs.undrained i)
  have hne : (s.cell i).conn.be ≠ none := by
    change (s.conns i).be ≠ none
    rw [hbe]
    rintro ⟨⟩
  cases ok with
  | false =>
      have hland : LandTurn w .beRecv i s v := by
        refine ⟨hlocalX.toFrame, ?_, hlocalX.busy, hringX.trans hring⟩
        rw [hheldX]
        exact .completeCut hne hrecv hsend
      have hkeep : (v.conns i).be ≠ none := by
        rw [show (v.conns i).be = (t.conns i).be from hbeX, hbeT, hbe]
        rintro ⟨⟩
      refine ⟨⟨v, hland, Or.inr ⟨rfl, fun h => absurd h hkeep⟩⟩,
        hland.good hs hdrainV (.refl v) ?_⟩
      refine (hs.rested i).of_eq (hwaitX.trans hwaitT) ?_ fun o ho => hextX.log_mem (hlogT o ho)
      exact hqueueX.imp_left fun h => h.trans hqueueT
  | true =>
      have hv : v.Sound := hs.toSound.frame hlocalX.toFrame fun hnot => absurd hopenV hnot
      have hgive := (Beside.refl (i := i) (finishBackend env v i false)).trans
        (.updConn (finishBackend env v i false) fun c => { c with be := none })
      have htwice : ((finishBackend env v i false).updConn i fun c => { c with be := none }).updConn i
          Conn.release = (finishBackend env v i false).updConn i fun c =>
            Conn.release { c with be := none } := updConn_updConn ..
      have hbesideY := Beside.updConn (i := i) (finishBackend env v i false)
        fun c => Conn.release { c with be := none }
      obtain ⟨hsame, hringF⟩ := cell_finishBackend env v i false
      have hcellY : ((finishBackend env v i false).updConn i fun c =>
          Conn.release { c with be := none }).cell i = (v.cell i).upd fun c =>
            Conn.release { c with be := none } := by
        rw [cell_updConn, hsame]
      have hringY : ((finishBackend env v i false).updConn i fun c =>
          Conn.release { c with be := none }).waiters = v.waiters := hringF
      have hconnY : ((finishBackend env v i false).updConn i fun c =>
          Conn.release { c with be := none }).conns i = Conn.release { v.conns i with be := none } := by
        rw [conns_updConn, conns_finishBackend]
      rw [← htwice] at hbesideY hcellY hringY hconnY
      dsimp only
      generalize (finishBackend env v i false).updConn i (fun c => { c with be := none }) = z
        at hbesideY hcellY hringY hconnY ⊢
      generalize hy : z.updConn i Conn.release = y at hbesideY hcellY hringY hconnY
      have hfieldsY : (y.conns i).be = none ∧ (y.conns i).beWait = .idle ∧
          (y.conns i).drainingQueue = (v.conns i).drainingQueue ∧
          (y.conns i).state = (v.conns i).state := by
        rw [hconnY]
        exact ⟨rfl, rfl, rfl, rfl⟩
      obtain ⟨hnone, hidleY, hdrainY, hstateY⟩ := hfieldsY
      have hlocalY := hlocalX.trans (local_finish env hv false hbesideY hnone)
      have hland : LandTurn w .beRecv i s y := by
        refine ⟨hlocalY.toFrame, ?_, hlocalY.busy, hringY.trans (hringX.trans hring)⟩
        rw [held_none hnone, hcellY]
        exact .complete hne hrecv hsend
      exact (released_landed env hs hbe hy hland ⟨hstateY ▸ hopenV.1, hstateY ▸ hopenV.2⟩
        (hdrainY.trans hdrainV) hidleY hnone).1

/-! ### The handlers -/

/-- A request to the backend that is prepared, or not, leaves the rest of the connection. -/
theorem submitBeRecv_facts (f : Nat → BackendConn) (c : Cell) :
    (submitBeRecv f c).1.slot = c.slot ∧ (submitBeRecv f c).1.conn.be = c.conn.be ∧
      ((submitBeRecv f c).1.conn.beWait = .reading ∨
        (submitBeRecv f c).1.conn.beWait = c.conn.beWait) ∧
      (submitBeRecv f c).1.conn.drainingQueue = c.conn.drainingQueue ∧
      (submitBeRecv f c).1.conn.feQ = c.conn.feQ := by
  unfold submitBeRecv
  split
  · exact ⟨rfl, rfl, Or.inr rfl, rfl, rfl⟩
  · split
    · exact ⟨rfl, rfl, Or.inr rfl, rfl, rfl⟩
    · rename_i b hbe hpending
      rcases prep_cases c { c.request .beRecv with fd := (f b).fd, session := (f b).session }
        (fun conn => { conn with beRecvPending := true, beWait := .reading }) with h | h
      · rw [h]
        exact ⟨rfl, rfl, Or.inl rfl, rfl, rfl⟩
      · rw [h]
        exact ⟨rfl, rfl, Or.inr rfl, rfl, rfl⟩

theorem submitBeSend_facts (f : Nat → BackendConn) (c : Cell) :
    (submitBeSend f c).1.slot = c.slot ∧ (submitBeSend f c).1.conn.be = c.conn.be ∧
      (((submitBeSend f c).1.conn.beWait = .sending ∨ (submitBeSend f c).1.conn.beWait = .reading) ∨
        (submitBeSend f c).1.conn.beWait = c.conn.beWait) ∧
      (submitBeSend f c).1.conn.drainingQueue = c.conn.drainingQueue ∧
      (submitBeSend f c).1.conn.feQ = c.conn.feQ := by
  unfold submitBeSend
  split
  · exact ⟨rfl, rfl, Or.inr rfl, rfl, rfl⟩
  · split
    · exact ⟨rfl, rfl, Or.inr rfl, rfl, rfl⟩
    · split
      · obtain ⟨hslot, hbe, hwait, hdrain, hqueue⟩ :=
          submitBeRecv_facts f { c with conn := { c.conn with beWait := .reading } }
        refine ⟨hslot, hbe, Or.inl (Or.inr ?_), hdrain, hqueue⟩
        rcases hwait with hw | hw
        · exact hw
        · exact hw
      · rename_i b hbe hpending x off len hptr
        rcases prep_cases c { c.request .beSend with
          fd := (f b).fd, backend := some b, off := off, len := len, session := (f b).session }
          (fun conn => { conn with beSendPending := true, beWait := .sending }) with h | h
        · rw [h]
          exact ⟨rfl, rfl, Or.inl (Or.inl rfl), rfl, rfl⟩
        · rw [h]
          exact ⟨rfl, rfl, Or.inr rfl, rfl, rfl⟩

/-- A request to the backend is pending, unless there was no entry for it. -/
theorem submitBeRecv_requested (f : Nat → BackendConn) {c : Cell} (hbe : c.conn.be ≠ none) :
    (submitBeRecv f c).1.conn.beRecvPending = true ∨ .noSqe ∈ (submitBeRecv f c).1.conn.log := by
  unfold submitBeRecv
  split
  · rename_i hnone
    exact absurd hnone hbe
  · rename_i b _
    split
    · rename_i hpending
      exact Or.inl hpending
    · rcases prep_cases c { c.request .beRecv with fd := (f b).fd, session := (f b).session }
        (fun conn => { conn with beRecvPending := true, beWait := .reading }) with h | h
      · rw [h]
        exact Or.inl rfl
      · rw [h]
        exact Or.inr (List.mem_append_right _ List.mem_cons_self)

theorem submitBeSend_requested (f : Nat → BackendConn) {c : Cell} (hbe : c.conn.be ≠ none) :
    (submitBeSend f c).1.conn.beSendPending = true ∨ (submitBeSend f c).1.conn.beRecvPending = true ∨
      .noSqe ∈ (submitBeSend f c).1.conn.log := by
  unfold submitBeSend
  split
  · rename_i hnone
    exact absurd hnone hbe
  · rename_i b _
    split
    · rename_i hpending
      exact Or.inl hpending
    · split
      · exact Or.inr (submitBeRecv_requested f (c := { c with conn := { c.conn with
          beWait := .reading } }) hbe)
      · rename_i off len _
        rcases prep_cases c { c.request .beSend with
          fd := (f b).fd, backend := some b, off := off, len := len, session := (f b).session }
          (fun conn => { conn with beSendPending := true, beWait := .sending }) with h | h
        · rw [h]
          exact Or.inl rfl
        · rw [h]
          exact Or.inr (Or.inr (List.mem_append_right _ List.mem_cons_self))

theorem submitBeRecv_congr {f g : Nat → BackendConn} {c : Cell} {b : Nat} (hbe : c.conn.be = some b)
    (h : f b = g b) : submitBeRecv f c = submitBeRecv g c := by
  unfold submitBeRecv
  rw [hbe]
  dsimp only
  rw [h]

/-- The connection goes on with its pipeline. -/
theorem goes_on (hs : s.Good none) {b : Nat} (hbe : (s.conns i).be = some b)
    (hlocal : Local w i s t) (hring : t.waiters = s.waiters) {conn : Conn}
    (hcell : t.cell i = { s.cell i with conn := conn }) (hside : conn.side = (s.conns i).side)
    (hlog : ∀ o ∈ (s.conns i).log, o ∈ conn.log) {f : Cell → Cell × Bool}
    (hslot : (f (t.cell i)).1.slot = i) (hkeep : (f (t.cell i)).1.conn.be = conn.be)
    (hwait : (f (t.cell i)).1.conn.beWait ≠ .idle ∨ (f (t.cell i)).1.conn.beWait = conn.beWait)
    (hdrain : (f (t.cell i)).1.conn.drainingQueue = conn.drainingQueue)
    (hqueue : (f (t.cell i)).1.conn.feQ = conn.feQ)
    (hmore : ∀ o ∈ conn.log, o ∈ (f (t.cell i)).1.conn.log)
    (hgo : (f (t.cell i)).1.conn.beSendPending = true ∨ (f (t.cell i)).1.conn.beRecvPending = true ∨
      .noSqe ∈ (f (t.cell i)).1.conn.log)
    (hland : Land w op (s.cell i) (s.held i) (f (t.cell i)).1 (t.held i)) :
    LandedTo w op i s (t.onCell i f) := by
  have hconn : t.conns i = conn := congrArg Cell.conn hcell
  simp only [Conn.side, Prod.mk.injEq] at hside
  obtain ⟨hbeT, hwaitT, hdrainT, hqueueT⟩ := hside
  have hopen : (s.conns i).Open := hs.toSound.open_of_be hbe
  have hbeside := Beside.onCell (i := i) t f
  have hafter := conns_onCell t i f
  have hbeU : ((t.onCell i f).1.conns i).be = (t.conns i).be := by
    rw [hafter, hconn, hkeep]
  have hall := hlocal.trans (hbeside.local (hs.toOwned.frame hlocal.toFrame) hbeU)
  have hturn : LandTurn w op i s (t.onCell i f).1 := by
    refine ⟨hall.toFrame, ?_, hall.busy, hring⟩
    rw [cell_onCell hslot, hbeside.held hbeU]
    exact hland
  have hdrainU : ((t.onCell i f).1.conns i).drainingQueue = false := by
    rw [hafter, hdrain, hdrainT]
    exact hs.undrained i
  have hsome : ((t.onCell i f).1.conns i).be ≠ none := by
    rw [hbeU, hconn, hbeT, hbe]
    rintro ⟨⟩
  refine ⟨⟨_, hturn, Or.inl ⟨⟨fun h => absurd h hsome, fun _ => ?_⟩, .refl,
    fun h => absurd h hsome⟩⟩, hturn.good hs hdrainU (.refl _) ?_⟩
  · rw [hafter]
    exact hgo
  · rw [hafter]
    rcases hwait with hw | hw
    · exact Or.inl hw
    · exact (hs.rested i).of_eq (hw.trans hwaitT) (Or.inl (hqueue.trans hqueueT))
        fun o ho => hmore o (hlog o ho)

/-- The backend of the connection is updated, on behalf of the connection. -/
theorem local_flag (hs : s.Good none) {b : Nat} (hbe : (s.conns i).be = some b) {f : Conn → Conn}
    (hsame : (f (s.conns i)).be = (s.conns i).be) {c : BackendConn}
    (hfd : c.fd = (s.held i).fd) (halive : c.alive = (s.held i).alive)
    (hbusy : c.busy = (s.held i).busy) :
    Local w i s ((s.updConn i f).updPool fun p => p.setConn b c) ∧
      ((s.updConn i f).updPool fun p => p.setConn b c).held i = c := by
  have hheld : s.held i = s.backends b := by
    unfold Server.held
    rw [hbe]
  rw [hheld] at hfd halive hbusy
  have hconn : ((s.updConn i f).updPool fun p => p.setConn b c).conns i = f (s.conns i) :=
    conns_updConn ..
  have hbeside : Beside i (s.updPool fun p => p.setConn b c)
      ((s.updConn i f).updPool fun p => p.setConn b c) :=
    ⟨fun _ hj => Function.update_of_ne hj .., fun _ _ => Iff.rfl, rfl⟩
  obtain ⟨p, hpool, -⟩ := hs.toOwned.pool hbe
  refine ⟨local_backend hs.toSound hbe hfd halive hbusy hbeside (by rw [hconn, hsame, hbe]), ?_⟩
  unfold Server.held
  rw [hconn, hsame, hbe]
  dsimp only
  unfold Server.backends
  have hpool' : ((s.updConn i f).updPool fun p => p.setConn b c).pool = some (p.setConn b c) := by
    change s.pool.map _ = _
    rw [hpool]
    rfl
  rw [hpool']
  exact Pool.setConn_self ..

theorem onBeSendCqe_eq (s : Server) (i : Slot) (cqe : Cqe) :
    onBeSendCqe w env (drainQueue w env) s i cqe = match cqe with
      | .sent n => (match ((s.updConn i fun c => c.landed .beSend).conns i).be with
        | none => s.updConn i fun c => c.landed .beSend
        | some b => (s.updConn i fun c => c.landed .beSend).updPool fun p =>
            p.setConn b (asyncSendAdvance (p.conns b) n)).onCell i (submitBeSend (match
              ((s.updConn i fun c => c.landed .beSend).conns i).be with
        | none => s.updConn i fun c => c.landed .beSend
        | some b => (s.updConn i fun c => c.landed .beSend).updPool fun p =>
            p.setConn b (asyncSendAdvance (p.conns b) n)).backends)
      | .failed true => (s.updConn i fun c => c.landed .beSend).onCell i
        (submitBeSend (s.updConn i fun c => c.landed .beSend).backends)
      | _ => backendAsyncFail w env (drainQueue w env) (s.updConn i fun c => c.landed .beSend) i := rfl

theorem onBeSendCqe_spec (hs : s.Good none) {b : Nat} (hbe : (s.conns i).be = some b) (cqe : Cqe) :
    LandedTo w .beSend i s (onBeSendCqe w env (drainQueue w env) s i cqe) ∧
      (w.Appends → s.Fails w i .beSend cqe →
        (s.conns i).TellsLoss ((onBeSendCqe w env (drainQueue w env) s i cqe).1.conns i)) := by
  have hflag : Local w i s (s.updConn i fun c => c.landed .beSend) :=
    (Beside.updConn s _).local hs.toOwned (by rw [conns_updConn]; rfl)
  have hheldF : (s.updConn i fun c => c.landed .beSend).held i = s.held i :=
    (Beside.updConn s _).held (by rw [conns_updConn]; rfl)
  have hcellF : (s.updConn i fun c => c.landed .beSend).cell i =
      (s.cell i).upd fun c => c.landed .beSend := cell_updConn ..
  have hbeF : ((s.updConn i fun c => c.landed .beSend).conns i).be = some b := by
    rw [conns_updConn]
    exact hbe
  have hne : (s.cell i).conn.be ≠ none := by
    change (s.conns i).be ≠ none
    rw [hbe]
    rintro ⟨⟩
  have hcellL : (s.updConn i fun c => c.landed .beSend).cell i =
      (s.cell i).upd fun c => { c.landed .beSend with beResp := (s.conns i).beResp } := hcellF
  have hlost := backendAsyncFail_spec env hs hbe hflag rfl hcellL
  -- the next request to the backend, whose state is `h` by then
  have hnext : ∀ t : Server, Local w i s t → t.waiters = s.waiters →
      t.cell i = (s.cell i).upd (fun c => c.landed .beSend) →
      Land w .beSend (s.cell i) (s.held i)
        (submitBeSend (fun _ => t.held i) ((s.cell i).upd fun c => c.landed .beSend)).1 (t.held i) →
      LandedTo w .beSend i s (t.onCell i (submitBeSend t.backends)) := by
    intro t hlocal hring hcell hland
    have hbeT : (t.cell i).conn.be = some b := by
      rw [hcell]
      exact hbe
    have hheld : t.held i = t.backends b := by
      unfold Server.held
      rw [show (t.conns i).be = some b from hbeT]
    have hcongr : submitBeSend t.backends (t.cell i) = submitBeSend (fun _ => t.held i) (t.cell i) :=
      submitBeSend_congr hbeT hheld.symm
    obtain ⟨hslot, hkeep, hwait, hdrain, hqueue⟩ := submitBeSend_facts (fun _ => t.held i) (t.cell i)
    have hgrows := grows_submitBeSend (w := w) (fun _ => t.held i) (t.cell i)
    have hgo := submitBeSend_requested (fun _ => t.held i) (c := t.cell i) (by rw [hbeT]; rintro ⟨⟩)
    rw [← hcongr] at hslot hkeep hwait hdrain hqueue hgrows hgo
    rw [← hcell, ← hcongr] at hland
    have hconn : (t.cell i).conn = (s.conns i).landed .beSend := congrArg Cell.conn hcell
    rw [hconn] at hkeep hwait hdrain hqueue
    obtain ⟨-, -, -, hlog, hside⟩ := landed_fields (s.conns i) .beSend
    refine goes_on hs hbe hlocal hring (hcell.trans rfl) hside (fun o ho => hlog ▸ ho) hslot hkeep ?_
      hdrain hqueue (fun o ho => ?_) hgo hland
    · refine hwait.imp_left fun hbusy hidle => ?_
      rcases hbusy with h | h
      · cases h.symm.trans hidle
      · cases h.symm.trans hidle
    exact hgrows.log_mem (by rw [hconn]; exact ho)
  rw [onBeSendCqe_eq]
  rw [hbeF]
  dsimp only
  split
  · rename_i n
    obtain ⟨p, hpool, hback⟩ := hs.toOwned.pool hbe
    have hheld : s.held i = p.conns b := by
      unfold Server.held
      rw [hbe]
      exact hback
    have hpush : ((s.updConn i fun c => c.landed .beSend).updPool fun p =>
        p.setConn b (asyncSendAdvance (p.conns b) n)) = (s.updConn i fun c => c.landed .beSend).updPool
          fun p => p.setConn b (asyncSendAdvance (s.held i) n) := by
      have hsame : (s.updConn i fun c => c.landed .beSend).pool = some p := hpool
      unfold Server.updPool
      rw [hsame, hheld]
      rfl
    obtain ⟨hlocal, hheldT⟩ := local_flag (w := w) (f := fun c => c.landed .beSend) hs hbe rfl
      (c := asyncSendAdvance (s.held i) n) rfl rfl rfl
    rw [hpush]
    have hcellT : ((s.updConn i fun c => c.landed .beSend).updPool fun p =>
        p.setConn b (asyncSendAdvance (s.held i) n)).cell i =
          (s.cell i).upd fun c => c.landed .beSend := hcellF
    refine ⟨hnext _ hlocal rfl hcellT ?_, fun _ hfails => absurd hfails id⟩
    rw [hheldT]
    exact .sent n hne
  · refine ⟨hnext _ hflag rfl hcellF ?_, fun _ hfails => absurd hfails nofun⟩
    rw [hheldF]
    exact .resend hne
  · exact ⟨hlost.1, fun hw _ => hlost.2 hw⟩

theorem onBeRecvCqe_eq (s : Server) (i : Slot) (cqe : Cqe) :
    onBeRecvCqe w env (drainQueue w env) s i cqe =
      match cqe, ((s.updConn i fun c => c.landed .beRecv).conns i).be with
      | .data (x :: bytes), some b =>
          match asyncOnRecv w ((s.updConn i fun c => c.landed .beRecv).backends b) (x :: bytes)
              ((s.updConn i fun c => c.landed .beRecv).conns i).beResp ioBuf with
          | (after, resp, exit) =>
            match exit with
            | .failed => backendAsyncFail w env (drainQueue w env)
                (((s.updConn i fun c => c.landed .beRecv).updPool fun p => p.setConn b after).updConn i
                  fun c => { c with beResp := resp }) i
            | .complete => backendAsyncComplete w env (drainQueue w env)
                (((s.updConn i fun c => c.landed .beRecv).updPool fun p => p.setConn b after).updConn i
                  fun c => Conn.gotData c resp (usedUp ((s.updConn i fun c =>
                    c.landed .beRecv).backends b) after (x :: bytes))) i
            | .more =>
                (((s.updConn i fun c => c.landed .beRecv).updPool fun p => p.setConn b after).updConn i
                  fun c => Conn.gotData c resp (usedUp ((s.updConn i fun c =>
                    c.landed .beRecv).backends b) after (x :: bytes))).onCell i (submitBeRecv
                      ((s.updConn i fun c => c.landed .beRecv).updPool fun p =>
                        p.setConn b after).backends)
      | _, _ => backendAsyncFail w env (drainQueue w env) (s.updConn i fun c => c.landed .beRecv) i := rfl

theorem onBeRecvCqe_spec (hs : s.Good none) {b : Nat} (hbe : (s.conns i).be = some b) (cqe : Cqe) :
    LandedTo w .beRecv i s (onBeRecvCqe w env (drainQueue w env) s i cqe) ∧
      (w.Appends → s.Fails w i .beRecv cqe →
        (s.conns i).TellsLoss ((onBeRecvCqe w env (drainQueue w env) s i cqe).1.conns i)) := by
  have hflag : Local w i s (s.updConn i fun c => c.landed .beRecv) :=
    (Beside.updConn s _).local hs.toOwned (by rw [conns_updConn]; rfl)
  have hcellF : (s.updConn i fun c => c.landed .beRecv).cell i =
      (s.cell i).upd fun c => c.landed .beRecv := cell_updConn ..
  have hbeF : ((s.updConn i fun c => c.landed .beRecv).conns i).be = some b := by
    rw [conns_updConn]
    exact hbe
  have hrespF : ((s.updConn i fun c => c.landed .beRecv).conns i).beResp = (s.conns i).beResp := by
    rw [conns_updConn]
    rfl
  have hne : (s.cell i).conn.be ≠ none := by
    change (s.conns i).be ≠ none
    rw [hbe]
    rintro ⟨⟩
  have hcellL : (s.updConn i fun c => c.landed .beRecv).cell i =
      (s.cell i).upd fun c => { c.landed .beRecv with beResp := (s.conns i).beResp } := hcellF
  have hlost := backendAsyncFail_spec env hs hbe hflag rfl hcellL
  have hheld : (s.updConn i fun c => c.landed .beRecv).backends b = s.held i := by
    unfold Server.held
    rw [hbe]
    rfl
  rw [onBeRecvCqe_eq]
  rw [hbeF, hrespF]
  split
  · rename_i x bytes b' heq
    cases heq
    rw [hheld]
    obtain ⟨⟨acc, len, st, hafter⟩, -⟩ := asyncOnRecv_conn w (s.held i) (x :: bytes)
      (s.conns i).beResp ioBuf
    generalize hrecv : asyncOnRecv w (s.held i) (x :: bytes) (s.conns i).beResp ioBuf = r
      at hafter ⊢
    obtain ⟨after, resp, exit⟩ := r
    have hgoes : exit ≠ .failed → ¬ s.Fails w i .beRecv (.data (x :: bytes)) := by
      change exit ≠ .failed →
        ¬ (asyncOnRecv w (s.held i) (x :: bytes) (s.conns i).beResp ioBuf).2.2 = .failed
      rw [hrecv]
      exact id
    dsimp only at hafter ⊢
    obtain ⟨hlocal, hheldT⟩ := local_flag (w := w) (f := fun c => c.landed .beRecv) hs hbe rfl
      (c := after) (by rw [hafter]) (by rw [hafter]) (by rw [hafter])
    have hcellT : ((s.updConn i fun c => c.landed .beRecv).updPool fun p => p.setConn b after).cell i =
        (s.cell i).upd fun c => c.landed .beRecv := hcellF
    have hringT : ((s.updConn i fun c => c.landed .beRecv).updPool fun p => p.setConn b after).waiters =
        s.waiters := rfl
    generalize (s.updConn i fun c => c.landed .beRecv).updPool (fun p => p.setConn b after) = t
      at hlocal hheldT hcellT hringT ⊢
    have hownT := hs.toOwned.frame hlocal.toFrame
    -- the connection takes the response, or what a failed receive left of it
    have hnext : ∀ f : Conn → Conn, (∀ c : Conn, (f c).be = c.be) →
        Local w i s (t.updConn i f) ∧ (t.updConn i f).held i = after ∧
          (t.updConn i f).cell i = (s.cell i).upd fun c => f (c.landed .beRecv) := by
      intro f hf
      have hbeside : Beside i t (t.updConn i f) := .updConn t f
      have hbeT : ((t.updConn i f).conns i).be = (t.conns i).be := by
        rw [conns_updConn, hf]
      refine ⟨hlocal.trans (hbeside.local hownT hbeT), (hbeside.held hbeT).trans hheldT, ?_⟩
      rw [cell_updConn, hcellT]
      rfl
    split
    · obtain ⟨hlocalU, -, hcellU⟩ := hnext (fun c => { c with beResp := resp }) fun _ => rfl
      obtain ⟨hlanded, htells⟩ := backendAsyncFail_spec env hs hbe hlocalU hringT hcellU
      exact ⟨hlanded, fun hw _ => htells hw⟩
    · obtain ⟨hlocalU, hheldU, hcellU⟩ := hnext
        (fun c => c.gotData resp (usedUp (s.held i) after (x :: bytes))) fun _ => rfl
      have hringU : (t.updConn i fun c => c.gotData resp (usedUp (s.held i) after
          (x :: bytes))).waiters = s.waiters := hringT
      generalize t.updConn i (fun c => c.gotData resp (usedUp (s.held i) after (x :: bytes))) = u
        at hlocalU hheldU hcellU hringU ⊢
      have hnot := hgoes nofun
      rw [← hheldU] at hrecv hcellU
      exact ⟨backendAsyncComplete_spec env hs hbe hlocalU hringU hrecv hcellU,
        fun _ hfails => absurd hfails hnot⟩
    · obtain ⟨hlocalU, hheldU, hcellU⟩ := hnext
        (fun c => c.gotData resp (usedUp (s.held i) after (x :: bytes))) fun _ => rfl
      have hringU : (t.updConn i fun c => c.gotData resp (usedUp (s.held i) after
          (x :: bytes))).waiters = s.waiters := hringT
      have hback : t.backends = (t.updConn i fun c => c.gotData resp (usedUp (s.held i) after
          (x :: bytes))).backends := rfl
      rw [hback]
      generalize t.updConn i (fun c => c.gotData resp (usedUp (s.held i) after (x :: bytes))) = u
        at hlocalU hheldU hcellU hringU ⊢
      have hbeU : (u.cell i).conn.be = some b := by
        rw [hcellU]
        exact hbe
      have hheldB : u.held i = u.backends b := by
        unfold Server.held
        rw [show (u.conns i).be = some b from hbeU]
      have hcongr : submitBeRecv u.backends (u.cell i) = submitBeRecv (fun _ => u.held i) (u.cell i) :=
        submitBeRecv_congr hbeU hheldB.symm
      obtain ⟨hslot, hkeep, hwait, hdrain, hqueue⟩ := submitBeRecv_facts (fun _ => u.held i) (u.cell i)
      have hgrows := grows_submitBeRecv (w := w) (fun _ => u.held i) (u.cell i)
      have hconn : (u.cell i).conn = ((s.conns i).landed .beRecv).gotData resp
        (usedUp (s.held i) after (x :: bytes)) := congrArg Cell.conn hcellU
      obtain ⟨-, hside, hlog⟩ := gotData_fields (s.conns i) resp (usedUp (s.held i) after (x :: bytes))
      have hland : Land w .beRecv (s.cell i) (s.held i)
          (submitBeRecv (fun _ => u.held i) (u.cell i)).1 (u.held i) := by
        rw [hcellU, hheldU]
        exact .more hne hrecv
      have hgo := submitBeRecv_requested (fun _ => u.held i) (c := u.cell i) (by rw [hbeU]; rintro ⟨⟩)
      rw [← hcongr] at hslot hkeep hwait hdrain hqueue hgrows hland hgo
      rw [hconn] at hkeep hwait hdrain hqueue
      refine ⟨goes_on hs hbe hlocalU hringU (hcellU.trans rfl) hside hlog hslot hkeep ?_ hdrain hqueue
        (fun o ho => hgrows.log_mem (by rw [hconn]; exact ho)) (Or.inr hgo) hland,
        fun _ hfails => absurd hfails (hgoes nofun)⟩
      exact hwait.imp_left fun h hidle => by cases h.symm.trans hidle
  · exact ⟨hlost.1, fun hw _ => hlost.2 hw⟩

end
