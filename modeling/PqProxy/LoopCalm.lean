import PqProxy.LoopRoom

/-! Every function of the event loop keeps to the bounds on the submission queue, so that no request is
ever left without an entry, and there is always one accept. -/

section

variable {w : Pqwire} {env : Env} {drain : Server → Slot → Server × Bool} {i j : Slot} {k : Nat} {tls : Bool}
  {s t u : Server}

/-- A call of the pool for a connection concerns neither connections nor entries. -/
theorem roomed_afterCall {x : Option Slot} (hs : s.Roomy) (p : Pool) : Roomed x s (s.afterCall i p) :=
  .of_eq hs rfl rfl

theorem outline_checkingOut (c : Conn) : c.checkingOut.outline = c.outline :=
  outline_note c rfl

theorem outline_begin (c : Conn) (b : Nat) : (c.begin b).outline = c.outline :=
  outline_note { c.emptyResp with be := some b, pipe := c.pipe + 1 } rfl

variable (w env drain) in
/-- The first request of a pipeline always finds an entry. -/
theorem startPipeline_roomed (hs : s.Roomy) (hzero : entriesOf Op.isBe s.sq i = 0) (bind : PqBind)
    (mark : Conn → Conn) (hmark : ∀ c, (mark c).outline = c.outline) :
    Roomed (some i) s (startPipeline w env drain s i bind mark).1 ∧
      ((startPipeline w env drain s i bind mark).2 = false →
        entriesOf Op.isBe (startPipeline w env drain s i bind mark).1.sq i = 0) := by
  unfold startPipeline
  split
  · exact ⟨.refl hs, fun _ => hzero⟩
  · rename_i p _
    have hcheck : Roomed (some i) s (s.updConn i Conn.checkingOut) :=
      .updConn hs (outline_checkingOut _)
    have hsq : (s.updConn i Conn.checkingOut).sq = s.sq := rfl
    dsimp only
    generalize s.updConn i Conn.checkingOut = t at hcheck hsq ⊢
    split
    · rename_i q _
      exact ⟨hcheck.trans (roomed_afterCall hcheck.room q), fun _ => by rwa [← hsq] at hzero⟩
    · rename_i q b _
      have hcall := hcheck.trans (roomed_afterCall (i := i) hcheck.room q)
      have hbegin := hcall.trans (.updConn (i := i) (f := fun c => mark (c.begin b)) hcall.room
        ((hmark _).trans (outline_begin _ b)))
      have hzero' : entriesOf Op.isBe ((t.afterCall i q).updConn i fun c => mark (c.begin b)).sq i = 0 := by
        rwa [← hsq] at hzero
      generalize (t.afterCall i q).updConn i (fun c => mark (c.begin b)) = u at hbegin hzero'
      obtain ⟨hasks, hok⟩ := asks_submitBeSend q.conns (c := u.cell i) (hbegin.room.left (Or.inr hzero'))
      have hsend := hbegin.trans (.asks (f := submitBeSend q.conns) hbegin.room hzero' hasks)
      have hfirst : (u.onCell i (submitBeSend q.conns)).2 = true := hok
      generalize u.onCell i (submitBeSend q.conns) = r at hsend hfirst
      obtain ⟨v, _ | _⟩ := r
      · cases hfirst
      · exact ⟨hsend, fun h => Bool.noConfusion h⟩

variable (w env drain) in
theorem startAsyncBindFromQueue_roomed (hs : s.Roomy) (hzero : entriesOf Op.isBe s.sq i = 0)
    (it : BindItem) : Roomed (some i) s (startAsyncBindFromQueue w env drain s i it).1 ∧
      ((startAsyncBindFromQueue w env drain s i it).2 = false →
        entriesOf Op.isBe (startAsyncBindFromQueue w env drain s i it).1.sq i = 0) := by
  unfold startAsyncBindFromQueue
  split
  · exact ⟨.refl hs, fun _ => hzero⟩
  · exact startPipeline_roomed w env drain hs hzero _ _ fun _ => rfl

theorem blockingBind_roomed {x : Option Slot} (hs : s.Roomy) (bind : PqBind) :
    Roomed x s (blockingBind w env s i bind).1 := by
  unfold blockingBind
  split
  · exact .onConn hs (outline_answerBind _ _ _)
  · rename_i p _
    split
    · exact .onConn hs (outline_answerBind _ _ _)
    · have hcheck : Roomed x s (s.updConn i Conn.checkingOut) := .updConn hs (outline_checkingOut _)
      dsimp only
      generalize s.updConn i Conn.checkingOut = t at hcheck ⊢
      generalize execBindEx w env p (t.conns i).cache bind (t.conns i).id ioBuf = r
      have hcall := hcheck.trans (roomed_afterCall (i := i) hcheck.room r.1)
      exact hcall.trans (.onConn hcall.room (outline_answerBind _ _ _))

theorem parkForBackend_roomed {x : Option Slot} (hs : s.Roomy) (hzero : entriesOf Op.isBe s.sq i = 0) :
    Roomed x s (parkForBackend s i).1 := by
  unfold parkForBackend
  split
  · exact .rests (f := fun c => { c with beWait := .idle }) hs rfl hzero
  · rename_i q _
    have hring : Roomed x s { s with waiters := q } := .of_eq hs rfl rfl
    exact hring.trans (.rests
      (f := fun c => { c.note (.parked (s.idleFor i)) with beWait := .waitingPool }) hring.room
      (shape_note (s.conns i) rfl) hzero)

theorem outline_binding (c : Conn) (bind : PqBind) : (c.binding w bind).outline = c.outline :=
  outline_note c rfl

theorem drainBind_roomed (hs : s.Roomy) (hzero : entriesOf Op.isBe s.sq i = 0) (it : BindItem) :
    Roomed (some i) s (drainBind w env drain s i it).1 := by
  have hnote : Roomed (some i) s (s.updConn i fun c => c.binding w (it.toBind w)) :=
    .updConn hs (outline_binding _ _)
  have hzero' : entriesOf Op.isBe (s.updConn i fun c => c.binding w (it.toBind w)).sq i = 0 := hzero
  unfold drainBind
  dsimp only
  generalize s.updConn i (fun c => c.binding w (it.toBind w)) = t at hnote hzero' ⊢
  split
  · have hstart := startAsyncBindFromQueue_roomed w env drain hnote.room hzero' it
    generalize startAsyncBindFromQueue w env drain t i it = r at hstart
    obtain ⟨u, _ | _⟩ := r
    · obtain ⟨hu, hzeroU⟩ := hstart
      specialize hzeroU rfl
      dsimp only at hu hzeroU ⊢
      have htu := hnote.trans hu
      split
      · split
        · rename_i c hput
          have hset := htu.trans (.setConn htu.room (outline_feqPutBack hput))
          exact hset.trans (parkForBackend_roomed hset.room hzeroU)
        · exact htu.trans (blockingBind_roomed htu.room _)
      · exact htu.trans (blockingBind_roomed htu.room _)
    · exact hnote.trans hstart.1
  · exact hnote.trans (blockingBind_roomed hnote.room _)

theorem drainQuery_roomed (hs : s.Roomy) (hlive : (s.conns i).state ≠ .free) (sql : Text) :
    Roomed (some i) s (drainQuery w env s i sql) := by
  unfold drainQuery
  split
  · exact .onConn hs (outline_replyThen _ _ _)
  · rename_i p _
    split
    · exact .onConn hs (outline_replyThen _ _ _)
    · have hcheck : Roomed (some i) s (s.updConn i Conn.checkingOut) :=
        .updConn hs (outline_checkingOut _)
      dsimp only
      generalize s.updConn i Conn.checkingOut = t at hcheck ⊢
      generalize execQuery w env p (t.conns i).id.group sql ioBuf = r
      have hcall := hcheck.trans (roomed_afterCall (i := i) hcheck.room r.1)
      exact hcall.trans (.onCell hcall.room (hcall.live hlive) (puts_answerQueuedQuery _ r.2))

/-- A live connection starts to close. -/
theorem roomed_closing {x : Option Slot} (hs : s.Roomy) (hlive : (s.conns i).state ≠ .free) :
    Roomed x s (s.updConn i fun c => { c with state := .closing }) := by
  refine .updConn hs ?_
  unfold Conn.outline
  rw [decide_eq_false hlive]
  rfl

variable (w env drain) in
theorem drainItem_roomed (hs : s.Roomy) (hlive : (s.conns i).state ≠ .free)
    (hzero : entriesOf Op.isBe s.sq i = 0) (it : FeqItem) :
    Roomed (some i) s (drainItem w env drain s i it).1 := by
  cases it with
  | none => exact .refl hs
  | parse msg => exact .updConn (f := fun c => answerParse w s.cfg c msg) hs (outline_answerParse _ _ _)
  | bind it => exact drainBind_roomed hs hzero it
  | execute => exact .onConn hs (outline_answerExecute _ _)
  | sync => exact .onCell hs hlive (puts_answerQueuedSync _)
  | query sql => exact drainQuery_roomed hs hlive sql
  | terminate => exact roomed_closing hs hlive

/-- A connection whose backend side is idle has no request to a backend among the entries. -/
theorem Server.Roomy.idle (hs : s.Roomy) (hlive : (s.conns i).state ≠ .free)
    (hidle : (s.conns i).beWait = .idle) : entriesOf Op.isBe s.sq i = 0 := by
  refine hs.be_eq_zero hlive ?_
  unfold Conn.engaged
  rw [hidle]
  rfl

variable (w env drain) in
theorem drainLoop_roomed (rounds : Nat) (hs : s.Roomy) (hlive : (s.conns i).state ≠ .free) :
    Roomed (some i) s (drainLoop w env drain rounds s i) := by
  induction rounds generalizing s with
  | zero => exact .refl hs
  | succ rounds ih =>
      unfold drainLoop
      split
      · exact .refl hs
      · rename_i hidle
        have hzero := hs.idle hlive (not_not.mp hidle)
        split
        · exact .refl hs
        · rename_i c it hpop
          have hset : Roomed (some i) s (s.setConn i c) := .setConn hs (outline_feqPop hpop)
          have hitem := hset.trans (drainItem_roomed w env drain hset.room
            (hset.live hlive) hzero it)
          generalize drainItem w env drain (s.setConn i c) i it = r at hitem
          obtain ⟨t, _ | _⟩ := r
          · exact hitem
          · exact hitem.trans (ih hitem.room (hitem.live hlive))

theorem drainWith_roomed (hs : s.Roomy) (hlive : (s.conns i).state ≠ .free) :
    Roomed (some i) s (drainWith w env drain s i).1 := by
  unfold drainWith
  split
  · exact .refl hs
  · have hmark : Roomed (some i) s (s.updConn i fun c => { c with drainingQueue := true }) := .updConn hs rfl
    have hloop := hmark.trans (drainLoop_roomed w env drain feQMax hmark.room
      (hmark.live hlive))
    dsimp only
    generalize drainLoop w env drain feQMax _ i = t at hloop ⊢
    have hclear := hloop.trans (.updConn (i := i) (f := fun c => { c with drainingQueue := false })
      hloop.room rfl)
    exact hclear.trans (.onCell hclear.room (hclear.live hlive) (puts_drainFrontendOut _))

/-- What is known of `drain_fe_queue` where it is called for other connections. -/
def Drains (drain : Server → Slot → Server × Bool) : Prop :=
  ∀ s i, s.Roomy → (s.conns i).state ≠ .free → Roomed none s (drain s i).1

theorem drainFeQueue_drains (depth : Nat) : Drains (drainFeQueue w env depth) := by
  intro s i hs hlive
  cases depth with
  | zero => exact .of_eq hs rfl rfl
  | succ depth => exact (drainWith_roomed hs hlive).any

theorem grant_roomed (hdrain : Drains drain) (hs : s.Roomy) (j : Slot) : Roomed none s (grant drain s j) := by
  unfold grant
  split
  · exact .refl hs
  · rename_i hgo
    push Not at hgo
    have hzero : entriesOf Op.isBe s.sq j = 0 := by
      refine hs.be_eq_zero hgo.1 ?_
      unfold Conn.engaged
      rw [hgo.2]
      rfl
    have hidle : Roomed none s (s.updConn j fun c => { c with beWait := .idle }) :=
      .rests (f := fun c => { c with beWait := .idle }) hs rfl hzero
    dsimp only
    generalize s.updConn j (fun c => { c with beWait := .idle }) = t at hidle ⊢
    split
    · exact hidle
    · have hpath := hidle.trans (hdrain t j hidle.room (hidle.live hgo.1))
      generalize drain t j = r at hpath
      obtain ⟨u, _ | _⟩ := r
      · exact hpath
      · dsimp only at hpath ⊢
        split
        · rename_i hagain
          have hzeroU := hpath.room.idle (hpath.live hgo.1) hagain.1
          exact hpath.trans (parkForBackend_roomed hpath.room hzeroU)
        · exact hpath

theorem grantWaiters_roomed (hdrain : Drains drain) (attempts : Nat) (hs : s.Roomy) :
    Roomed none s (grantWaiters drain attempts s) := by
  induction attempts generalizing s with
  | zero => exact .refl hs
  | succ attempts ih =>
      unfold grantWaiters
      split
      · exact .refl hs
      · rename_i j q _
        have hpop : Roomed none s { s with waiters := q } := .of_eq hs rfl rfl
        have hgrant := hpop.trans (grant_roomed hdrain hpop.room j)
        exact hgrant.trans (ih hgrant.room)

theorem fairScheduleWaiters_roomed (hdrain : Drains drain) (hs : s.Roomy) :
    Roomed none s (fairScheduleWaiters drain s) := by
  unfold fairScheduleWaiters
  split
  · exact .refl hs
  · exact grantWaiters_roomed hdrain _ hs

theorem afterBackendRelease_roomed (hdrain : Drains drain) (hs : s.Roomy)
    (hlive : (s.conns i).state ≠ .free) (hzero : entriesOf Op.isBe s.sq i = 0) :
    Roomed none s (afterBackendRelease drain s i).1 := by
  have hrelease : Roomed none s (s.updConn i Conn.release) :=
    .rests (f := Conn.release) hs rfl hzero
  unfold afterBackendRelease
  dsimp only
  generalize s.updConn i Conn.release = t at hrelease ⊢
  have hfair : Roomed none s (if t.fairSchedule = true ∧ 0 < t.waiters.ring.count then
      fairScheduleWaiters drain t else t) := by
    split
    · exact hrelease.trans (fairScheduleWaiters_roomed hdrain hrelease.room)
    · exact hrelease
  generalize (if t.fairSchedule = true ∧ 0 < t.waiters.ring.count then
      fairScheduleWaiters drain t else t) = u at hfair ⊢
  split
  · exact hfair.trans (hdrain u i hfair.room (hfair.live hlive))
  · exact hfair.trans (Roomed.onCell hfair.room (hfair.live hlive) (puts_drainFrontendOut _)).any

variable (env) in
theorem roomed_finishBackend {x : Option Slot} (hs : s.Roomy) (failed : Bool) :
    Roomed x s (finishBackend env s i failed) := by
  unfold finishBackend
  split
  · exact .refl hs
  · exact .of_eq hs rfl rfl

/-- A function of the output side prepares no request to a backend. -/
theorem be_onCell {f : Cell → Cell × Bool} (h : Puts (s.cell i) (f (s.cell i)).1)
    (hzero : entriesOf Op.isBe s.sq i = 0) : entriesOf Op.isBe (s.onCell i f).1.sq i = 0 :=
  (h.be_eq i).trans hzero

variable (env) in
theorem sq_finishBackend (failed : Bool) : (finishBackend env s i failed).sq = s.sq := by
  unfold finishBackend
  split <;> rfl

variable (env) in
theorem backendAsyncFail_roomed (hdrain : Drains drain) (hs : s.Roomy)
    (hlive : (s.conns i).state ≠ .free) (hzero : entriesOf Op.isBe s.sq i = 0) :
    Roomed none s (backendAsyncFail w env drain s i).1 := by
  have hfinish : Roomed none s (finishBackend env s i true) := roomed_finishBackend env hs true
  rw [← sq_finishBackend env (i := i) true] at hzero
  unfold backendAsyncFail
  generalize finishBackend env s i true = t at hfinish hzero ⊢
  have hreport := puts_reportLost (w := w) (t.cell i)
  have hsend := hfinish.trans (Roomed.onCell (f := reportLost w) hfinish.room (hfinish.live hlive) hreport).any
  have hzeroT := be_onCell (f := reportLost w) hreport hzero
  generalize t.onCell i (reportLost w) = r at hsend hzeroT
  obtain ⟨u, _ | _⟩ := r
  · exact hsend
  · exact hsend.trans (afterBackendRelease_roomed hdrain hsend.room (hsend.live hlive) hzeroT)

theorem backendAsyncComplete_roomed (hdrain : Drains drain) (hs : s.Roomy)
    (hlive : (s.conns i).state ≠ .free) (hzero : entriesOf Op.isBe s.sq i = 0) :
    Roomed none s (backendAsyncComplete w env drain s i).1 := by
  unfold backendAsyncComplete
  extract_lets hadError
  have hdeliver := puts_deliverResult (w := w) (s.cell i) hadError
  have hsend := (Roomed.onCell (f := fun c => deliverResult w c hadError) hs hlive hdeliver).any
  have hzeroT := be_onCell (f := fun c => deliverResult w c hadError) hdeliver hzero
  generalize s.onCell i (fun c => deliverResult w c hadError) = r at hsend hzeroT
  obtain ⟨t, _ | _⟩ := r
  · exact hsend
  · have hfinish := hsend.trans (roomed_finishBackend env (i := i) hsend.room false)
    have hclear := hfinish.trans (.updConn (i := i) (f := fun c => { c with be := none }) hfinish.room rfl)
    refine hclear.trans (afterBackendRelease_roomed hdrain hclear.room (hclear.live hlive) ?_)
    exact (congrArg (entriesOf Op.isBe · i) (sq_finishBackend env false)).trans hzeroT

theorem processBind_roomed (hs : s.Roomy) (hzero : entriesOf Op.isBe s.sq i = 0) (bind : PqBind) :
    Roomed (some i) s (processBind w env drain s i bind).1 := by
  have hnote : Roomed (some i) s (s.updConn i fun c => (c.binding w bind).emptyResp.clearGot) :=
    .updConn (f := fun c => (c.binding w bind).emptyResp.clearGot) hs
      (outline_binding (w := w) (s.conns i) bind)
  have hzero' : entriesOf Op.isBe (s.updConn i fun c => (c.binding w bind).emptyResp.clearGot).sq i = 0 :=
    hzero
  unfold processBind
  dsimp only
  generalize s.updConn i (fun c => (c.binding w bind).emptyResp.clearGot) = t at hnote hzero' ⊢
  split
  · have hstart := startPipeline_roomed w env drain hnote.room hzero' bind id fun _ => rfl
    unfold startAsyncBindFromEvent
    generalize startPipeline w env drain t i bind id = r at hstart
    obtain ⟨u, _ | _⟩ := r
    · obtain ⟨hu, hzeroU⟩ := hstart
      specialize hzeroU rfl
      dsimp only at hu hzeroU ⊢
      have htu := hnote.trans hu
      have hpush := outline_feqPushBind (w := w) (u.conns i) bind
      split
      · generalize feqPushBind w (u.conns i) bind = y at hpush
        obtain ⟨c, _ | _⟩ := y
        · have hset := htu.trans (.setConn htu.room hpush)
          exact hset.trans (blockingBind_roomed hset.room _)
        · have hset := htu.trans (.setConn htu.room hpush)
          have hpark := hset.trans (parkForBackend_roomed hset.room hzeroU)
          dsimp only at hset hpark ⊢
          generalize parkForBackend (u.setConn i c) i = z at hpark
          obtain ⟨v, _ | _⟩ := z
          · exact hpark.trans (blockingBind_roomed hpark.room _)
          · exact hpark
      · exact htu.trans (blockingBind_roomed htu.room _)
    · exact hnote.trans hstart.1
  · exact hnote.trans (blockingBind_roomed hnote.room _)

theorem processQuery_roomed (hs : s.Roomy) (hlive : (s.conns i).state ≠ .free) (sql : Text) :
    Roomed (some i) s (processQuery w env s i sql).1 := by
  unfold processQuery
  split
  · exact .onConn hs (outline_replyThen _ _ _)
  · rename_i p _
    split
    · exact .onConn hs (outline_replyThen _ _ _)
    · have hcheck : Roomed (some i) s (s.updConn i Conn.checkingOut) :=
        .updConn hs (outline_checkingOut _)
      dsimp only
      generalize s.updConn i Conn.checkingOut = t at hcheck ⊢
      generalize execQuery w env p (t.conns i).id.group sql ioBuf = r
      have hcall := hcheck.trans (roomed_afterCall (i := i) hcheck.room r.1)
      exact hcall.trans (.onCell hcall.room (hcall.live hlive) (puts_answerQuery _ r.2))

variable (w env drain) in
theorem processEvent_roomed (hs : s.Roomy) (hlive : (s.conns i).state ≠ .free) (e : Event) :
    Roomed (some i) s (processEvent w env drain s i e).1 := by
  have hnote : Roomed (some i) s (s.updConn i fun c => c.note (.received e (s.conns i).beWait)) :=
    .updConn hs (outline_note _ rfl)
  have hwait : ((s.updConn i fun c => c.note (.received e (s.conns i).beWait)).conns i).beWait =
      (s.conns i).beWait := by
    rw [conns_updConn]
    rfl
  unfold processEvent
  dsimp only
  generalize (s.conns i).beWait = wait at hnote hwait ⊢
  generalize s.updConn i (fun c => c.note (.received e wait)) = t at hnote hwait ⊢
  have hqueue : ∀ e, Roomed (some i) s (t.updConn i fun c => queueEvent w c e) := fun e =>
    hnote.trans (.updConn (f := fun c => queueEvent w c e) hnote.room (outline_queueEvent _ e))
  have hzero : wait = .idle → entriesOf Op.isBe t.sq i = 0 := fun hidle =>
    hnote.room.idle (hnote.live hlive) (hwait.trans hidle)
  cases e with
  | startup => exact hnote.trans (.onConn hnote.room (outline_replyThen _ _ _))
  | terminate => exact hnote.trans (roomed_closing hnote.room (hnote.live hlive))
  | other => exact hnote
  | parse msg =>
      dsimp only
      split
      · exact hqueue _
      · exact hnote.trans (.updConn (f := fun c => answerParse w t.cfg c msg) hnote.room
          (outline_answerParse _ _ _))
  | bind msg =>
      dsimp only
      split
      · exact hqueue _
      · rename_i hidle
        exact hnote.trans (processBind_roomed hnote.room (hzero (not_not.mp hidle)) msg)
  | execute =>
      dsimp only
      split
      · exact hqueue _
      · exact hnote.trans (.onConn hnote.room (outline_answerExecute _ _))
  | sync =>
      dsimp only
      split
      · exact hqueue _
      · exact hnote.trans (.onCell hnote.room (hnote.live hlive) (puts_answerSync _))
  | query sql =>
      dsimp only
      split
      · exact hqueue _
      · exact hnote.trans (processQuery_roomed hnote.room (hnote.live hlive) sql)

variable (w env drain) in
theorem processEvents_roomed (es : List Event) (hs : s.Roomy) (hlive : (s.conns i).state ≠ .free) :
    Roomed (some i) s (processEvents w env drain es s i).1 := by
  induction es generalizing s with
  | nil => exact .refl hs
  | cons e es ih =>
      have hfirst := processEvent_roomed w env drain hs hlive e
      unfold processEvents
      generalize processEvent w env drain s i e = r at hfirst
      obtain ⟨t, _ | _⟩ := r
      · exact hfirst
      · exact hfirst.trans (ih hfirst.room (hfirst.live hlive))

variable (w env drain) in
theorem processFrontend_roomed (es : List Event) (hs : s.Roomy) (hlive : (s.conns i).state ≠ .free) :
    Roomed (some i) s (processFrontend w env drain s i es).1 := by
  have hfed : Roomed (some i) s (s.updConn i fun c => c.note (.fed c.identityReady c.id)) :=
    .updConn (f := fun c => c.note (.fed c.identityReady c.id)) hs (outline_note _ rfl)
  have hall := hfed.trans (processEvents_roomed w env drain es hfed.room
    (hfed.live hlive))
  unfold processFrontend
  generalize processEvents w env drain es _ i = r at hall
  obtain ⟨t, _ | _⟩ := r
  · exact hall
  · exact hall.trans (.onCell hall.room (hall.live hlive) (puts_drainFrontendOut _))

/-- A slot becomes free. -/
theorem Server.Roomy.freed (hs : s.Roomy) {f : Conn → Conn} (hfree : (f (s.conns i)).state = .free)
    (hcalm : .noSqe ∉ (f (s.conns i)).log) : (s.updConn i f).Roomy := by
  have hconn : (s.updConn i f).conns i = f (s.conns i) := conns_updConn ..
  have hothers : ∀ j, j ≠ i → (s.updConn i f).conns j = s.conns j :=
    fun j hj => Function.update_of_ne hj ..
  refine ⟨hs.kinds, hs.out_le, hs.be_le, fun j hlive hone => ?_, fun j hlive hone => ?_, fun j => ?_⟩
  · by_cases hj : j = i
    · rw [hj, hconn] at hlive
      exact absurd hfree hlive
    · rw [hothers j hj] at hlive ⊢
      exact hs.armed j hlive hone
  · by_cases hj : j = i
    · rw [hj, hconn] at hlive
      exact absurd hfree hlive
    · rw [hothers j hj] at hlive ⊢
      exact hs.engaged j hlive hone
  · by_cases hj : j = i
    · rw [hj, hconn]
      exact hcalm
    · rw [hothers j hj]
      exact hs.calm j

theorem calm_close {c : Conn} (h : .noSqe ∉ c.log) : .noSqe ∉ c.close.log :=
  fun hmem => h ((alike_of_outline (outline_feqClearAll c)).noSqe.mp hmem)

/-- A connection is closed while the others are kept. -/
structure Ends (i : Slot) (s t : Server) : Prop where
  room : t.Roomy
  sq : ∀ r ∈ s.sq, r ∈ t.sq
  others : ∀ j, j ≠ i → Entered t.sq j (s.conns j) (t.conns j)
  free : (t.conns i).state = .free
  unarmed : .unarmed ∈ (t.conns i).log → .unarmed ∈ (s.conns i).log ∨ (s.conns i).ssl = true

variable (env) in
theorem closeConn_ends (hdrain : Drains drain) (hs : s.Roomy) (i : Slot) :
    Ends i s (closeConn env drain s i) := by
  have hfinal : ∀ {t : Server}, Roomed none s t → Ends i s (t.updConn i Conn.close) := by
    intro t ht
    have hconn : (t.updConn i Conn.close).conns i = (t.conns i).close := conns_updConn ..
    have hlog : .unarmed ∈ (t.conns i).close.log → .unarmed ∈ (t.conns i).log :=
      fun hmem => (alike_of_outline (outline_feqClearAll (t.conns i))).unarmed.mp hmem
    refine ⟨ht.room.freed rfl (calm_close (ht.room.calm i)), ht.sq, fun j hj => ?_, ?_, fun hmem => ?_⟩
    · rw [show (t.updConn i Conn.close).conns j = t.conns j from Function.update_of_ne hj ..]
      exact ht.entered j
    · rw [hconn]
      rfl
    · rw [hconn] at hmem
      exact (ht.entered i).unarmed (hlog hmem)
  unfold closeConn
  split
  · rename_i hfree
    exact ⟨hs, fun _ => id, fun _ _ => .refl _, hfree, Or.inl⟩
  · have hring : Roomed none s { s with waiters := s.waiters.remove i } := .of_eq hs rfl rfl
    have hnote := hring.trans (.updConn (i := i) (f := fun c => c.note .closed) hring.room
      (outline_note _ rfl))
    dsimp only
    generalize ({ s with waiters := s.waiters.remove i } : Server).updConn i (fun c => c.note .closed) = t
      at hnote ⊢
    split
    · have hfinish := hnote.trans (roomed_finishBackend env (i := i) hnote.room true)
      have hclear := hfinish.trans (.updConn (i := i) (f := fun c => { c with be := none }) hfinish.room rfl)
      exact hfinal (hclear.trans (fairScheduleWaiters_roomed hdrain hclear.room))
    · exact hfinal hnote

/-! ### TLS -/

theorem tlsOnHandshakeDone_outline (cfg : Config) (peer : Peer) {c : Conn} (hstate : c.state = .tlsHs) :
    (tlsOnHandshakeDone cfg peer c).1.outline = c.outline := by
  have hnote : (({ c with state := .active, id := peer.id } : Conn).note
      (.authenticated peer.id peer.ok)).outline = c.outline := by
    refine (outline_note _ rfl).trans ?_
    unfold Conn.outline
    rw [hstate]
    rfl
  unfold tlsOnHandshakeDone
  dsimp only
  split
  · exact hnote
  · exact hnote

variable (w env drain) in
theorem tlsDriveRead_roomed (readEnd : ReadEnd) (reads : List (List Event)) (hs : s.Roomy)
    (hlive : (s.conns i).state ≠ .free) :
    Roomed (some i) s (tlsDriveRead w env drain readEnd reads s i).1 := by
  induction reads generalizing s with
  | nil =>
      unfold tlsDriveRead
      cases readEnd with
      | wants => exact .refl hs
      | closed => exact roomed_closing hs hlive
      | failed => exact .refl hs
  | cons es reads ih =>
      have hfirst := processFrontend_roomed w env drain es hs hlive
      unfold tlsDriveRead
      generalize processFrontend w env drain s i es = r at hfirst
      obtain ⟨t, _ | _⟩ := r
      · exact hfirst
      · exact hfirst.trans (ih hfirst.room (hfirst.live hlive))

theorem roomed_ite {x : Option Slot} {c : Prop} [Decidable c] {r : Server × Bool} (hs : s.Roomy)
    (h : Roomed x s r.1) : Roomed x s (if c then r else (s, true)).1 := by
  split
  · exact h
  · exact .refl hs

theorem onTlsReady_roomed (hs : s.Roomy) (hlive : (s.conns i).state ≠ .free) (io : TlsIo) :
    Roomed (some i) s (onTlsReady w env drain s i io).1 := by
  have hwrite : ∀ {t : Server} (writes : TlsWrites), t.Roomy →
      Roomed (some i) t (t.onConn i (tlsDriveWrite writes)).1 := fun writes ht =>
    .onConn ht (outline_tlsDriveWriteFrom _ _ _)
  unfold onTlsReady
  have hfirst := roomed_ite (c := io.writable = true) hs (hwrite io.writes hs)
  generalize (if io.writable = true then s.onConn i (tlsDriveWrite io.writes) else (s, true)) = r at hfirst
  obtain ⟨t, _ | _⟩ := r
  · exact hfirst
  · have hread := hfirst.trans (roomed_ite (c := io.readable = true) hfirst.room
      (tlsDriveRead_roomed w env drain io.readEnd io.reads hfirst.room
        (hfirst.live hlive)))
    dsimp only at hread ⊢
    generalize (if io.readable = true then tlsDriveRead w env drain io.readEnd io.reads t i
      else (t, true)) = r at hread
    obtain ⟨u, _ | _⟩ := r
    · exact hread
    · have hlast := hread.trans (roomed_ite (c := (u.conns i).sendOff < (u.conns i).sendLen) hread.room
        (hwrite io.laterWrites hread.room))
      dsimp only at hlast ⊢
      generalize (if (u.conns i).sendOff < (u.conns i).sendLen then
        u.onConn i (tlsDriveWrite io.laterWrites) else (u, true)) = r at hlast
      obtain ⟨v, _ | _⟩ := r
      · exact hlast
      · dsimp only
        split
        · exact hlast
        · exact hlast.trans (.onCell hlast.room (hlast.live hlive) (puts_submitPoll _))

theorem onTlsPoll_roomed (hs : s.Roomy) (hlive : (s.conns i).state ≠ .free) (io : TlsIo) :
    Roomed (some i) s (onTlsPoll w env drain s i io).1 := by
  unfold onTlsPoll
  split
  · exact .refl hs
  · split
    · rename_i hstate
      cases io.handshake with
      | failed => exact .refl hs
      | wants write =>
          have hwant : Roomed (some i) s (s.updConn i fun c => { c with wantPollOut := write }) :=
            .updConn hs rfl
          exact hwant.trans (.onCell hwant.room (hwant.live hlive) (puts_submitPoll _))
      | done =>
          have hdone : Roomed (some i) s (s.onConn i (tlsOnHandshakeDone s.cfg io.peer)).1 :=
            .onConn hs (tlsOnHandshakeDone_outline _ _ hstate)
          dsimp only
          generalize s.onConn i (tlsOnHandshakeDone s.cfg io.peer) = r at hdone
          obtain ⟨t, _ | _⟩ := r
          · exact hdone
          · exact hdone.trans (onTlsReady_roomed hdone.room (hdone.live hlive) io)
    · exact onTlsReady_roomed hs hlive io

/-- The handler of a completion prepared what it had to, and no accept. -/
structure Server.Served (s : Server) : Prop where
  calm : s.Lacks (· = .noSqe)
  own : ∀ r ∈ s.sq, r.op ≠ .accept

theorem Server.Roomy.served (hs : s.Roomy) : s.Served where
  calm := fun i _ hmem heq => hs.calm i (heq ▸ hmem)
  own := by
    intro r hr hop
    rcases hs.kinds r hr with h | h
    · rw [hop] at h
      cases h
    · rw [hop] at h
      cases h

/-- The same, and connections go on, or connection `i` is closed. -/
structure Handled (i : Slot) (s t : Server) : Prop extends t.Served where
  others : ∀ j, j ≠ i → Entered t.sq j (s.conns j) (t.conns j)
  self : (t.conns i).state = .free ∨ Entered t.sq i (s.conns i) (t.conns i)
  unarmed : .unarmed ∈ (t.conns i).log → .unarmed ∈ (s.conns i).log ∨ (s.conns i).ssl = true

theorem Roomed.handled {x : Option Slot} (h : Roomed x s t) : Handled i s t :=
  ⟨h.room.served, fun j _ => h.entered j, Or.inr (h.entered i), (h.entered i).unarmed⟩

theorem Roomed.ends {x : Option Slot} (h : Roomed x s t) (k : Ends i t u) : Handled i s u := by
  refine ⟨k.room.served, fun j hj => (h.entered j).trans (k.others j hj) k.sq, Or.inl k.free, fun hmem => ?_⟩
  rcases k.unarmed hmem with hmem | hssl
  · exact (h.entered i).unarmed hmem
  · exact Or.inr ((h.entered i).ssl ▸ hssl)

/-- Nothing was prepared yet, and every request found an entry. -/
structure Server.Blank (s : Server) : Prop where
  sq : s.sq = []
  calm : ∀ i, .noSqe ∉ (s.conns i).log

theorem Server.Blank.roomy (hs : s.Blank) : s.Roomy := .of_nil hs.sq hs.calm

theorem Server.Blank.zero (hs : s.Blank) (i : Slot) : entriesOf Op.isBe s.sq i = 0 := by
  rw [hs.sq]
  rfl

theorem Server.Blank.setConn (hs : s.Blank) {c : Conn} (hcalm : .noSqe ∉ c.log) :
    (s.setConn i c).Blank := by
  refine ⟨hs.sq, fun j => ?_⟩
  by_cases hj : j = i
  · rw [hj, show (s.setConn i c).conns i = c from Function.update_self ..]
    exact hcalm
  · rw [show (s.setConn i c).conns j = s.conns j from Function.update_of_ne hj ..]
    exact hs.calm j

theorem Server.Blank.updConn (hs : s.Blank) {f : Conn → Conn} (hcalm : .noSqe ∉ (f (s.conns i)).log) :
    (s.updConn i f).Blank := hs.setConn hcalm

theorem Server.Blank.updPool (hs : s.Blank) (f : Pool → Pool) : (s.updPool f).Blank := ⟨hs.sq, hs.calm⟩

theorem closeUnless_handled {x : Option Slot} (hdrain : Drains drain) {r : Server × Bool}
    (h : Roomed x s r.1) : Handled i s (closeUnless env drain r i) := by
  obtain ⟨t, _ | _⟩ := r
  · exact h.ends (closeConn_ends _ hdrain h.room i)
  · exact h.handled

/-- The next receive of a connection that was served. -/
theorem submitRecv_handled (h : Handled i s t) (hentered : Entered t.sq i (s.conns i) (t.conns i))
    (hroom : t.sq.length < uringEntries) (hstate : (t.conns i).state ≠ .closing)
    (hlive : (t.conns i).state ≠ .free) : (t.onCell i submitRecv).2 = true ∧
      Handled i s (t.onCell i submitRecv).1 ∧ (((t.onCell i submitRecv).1.conns i).ssl = true ∨
        ((t.onCell i submitRecv).1.conns i).recvPending = true) := by
  have hself : (t.onCell i submitRecv).1.conns i = (submitRecv (t.cell i)).1.conn := conns_onCell ..
  have hsq : (t.onCell i submitRecv).1.sq = (submitRecv (t.cell i)).1.sq := rfl
  have hok : (t.onCell i submitRecv).2 = (submitRecv (t.cell i)).2 := rfl
  have hothers : ∀ j, j ≠ i → (t.onCell i submitRecv).1.conns j = t.conns j :=
    fun j hj => Function.update_of_ne hj ..
  generalize t.onCell i submitRecv = r at hself hsq hok hothers ⊢
  unfold submitRecv at hself hsq hok
  by_cases hskip : (t.cell i).conn.ssl = true ∨ (t.cell i).conn.recvPending = true ∨
      (t.cell i).conn.state = .closing ∨ (t.cell i).conn.state = .free
  · rw [if_pos hskip] at hself hsq hok
    have hall : r.1.conns = t.conns := by
      funext j
      by_cases hj : j = i
      · rw [hj]
        exact hself
      · exact hothers j hj
    refine ⟨hok, ⟨⟨?_, ?_⟩, ?_, ?_, ?_⟩, ?_⟩
    · unfold Server.Lacks
      rw [hall]
      exact h.calm
    · rw [hsq]
      exact h.own
    · rw [hsq, hall]
      exact h.others
    · rw [hsq, hall]
      exact h.self
    · rw [hall]
      exact h.unarmed
    · rw [hall]
      rcases hskip with hssl | hrecv | hclosing | hfree
      · exact Or.inl hssl
      · exact Or.inr hrecv
      · exact absurd hclosing hstate
      · exact absurd hfree hlive
  · rw [if_neg hskip, prep_eq hroom] at hself hsq hok
    have hsub : ∀ x ∈ t.sq, x ∈ r.1.sq := fun x hx => by
      rw [hsq]
      exact List.mem_append_left _ hx
    have hnext : Entered r.1.sq i (t.conns i) (r.1.conns i) := by
      rw [hself]
      refine ⟨Iff.rfl, rfl, rfl, fun op hop => ?_, fun op hop => ?_, Or.inl⟩
      · cases op with
        | recv => rfl
        | _ => exact hop
      · cases op with
        | recv =>
            refine Or.inr ⟨(t.cell i).request .recv, ?_, rfl, rfl, rfl⟩
            rw [hsq]
            exact List.mem_append_right _ List.mem_cons_self
        | _ => exact Or.inl hop
    refine ⟨hok, ⟨⟨fun j o hmem => ?_, fun x hx => ?_⟩, fun j hj => ?_, Or.inr (hentered.trans hnext hsub),
      fun hmem => ?_⟩, Or.inr ?_⟩
    · by_cases hj : j = i
      · rw [hj, hself] at hmem
        exact h.calm i o hmem
      · rw [hothers j hj] at hmem
        exact h.calm j o hmem
    · rw [hsq] at hx
      rcases List.mem_append.mp hx with hx | hx
      · exact h.own x hx
      · rw [List.mem_singleton.mp hx]
        exact Op.noConfusion
    · have hstill := (h.others j hj).trans (.refl (t.conns j)) hsub
      rwa [hothers j hj]
    · rw [hself] at hmem
      exact h.unarmed hmem
    · rw [hself]

variable (env) in
theorem onRecv_handled (hdrain : Drains drain) (hs : s.Blank) (hlive : (s.conns i).state ≠ .free)
    (cqe : Cqe) : Handled i (s.updConn i fun c => { c with recvPending := false })
        (onRecv w env drain s i cqe) ∧
      (((onRecv w env drain s i cqe).conns i).state = .free ∨
        ((onRecv w env drain s i cqe).conns i).ssl = true ∨
        ((onRecv w env drain s i cqe).conns i).recvPending = true) := by
  have hclear : (s.updConn i fun c => { c with recvPending := false }).Blank := hs.setConn (hs.calm i)
  have hliveT : ((s.updConn i fun c => { c with recvPending := false }).conns i).state ≠ .free := by
    rwa [conns_updConn]
  unfold onRecv
  dsimp only
  generalize s.updConn i (fun c => { c with recvPending := false }) = t at hclear hliveT ⊢
  have hcut : ∀ {x : Option Slot} {u : Server}, Roomed x t u →
      Handled i t (closeConn env drain u i) ∧ (((closeConn env drain u i).conns i).state = .free ∨
        ((closeConn env drain u i).conns i).ssl = true ∨
        ((closeConn env drain u i).conns i).recvPending = true) := by
    intro x u hu
    have hend := closeConn_ends env hdrain hu.room i
    exact ⟨hu.ends hend, Or.inl hend.free⟩
  cases cqe with
  | received es =>
      have hfront := processFrontend_roomed w env drain es hclear.roomy hliveT
      dsimp only
      generalize processFrontend w env drain t i es = r at hfront
      obtain ⟨u, _ | _⟩ := r
      · exact hcut hfront
      · dsimp only at hfront ⊢
        split
        · exact hcut hfront
        · rename_i hstate
          have hall : ∀ r ∈ u.sq, r.slot = i := fun r hr =>
            (hfront.mine i rfl r hr).resolve_left fun h => by
              rw [hclear.sq] at h
              exact absurd h List.not_mem_nil
          have hroom : u.sq.length < uringEntries :=
            Nat.lt_of_le_of_lt (hfront.room.length_le hall) (by decide)
          obtain ⟨hok, hhandled, hlistens⟩ := submitRecv_handled hfront.handled (hfront.entered i) hroom
            hstate (hfront.live hliveT)
          generalize u.onCell i submitRecv = r at hok hhandled hlistens
          obtain ⟨v, _ | _⟩ := r
          · cases hok
          · exact ⟨hhandled, Or.inr hlistens⟩
  | _ => exact hcut (x := none) (.refl hclear.roomy)

theorem onSend_handled (hdrain : Drains drain) (hs : s.Blank) (hlive : (s.conns i).state ≠ .free)
    (cqe : Cqe) : Handled i (s.updConn i fun c => { c with sendPending := false })
      (onSend env drain s i cqe) := by
  have hclear : (s.updConn i fun c => { c with sendPending := false }).Blank := hs.setConn (hs.calm i)
  have hliveT : ((s.updConn i fun c => { c with sendPending := false }).conns i).state ≠ .free := by
    rwa [conns_updConn]
  unfold onSend
  dsimp only
  generalize s.updConn i (fun c => { c with sendPending := false }) = t at hclear hliveT ⊢
  cases cqe with
  | sent n =>
      have hsent := Roomed.onCell (f := fun c => (advanceSend n c, true)) hclear.roomy hliveT
        (puts_advanceSend n _)
      dsimp only
      split
      · exact hsent.ends (closeConn_ends _ hdrain hsent.room i)
      · exact hsent.handled
  | _ => exact (Roomed.refl (x := none) hclear.roomy).ends (closeConn_ends _ hdrain hclear.roomy i)

theorem onPoll_handled (hdrain : Drains drain) (hs : s.Blank) (hlive : (s.conns i).state ≠ .free)
    (cqe : Cqe) : Handled i (s.updConn i fun c => { c with pollPending := false })
      (onPoll w env drain s i cqe) := by
  have hclear : (s.updConn i fun c => { c with pollPending := false }).Blank := hs.setConn (hs.calm i)
  have hliveT : ((s.updConn i fun c => { c with pollPending := false }).conns i).state ≠ .free := by
    rwa [conns_updConn]
  unfold onPoll
  dsimp only
  generalize s.updConn i (fun c => { c with pollPending := false }) = t at hclear hliveT ⊢
  cases cqe with
  | polled io => exact closeUnless_handled hdrain (onTlsPoll_roomed hclear.roomy hliveT io)
  | _ => exact (Roomed.refl (x := none) hclear.roomy).ends (closeConn_ends _ hdrain hclear.roomy i)

/-- More of a pipeline is sent, or its result is waited for. -/
theorem onBeSendCqe_roomed (hdrain : Drains drain) (hs : s.Blank) (hlive : (s.conns i).state ≠ .free)
    (cqe : Cqe) : Roomed none s (onBeSendCqe w env drain s i cqe).1 := by
  have hflag : Roomed none s (s.updConn i fun c => { c with beSendPending := false }) :=
    .updConn hs.roomy rfl
  have hclear : (s.updConn i fun c => { c with beSendPending := false }).Blank := hs.setConn (hs.calm i)
  unfold onBeSendCqe
  dsimp only
  generalize s.updConn i (fun c => { c with beSendPending := false }) = t at hflag hclear ⊢
  have hagain : ∀ {u : Server}, Roomed none s u → u.Blank →
      Roomed none s (u.onCell i (submitBeSend u.backends)).1 := fun {u} hsu hu =>
    hsu.trans (Roomed.asks (f := submitBeSend u.backends) hu.roomy (hu.zero i)
      (asks_submitBeSend u.backends (hu.roomy.left (Or.inr (hu.zero i)))).1).any
  have hfail := hflag.trans (backendAsyncFail_roomed (w := w) env hdrain hclear.roomy
    (hflag.live hlive) (hclear.zero i))
  cases cqe with
  | sent n =>
      dsimp only
      split
      · exact hagain hflag hclear
      · exact hagain (hflag.trans (.of_eq hclear.roomy rfl rfl)) (hclear.updPool _)
  | failed again =>
      cases again with
      | true => exact hagain hflag hclear
      | false => exact hfail
  | _ => exact hfail

theorem onBeRecvCqe_roomed (hdrain : Drains drain) (hs : s.Blank) (hlive : (s.conns i).state ≠ .free)
    (cqe : Cqe) : Roomed none s (onBeRecvCqe w env drain s i cqe).1 := by
  have hflag : Roomed none s (s.updConn i fun c => { c with beRecvPending := false }) :=
    .updConn hs.roomy rfl
  have hclear : (s.updConn i fun c => { c with beRecvPending := false }).Blank := hs.setConn (hs.calm i)
  unfold onBeRecvCqe
  dsimp only
  generalize s.updConn i (fun c => { c with beRecvPending := false }) = t at hflag hclear ⊢
  split
  · rename_i x bytes b _
    generalize asyncOnRecv w (t.backends b) (x :: bytes) (t.conns i).beResp ioBuf = res
    obtain ⟨after, resp, exit⟩ := res
    have hpool := hclear.updPool fun p => p.setConn b after
    have hsu : Roomed none s (t.updPool fun p => p.setConn b after) :=
      hflag.trans (.of_eq hclear.roomy rfl rfl)
    dsimp only
    generalize t.updPool (fun p => p.setConn b after) = u at hpool hsu ⊢
    have hgot : ∀ {f : Conn → Conn}, (f (u.conns i)).outline = (u.conns i).outline →
        (u.updConn i f).Blank ∧ Roomed none s (u.updConn i f) := fun houtline =>
      ⟨hpool.setConn fun hmem => hpool.calm i ((alike_of_outline houtline).noSqe.mp hmem),
        hsu.trans (.updConn hsu.room houtline)⟩
    cases exit with
    | failed =>
        obtain ⟨hblank, hroomed⟩ := hgot (f := fun c => { c with beResp := resp }) rfl
        exact hroomed.trans (backendAsyncFail_roomed _ hdrain hblank.roomy (hroomed.live hlive) (hblank.zero i))
    | complete =>
        obtain ⟨hblank, hroomed⟩ := hgot (f := fun c =>
          Conn.gotData c resp (usedUp (t.backends b) after (x :: bytes))) (outline_note _ rfl)
        exact hroomed.trans
          (backendAsyncComplete_roomed hdrain hblank.roomy (hroomed.live hlive) (hblank.zero i))
    | more =>
        obtain ⟨hblank, hroomed⟩ := hgot (f := fun c =>
          Conn.gotData c resp (usedUp (t.backends b) after (x :: bytes))) (outline_note _ rfl)
        exact hroomed.trans (Roomed.asks (f := submitBeRecv u.backends) hblank.roomy (hblank.zero i)
          (asks_submitBeRecv u.backends (hblank.roomy.left (Or.inr (hblank.zero i)))).1).any
  · exact hflag.trans (backendAsyncFail_roomed _ hdrain hclear.roomy (hflag.live hlive) (hclear.zero i))

/-- A new connection has nothing pending and no backend, and differs from the others in nothing else. -/
structure Begun (i : Slot) (s t : Server) : Prop extends t.Blank where
  others : ∀ j, j ≠ i → t.conns j = s.conns j
  pending : ∀ op, (t.conns i).pending op = false
  be : (t.conns i).be = none
  unarmed : .unarmed ∉ (t.conns i).log

/-- A new connection has made its first request, or was closed. -/
structure Welcomed (i : Slot) (s t : Server) : Prop extends t.Served where
  one : t.sq.length ≤ 1
  others : ∀ j, j ≠ i → t.conns j = s.conns j
  self : (t.conns i).state = .free ∨ ((t.conns i).ssl = true ∨ (t.conns i).recvPending = true) ∧
    ∀ op, (t.conns i).pending op = true → ∃ r ∈ t.sq, r.op = op ∧ r.slot = i ∧ r.gen = (t.conns i).gen
  unarmed : .unarmed ∉ (t.conns i).log

theorem Begun.updConn (h : Begun i s t) {f : Conn → Conn} (hlog : ∀ c : Conn, (f c).log = c.log)
    (hpending : ∀ (c : Conn) op, (f c).pending op = c.pending op) (hbe : ∀ c : Conn, (f c).be = c.be) :
    Begun i s (t.updConn i f) := by
  have hconn : (t.updConn i f).conns i = f (t.conns i) := conns_updConn ..
  refine ⟨h.toBlank.updConn ?_, fun j hj => ?_, fun op => ?_, ?_, ?_⟩
  · rw [hlog]
    exact h.calm i
  · rw [show (t.updConn i f).conns j = t.conns j from Function.update_of_ne hj ..]
    exact h.others j hj
  · rw [hconn, hpending]
    exact h.pending op
  · rw [hconn, hbe]
    exact h.be
  · rw [hconn, hlog]
    exact h.unarmed

/-- A connection that could not be set up is closed. -/
theorem Begun.cut (h : Begun i s t) : Welcomed i s (closeConn env drain t i) := by
  have hserved : ∀ {u : Server}, u.Blank → u.Served ∧ u.sq.length ≤ 1 := by
    intro u hu
    refine ⟨⟨fun j _ hmem heq => hu.calm j (heq ▸ hmem), ?_⟩, ?_⟩
    · rw [hu.sq]
      exact fun _ hr => absurd hr List.not_mem_nil
    · rw [hu.sq]
      exact Nat.zero_le 1
  unfold closeConn
  split
  · rename_i hfree
    obtain ⟨hall, hone⟩ := hserved h.toBlank
    exact ⟨hall, hone, h.others, Or.inl hfree, h.unarmed⟩
  · have hring : ({ t with waiters := t.waiters.remove i } : Server).Blank := ⟨h.sq, h.calm⟩
    have hnote : (({ t with waiters := t.waiters.remove i } : Server).updConn i
        fun c => c.note .closed).Blank :=
      hring.updConn fun hmem => h.calm i ((alike_of_outline (outline_note _ rfl)).noSqe.mp hmem)
    have hconn : (({ t with waiters := t.waiters.remove i } : Server).updConn i
        fun c => c.note .closed).conns i = (t.conns i).note .closed := conns_updConn ..
    have hothers : ∀ j, j ≠ i → (({ t with waiters := t.waiters.remove i } : Server).updConn i
        fun c => c.note .closed).conns j = t.conns j := fun j hj => Function.update_of_ne hj ..
    dsimp only
    generalize ({ t with waiters := t.waiters.remove i } : Server).updConn i (fun c => c.note .closed) = u
      at hnote hconn hothers ⊢
    have hbe : (u.conns i).be = none := by
      rw [hconn]
      exact h.be
    rw [hbe, Option.isSome_none, Bool.false_and, if_neg Bool.false_ne_true]
    obtain ⟨hall, hone⟩ := hserved (hnote.updConn (i := i) (f := Conn.close) (calm_close (hnote.calm i)))
    have hclosed : (u.updConn i Conn.close).conns i = (u.conns i).close := conns_updConn ..
    refine ⟨hall, hone, fun j hj => ?_, Or.inl ?_, fun hmem => h.unarmed ?_⟩
    · rw [show (u.updConn i Conn.close).conns j = u.conns j from Function.update_of_ne hj .., hothers j hj]
      exact h.others j hj
    · rw [hclosed]
      rfl
    · rw [hclosed] at hmem
      have hlog := (alike_of_outline (outline_feqClearAll (u.conns i))).unarmed.mp hmem
      rw [hconn] at hlog
      exact (alike_of_outline (outline_note (t.conns i) rfl)).unarmed.mp hlog

/-- The first request of a new connection. -/
theorem acceptWith_welcomed (h : Begun i s t) {r : Request} (mark : Conn → Conn) (hop : r.op ≠ .accept)
    (hslot : r.slot = i) (hgen : r.gen = (t.conns i).gen)
    (hmark : (mark (t.conns i)).gen = (t.conns i).gen ∧ (mark (t.conns i)).log = (t.conns i).log)
    (hpending : ∀ op, (mark (t.conns i)).pending op = true → op = r.op)
    (hlistens : (mark (t.conns i)).ssl = true ∨ (mark (t.conns i)).recvPending = true)
    {submit : Cell → Cell × Bool} (hsubmit : submit (t.cell i) = (t.cell i).prep r mark) :
    Welcomed i s (acceptWith env drain t i submit) := by
  have hroom : (t.cell i).sq.length < uringEntries := by
    change t.sq.length < uringEntries
    rw [h.sq]
    exact Nat.succ_pos 511
  rw [prep_eq hroom] at hsubmit
  have hok : (t.onCell i submit).2 = true := congrArg Prod.snd hsubmit
  have hconn : (t.onCell i submit).1.conns i = mark (t.conns i) :=
    (conns_onCell ..).trans (congrArg (fun x : Cell × Bool => x.1.conn) hsubmit)
  have hsq : (t.onCell i submit).1.sq = [r] := by
    have hnew : (t.onCell i submit).1.sq = t.sq ++ [r] :=
      congrArg (fun x : Cell × Bool => x.1.sq) hsubmit
    rw [hnew, h.sq, List.nil_append]
  have hothers : ∀ j, j ≠ i → (t.onCell i submit).1.conns j = t.conns j :=
    fun j hj => Function.update_of_ne hj ..
  unfold acceptWith
  generalize t.onCell i submit = x at hok hconn hsq hothers
  obtain ⟨u, _ | _⟩ := x
  · cases hok
  · dsimp only at hconn hsq hothers ⊢
    refine ⟨⟨fun j o hmem heq => ?_, fun x hx => ?_⟩, ?_, fun j hj => ?_, Or.inr ⟨?_, fun op hpend => ?_⟩, ?_⟩
    · rw [heq] at hmem
      by_cases hj : j = i
      · rw [hj, hconn, hmark.2] at hmem
        exact h.calm i hmem
      · rw [hothers j hj] at hmem
        exact h.calm j hmem
    · rw [hsq] at hx
      rw [List.mem_singleton.mp hx]
      exact hop
    · rw [hsq]
      exact Nat.le_refl 1
    · rw [hothers j hj]
      exact h.others j hj
    · rw [hconn]
      exact hlistens
    · rw [hconn] at hpend ⊢
      refine ⟨r, ?_, (hpending op hpend).symm, hslot, hgen.trans hmark.1.symm⟩
      rw [hsq]
      exact List.mem_cons_self
    · rw [hconn, hmark.2]
      exact h.unarmed

/-- A TLS connection polls first. -/
theorem acceptPoll_welcomed (h : Begun i s t) (hssl : (t.conns i).ssl = true)
    (hlive : (t.conns i).state ≠ .free) : Welcomed i s (acceptWith env drain t i submitPoll) := by
  have hidle : (t.conns i).pollPending = false := h.pending .poll
  refine acceptWith_welcomed h (r := { (t.cell i).request .poll with
      pollOut := (t.conns i).wantPollOut || decide ((t.conns i).sendOff < (t.conns i).sendLen) })
    (fun c => { c with
      pollPending := true,
      polledOut := (t.conns i).wantPollOut || decide ((t.conns i).sendOff < (t.conns i).sendLen) })
    Op.noConfusion rfl rfl ⟨rfl, rfl⟩ (fun op hop => ?_) (Or.inl hssl) (if_neg ?_)
  · cases op with
    | poll => rfl
    | recv => exact absurd hop (Bool.eq_false_iff.mp (h.pending .recv))
    | send => exact absurd hop (Bool.eq_false_iff.mp (h.pending .send))
    | _ => cases hop
  · rintro (hplain | hpolled | hfree)
    · exact Bool.true_eq_false.mp (hssl.symm.trans hplain)
    · exact Bool.true_eq_false.mp (hpolled.symm.trans hidle)
    · exact hlive hfree

/-- A plain connection receives first. -/
theorem acceptRecv_welcomed (h : Begun i s t) (hssl : (t.conns i).ssl = false)
    (hactive : (t.conns i).state = .active) : Welcomed i s (acceptWith env drain t i submitRecv) := by
  have hidle : (t.conns i).recvPending = false := h.pending .recv
  refine acceptWith_welcomed h (r := (t.cell i).request .recv)
    (fun c => { c with recvPending := true })
    Op.noConfusion rfl rfl ⟨rfl, rfl⟩ (fun op hop => ?_) (Or.inr rfl) (if_neg ?_)
  · cases op with
    | recv => rfl
    | poll => exact absurd hop (Bool.eq_false_iff.mp (h.pending .poll))
    | send => exact absurd hop (Bool.eq_false_iff.mp (h.pending .send))
    | _ => cases hop
  · rintro (htls | hpending | hclosing | hfree)
    · exact Bool.true_eq_false.mp (htls.symm.trans hssl)
    · exact Bool.true_eq_false.mp (hpending.symm.trans hidle)
    · exact ConnState.noConfusion (hactive.symm.trans hclosing)
    · exact ConnState.noConfusion (hactive.symm.trans hfree)

variable (env drain) in
theorem acceptOne_welcomed (hs : s.Blank) (fd : Nat) (setup : AcceptSetup) :
    acceptOne env drain s fd setup = s ∨ ∃ i, Welcomed i s (acceptOne env drain s fd setup) := by
  unfold acceptOne
  split
  · exact Or.inl rfl
  · rename_i i _
    refine Or.inr ⟨i, ?_⟩
    have hfresh : Begun i s (s.updConn i fun c => Conn.opened (c.gen + 1) fd (setup.zerocopyOk s.cfg)) := by
      have hconn : (s.updConn i fun c => Conn.opened (c.gen + 1) fd (setup.zerocopyOk s.cfg)).conns i =
          Conn.opened ((s.conns i).gen + 1) fd (setup.zerocopyOk s.cfg) := conns_updConn ..
      refine ⟨hs.updConn List.not_mem_nil, fun j hj => Function.update_of_ne hj .., fun op => ?_, ?_, ?_⟩
      · rw [hconn]
        cases op <;> rfl
      · rw [hconn]
        rfl
      · rw [hconn]
        exact List.not_mem_nil
    have hssl : ((s.updConn i fun c => Conn.opened (c.gen + 1) fd (setup.zerocopyOk s.cfg)).conns i).ssl =
        false := by
      rw [conns_updConn]
      rfl
    dsimp only
    generalize s.updConn i (fun c => Conn.opened (c.gen + 1) fd (setup.zerocopyOk s.cfg)) = t at hfresh hssl ⊢
    split
    · exact hfresh.cut
    · split
      · split
        · exact hfresh.cut
        · have htls : Begun i s (t.updConn i fun c => { c with ssl := true, state := .tlsHs }) :=
            hfresh.updConn (fun _ => rfl) (fun _ op => by cases op <;> rfl) fun _ => rfl
          have hconn : (t.updConn i fun c => { c with ssl := true, state := .tlsHs }).conns i =
              { t.conns i with ssl := true, state := .tlsHs } := conns_updConn ..
          generalize t.updConn i (fun c => { c with ssl := true, state := .tlsHs }) = u at htls hconn ⊢
          have hsslU : (u.conns i).ssl = true := by rw [hconn]
          have hstateU : (u.conns i).state = .tlsHs := by rw [hconn]
          cases setup.handshake with
          | failed => exact htls.cut
          | wants write =>
              exact acceptPoll_welcomed htls hsslU fun h => ConnState.noConfusion (hstateU.symm.trans h)
          | done =>
              have houtline := tlsOnHandshakeDone_outline u.cfg setup.peer hstateU
              have halike := alike_of_outline houtline
              have hbe : (tlsOnHandshakeDone u.cfg setup.peer (u.conns i)).1.be = (u.conns i).be := by
                unfold tlsOnHandshakeDone
                dsimp only
                split <;> rfl
              have hself : (u.onConn i (tlsOnHandshakeDone u.cfg setup.peer)).1.conns i =
                  (tlsOnHandshakeDone u.cfg setup.peer (u.conns i)).1 := Function.update_self ..
              have hdone : Begun i s (u.onConn i (tlsOnHandshakeDone u.cfg setup.peer)).1 := by
                refine ⟨htls.toBlank.setConn fun hmem => htls.calm i (halike.noSqe.mp hmem), fun j hj => ?_,
                  fun op => ?_, ?_, fun hmem => htls.unarmed ?_⟩
                · exact (Function.update_of_ne hj ..).trans (htls.others j hj)
                · rw [hself, halike.pending]
                  exact htls.pending op
                · rw [hself, hbe]
                  exact htls.be
                · rw [hself] at hmem
                  exact halike.unarmed.mp hmem
              have hsslV : ((u.onConn i (tlsOnHandshakeDone u.cfg setup.peer)).1.conns i).ssl = true := by
                rw [hself, halike.ssl]
                exact hsslU
              have hliveV : ((u.onConn i (tlsOnHandshakeDone u.cfg setup.peer)).1.conns i).state ≠ .free := by
                rw [hself]
                intro hfree
                exact ConnState.noConfusion (hstateU.symm.trans (halike.free.mp hfree))
              dsimp only
              generalize u.onConn i (tlsOnHandshakeDone u.cfg setup.peer) = x at hdone hsslV hliveV
              obtain ⟨v, _ | _⟩ := x
              · exact hdone.cut
              · exact acceptPoll_welcomed hdone hsslV hliveV
      · have hplain : Begun i s (t.updConn i fun c => { c with
            state := .active, id := { plainIdentity with identitySlot := t.cfg.identitySlot },
            identityReady := true }) :=
          hfresh.updConn (fun _ => rfl) (fun _ op => by cases op <;> rfl) fun _ => rfl
        refine acceptRecv_welcomed hplain ?_ ?_
        · rw [conns_updConn]
          exact hssl
        · rw [conns_updConn]

/-! ### Iterations -/

/-- What the dispatch of a completion does to the connections. -/
theorem dispatchTo_handled (hdrain : Drains drain) (hs : s.Blank) {op : Op} (hop : op ≠ .accept) (i : Slot)
    (cqe : Cqe) :
    dispatchTo w env drain s op i cqe = s ∧ ((s.conns i).state = .free ∨ op = .beSend ∨ op = .beRecv) ∨
      Handled i (s.updConn i fun c => c.delivered op) (dispatchTo w env drain s op i cqe) ∧
        (op = .recv → ((dispatchTo w env drain s op i cqe).conns i).state = .free ∨
          ((dispatchTo w env drain s op i cqe).conns i).ssl = true ∨
          ((dispatchTo w env drain s op i cqe).conns i).recvPending = true) := by
  cases op with
  | accept => exact absurd rfl hop
  | recv =>
      unfold dispatchTo
      dsimp only
      split
      · rename_i hfree
        exact Or.inl ⟨rfl, Or.inl hfree⟩
      · rename_i hlive
        obtain ⟨hhandled, hlistens⟩ := onRecv_handled (w := w) env hdrain hs hlive cqe
        exact Or.inr ⟨hhandled, fun _ => hlistens⟩
  | send =>
      unfold dispatchTo
      dsimp only
      split
      · rename_i hfree
        exact Or.inl ⟨rfl, Or.inl hfree⟩
      · rename_i hlive
        exact Or.inr ⟨onSend_handled hdrain hs hlive cqe, fun h => Op.noConfusion h⟩
  | poll =>
      unfold dispatchTo
      dsimp only
      split
      · rename_i hfree
        exact Or.inl ⟨rfl, Or.inl hfree⟩
      · rename_i hlive
        exact Or.inr ⟨onPoll_handled hdrain hs hlive cqe, fun h => Op.noConfusion h⟩
  | beSend =>
      unfold dispatchTo
      dsimp only
      split
      · exact Or.inl ⟨rfl, Or.inr (Or.inl rfl)⟩
      · rename_i hgo
        have hsame : (s.updConn i fun c => c.delivered .beSend) = s := updConn_same rfl
        rw [hsame]
        exact Or.inr ⟨closeUnless_handled hdrain (onBeSendCqe_roomed hdrain hs (not_or.mp hgo).1 cqe),
          fun h => Op.noConfusion h⟩
  | beRecv =>
      unfold dispatchTo
      dsimp only
      split
      · exact Or.inl ⟨rfl, Or.inr (Or.inr rfl)⟩
      · rename_i hgo
        have hsame : (s.updConn i fun c => c.delivered .beRecv) = s := updConn_same rfl
        rw [hsame]
        exact Or.inr ⟨closeUnless_handled hdrain (onBeRecvCqe_roomed hdrain hs (not_or.mp hgo).1 cqe),
          fun h => Op.noConfusion h⟩

variable (env drain) in
/-- After the completion of an accept the next one is prepared. -/
theorem dispatchTo_accept (hs : s.Blank) (i : Slot) (cqe : Cqe) :
    ∃ t : Server, (t = s ∨ ∃ j, Welcomed j s t) ∧ dispatchTo w env drain s .accept i cqe =
      { t with sq := t.sq ++ [acceptRequest] } := by
  have hsame : submitAccept s = { s with sq := s.sq ++ [acceptRequest] } := by
    refine if_pos ?_
    rw [hs.sq]
    exact Nat.succ_pos 511
  unfold dispatchTo
  dsimp only
  cases cqe with
  | accepted fd setup =>
      have hwelcomed := acceptOne_welcomed env drain hs fd setup
      refine ⟨_, hwelcomed, ?_⟩
      dsimp only
      rcases hwelcomed with heq | ⟨j, hj⟩
      · rw [heq]
        exact hsame
      · exact if_pos (Nat.lt_of_le_of_lt hj.one (Nat.succ_lt_succ (Nat.succ_pos 510)))
  | _ => exact ⟨s, Or.inl rfl, hsame⟩

/-- The requests that accept a connection. -/
def accepting (rs : List Request) : Nat := rs.countP fun r => r.op = .accept

theorem accepting_eq_zero {rs : List Request} (h : ∀ r ∈ rs, r.op ≠ .accept) : accepting rs = 0 :=
  List.countP_eq_zero.mpr fun r hr hop => h r hr (of_decide_eq_true hop)

theorem accepting_append (l m : List Request) : accepting (l ++ m) = accepting l + accepting m :=
  List.countP_append

theorem accepting_cons (r : Request) (rs : List Request) :
    accepting (r :: rs) = accepting rs + if r.op = .accept then 1 else 0 := by
  unfold accepting
  rw [List.countP_cons]
  simp only [decide_eq_true_eq]

variable (env) in
/-- The dispatch of a completion leaves the requests in the kernel alone. -/
theorem dispatchTo_rest {r : Request} (hs : s.Good none)
    (hplain : r.op = .recv ∨ r.op = .send → s.tls = false) (cqe : Cqe) :
    (dispatchTo w env (drainFeQueue w env (maxConns + 1)) s r.op r.slot cqe).inflight = s.inflight ∧
      (dispatchTo w env (drainFeQueue w env (maxConns + 1)) s r.op r.slot cqe).tls = s.tls := by
  obtain ⟨u, ⟨⟨t, hopens, hmoves⟩, -⟩, hu⟩ := dispatchTo_spec (w := w) env hs hplain cqe
  obtain ⟨m, hbegins, hchanges⟩ := hopens.begins
  obtain ⟨i, hframe, -⟩ := hbegins.frame hs.toOwned
  have hall : ∀ {a b : Server}, Changes w a b → b.inflight = a.inflight ∧ b.tls = a.tls := by
    intro a b hab
    induction hab with
    | refl => exact ⟨rfl, rfl⟩
    | tail _ hchange ih =>
        obtain ⟨j, hchange⟩ := hchange
        exact ⟨hchange.frame.inflight.trans ih.1, hchange.frame.tls.trans ih.2⟩
  obtain ⟨hinflight, htls⟩ := hall (hchanges.trans hmoves.changes)
  have hfinal : u.inflight = s.inflight ∧ u.tls = s.tls :=
    ⟨hinflight.trans hframe.inflight, htls.trans hframe.tls⟩
  have hdispatch : ∀ d, d = (if r.op = .accept then submitAccept u else u) →
      d.inflight = s.inflight ∧ d.tls = s.tls := by
    rintro d rfl
    split
    · rcases submitAccept_cases u with h | h
      · rw [h]
        exact hfinal
      · rw [h]
        exact hfinal
    · exact hfinal
  exact hdispatch _ hu

/-- Between two iterations: every request so far found an entry, one accept is outstanding, and so is, of
its own incarnation, whatever a connection has pending; a plain connection receives. -/
structure Server.Attends (tls : Bool) (s : Server) : Prop where
  mode : s.tls = tls
  calm : s.Lacks (· = .noSqe)
  accept : accepting s.inflight = 1
  outstanding : ∀ i, (s.conns i).state ≠ .free → ∀ op, (s.conns i).pending op = true →
    ∃ r ∈ s.inflight, r.op = op ∧ r.slot = i ∧ r.gen = (s.conns i).gen
  listens : ∀ i, (s.conns i).state ≠ .free → (s.conns i).ssl = true ∨ (s.conns i).recvPending = true
  plain : tls = false → ∀ i, .unarmed ∉ (s.conns i).log

theorem pending_delivered (c : Conn) (op op' : Op) :
    (c.delivered op).pending op' = true ↔ c.pending op' = true ∧ op' ≠ op := by
  cases op <;> cases op' <;> simp [Conn.delivered, Conn.pending]

/-- The server when a completion is dispatched. -/
structure Picked (s t : Server) (k : Nat) : Prop extends t.Blank where
  conns : t.conns = s.conns
  inflight : t.inflight = s.inflight.eraseIdx k
  tls : t.tls = s.tls

/-- What is outstanding but for the request that has completed. -/
theorem Picked.others (h : Picked s t k) {r x : Request} (hr : s.inflight[k]? = some r) (hx : x ∈ s.inflight)
    (hne : x ≠ r) : x ∈ t.inflight := by
  obtain ⟨hk, rfl⟩ := List.getElem?_eq_some_iff.mp hr
  rw [h.inflight]
  exact (List.mem_cons.mp ((List.getElem_cons_eraseIdx_perm hk).mem_iff.mpr hx)).resolve_left hne

/-- A request is outstanding unless it was the one that has completed. -/
theorem Picked.outstanding (h : Picked s t k) (hs : s.Attends tls) {r : Request} (hr : s.inflight[k]? = some r)
    (hlive : (s.conns i).state ≠ .free) {op : Op} (hop : (s.conns i).pending op = true)
    (hne : r.op = op → r.slot ≠ i) :
    ∃ x ∈ t.inflight, x.op = op ∧ x.slot = i ∧ x.gen = (s.conns i).gen := by
  obtain ⟨x, hx, hkind, hslot, hgen⟩ := hs.outstanding i hlive op hop
  refine ⟨x, h.others hr hx fun heq => ?_, hkind, hslot, hgen⟩
  rw [heq] at hkind hslot
  exact hne hkind hslot

/-- The request that has completed and those that have not make up one accept. -/
theorem Picked.oneAccept (h : Picked s t k) (hs : s.Attends tls) {r : Request} (hr : s.inflight[k]? = some r) :
    accepting (r :: t.inflight) = 1 := by
  obtain ⟨hk, hget⟩ := List.getElem?_eq_some_iff.mp hr
  refine (List.Perm.countP_eq _ ?_).trans hs.accept
  rw [h.inflight, ← hget]
  exact List.getElem_cons_eraseIdx_perm hk

/-- An accept has completed. -/
theorem attends_accept (h : Picked s t k) (hs : s.Attends tls) {r : Request} (hr : s.inflight[k]? = some r)
    (hop : r.op = .accept) {v : Server} (hv : v = t ∨ ∃ j, Welcomed j t v)
    (hinflight : v.inflight = t.inflight) (htls : v.tls = t.tls) :
    (submitAll { v with sq := v.sq ++ [acceptRequest] }).Attends tls := by
  have hother : ∀ {i op}, (s.conns i).pending op = true → r.op = op → r.slot ≠ i := by
    intro i op hpending hkind
    rw [← hkind, hop] at hpending
    cases hpending
  have hcount : accepting t.inflight = 0 := by
    have hone := h.oneAccept hs hr
    rw [accepting_cons, if_pos hop] at hone
    exact Nat.succ_injective hone
  have hfacts : v.Lacks (· = .noSqe) ∧ (∀ x ∈ v.sq, x.op ≠ .accept) ∧
      (∀ i, (v.conns i).state ≠ .free → ((v.conns i).ssl = true ∨ (v.conns i).recvPending = true) ∧
        ∀ op, (v.conns i).pending op = true →
          ∃ x ∈ v.inflight ++ v.sq, x.op = op ∧ x.slot = i ∧ x.gen = (v.conns i).gen) ∧
        (tls = false → ∀ i, .unarmed ∉ (v.conns i).log) := by
    have hold : ∀ i, (t.conns i).state ≠ .free →
        ((t.conns i).ssl = true ∨ (t.conns i).recvPending = true) ∧
          ∀ op, (t.conns i).pending op = true →
            ∃ x ∈ v.inflight ++ v.sq, x.op = op ∧ x.slot = i ∧ x.gen = (t.conns i).gen := by
      intro i hlive
      rw [h.conns] at hlive ⊢
      refine ⟨hs.listens i hlive, fun op hpending => ?_⟩
      obtain ⟨x, hx, hrest⟩ := h.outstanding hs hr hlive hpending (hother hpending)
      exact ⟨x, List.mem_append_left _ (hinflight ▸ hx), hrest⟩
    have hplain : tls = false → ∀ i, .unarmed ∉ (t.conns i).log := by
      rw [h.conns]
      exact hs.plain
    rcases hv with rfl | ⟨j, hj⟩
    · refine ⟨fun i o hmem heq => h.calm i (heq ▸ hmem), ?_, hold, hplain⟩
      rw [h.sq]
      exact fun _ hx => absurd hx List.not_mem_nil
    · refine ⟨hj.calm, hj.own, fun i hlive => ?_, fun hoff i => ?_⟩
      · by_cases hi : i = j
        · subst hi
          obtain ⟨hlistens, hpending⟩ := hj.self.resolve_left hlive
          refine ⟨hlistens, fun op hop' => ?_⟩
          obtain ⟨x, hx, hrest⟩ := hpending op hop'
          exact ⟨x, List.mem_append_right _ hx, hrest⟩
        · rw [hj.others i hi] at hlive ⊢
          exact hold i hlive
      · by_cases hi : i = j
        · rw [hi]
          exact hj.unarmed
        · rw [hj.others i hi]
          exact hplain hoff i
  obtain ⟨hcalm, hown, hall, hplain⟩ := hfacts
  refine ⟨htls.trans (h.tls.trans hs.mode), hcalm, ?_, fun i hlive op hpending => ?_,
    fun i hlive => (hall i hlive).1, hplain⟩
  · change accepting (v.inflight ++ (v.sq ++ [acceptRequest])) = 1
    rw [accepting_append, accepting_append, hinflight, hcount, accepting_eq_zero hown]
    rfl
  · obtain ⟨x, hx, hrest⟩ := (hall i hlive).2 op hpending
    refine ⟨x, ?_, hrest⟩
    change x ∈ v.inflight ++ (v.sq ++ [acceptRequest])
    rw [← List.append_assoc]
    exact List.mem_append_left _ hx

/-- Any other request has completed. -/
theorem attends_other (h : Picked s t k) (hs : s.Attends tls) {r : Request} (hr : s.inflight[k]? = some r)
    (hop : r.op ≠ .accept) (hplain : tls = false → ∀ i, (s.conns i).ssl = false) {u : Server}
    (hu : u = t ∧ ((t.conns r.slot).state = .free ∨ r.op = .beSend ∨ r.op = .beRecv) ∨
      Handled r.slot (t.updConn r.slot fun c => c.delivered r.op) u ∧ (r.op = .recv →
        (u.conns r.slot).state = .free ∨ (u.conns r.slot).ssl = true ∨
          (u.conns r.slot).recvPending = true))
    (hinflight : u.inflight = t.inflight) (htls : u.tls = t.tls) : (submitAll u).Attends tls := by
  have hcount : accepting t.inflight = 1 := by
    have hone := h.oneAccept hs hr
    rwa [accepting_cons, if_neg hop] at hone
  rcases hu with ⟨rfl, hskip⟩ | ⟨hhandled, hrecv⟩
  · refine ⟨h.tls.trans hs.mode, fun i o hmem heq => h.calm i (heq ▸ hmem), ?_,
      fun i hlive op hpending => ?_, fun i hlive => ?_, fun hoff i => ?_⟩
    · change accepting (u.inflight ++ u.sq) = 1
      rw [h.sq, List.append_nil]
      exact hcount
    · change (u.conns i).state ≠ .free at hlive
      change (u.conns i).pending op = true at hpending
      change ∃ x ∈ u.inflight ++ u.sq, x.op = op ∧ x.slot = i ∧ x.gen = (u.conns i).gen
      rw [h.conns] at hlive hpending hskip ⊢
      obtain ⟨x, hx, hrest⟩ := h.outstanding hs hr hlive hpending fun hkind hslot => by
        rcases hskip with hfree | hbe | hbe
        · exact hlive (hslot ▸ hfree)
        · rw [← hkind, hbe] at hpending
          cases hpending
        · rw [← hkind, hbe] at hpending
          cases hpending
      exact ⟨x, List.mem_append_left _ hx, hrest⟩
    · change (u.conns i).state ≠ .free at hlive
      change (u.conns i).ssl = true ∨ (u.conns i).recvPending = true
      rw [h.conns] at hlive ⊢
      exact hs.listens i hlive
    · change .unarmed ∉ (u.conns i).log
      rw [h.conns]
      exact hs.plain hoff i
  · have hself : (t.updConn r.slot fun c => c.delivered r.op).conns r.slot =
        (s.conns r.slot).delivered r.op := by
      rw [conns_updConn, h.conns]
    have hfields : ((s.conns r.slot).delivered r.op).state = (s.conns r.slot).state ∧
        ((s.conns r.slot).delivered r.op).gen = (s.conns r.slot).gen ∧
        ((s.conns r.slot).delivered r.op).ssl = (s.conns r.slot).ssl ∧
        ((s.conns r.slot).delivered r.op).log = (s.conns r.slot).log := by
      cases r.op <;> exact ⟨rfl, rfl, rfl, rfl⟩
    have hothers : ∀ j, j ≠ r.slot → (t.updConn r.slot fun c => c.delivered r.op).conns j = s.conns j := by
      intro j hj
      rw [← h.conns]
      exact Function.update_of_ne hj ..
    refine ⟨htls.trans (h.tls.trans hs.mode), hhandled.calm, ?_, fun i hlive op hpending => ?_,
      fun i hlive => ?_, fun hoff i => ?_⟩
    · change accepting (u.inflight ++ u.sq) = 1
      rw [accepting_append, hinflight, accepting_eq_zero hhandled.own]
      exact hcount
    · change (u.conns i).state ≠ .free at hlive
      change (u.conns i).pending op = true at hpending
      change ∃ x ∈ u.inflight ++ u.sq, x.op = op ∧ x.slot = i ∧ x.gen = (u.conns i).gen
      rw [hinflight]
      by_cases hi : i = r.slot
      · subst hi
        have hentered := hhandled.self.resolve_left hlive
        rw [hself] at hentered
        rcases hentered.rises op hpending with hbefore | ⟨x, hx, hrest⟩
        · obtain ⟨hbefore, hne⟩ := (pending_delivered _ _ _).mp hbefore
          have hliveS : (s.conns r.slot).state ≠ .free := fun hfree =>
            hlive (hentered.free.mpr (hfields.1.trans hfree))
          obtain ⟨x, hx, hkind, hslot, hgen⟩ := h.outstanding hs hr hliveS hbefore
            fun hkind => absurd hkind.symm hne
          exact ⟨x, List.mem_append_left _ hx, hkind, hslot,
            hgen.trans (hfields.2.1.symm.trans hentered.gen.symm)⟩
        · exact ⟨x, List.mem_append_right _ hx, hrest⟩
      · have hentered := hhandled.others i hi
        rw [hothers i hi] at hentered
        rcases hentered.rises op hpending with hbefore | ⟨x, hx, hrest⟩
        · have hliveS : (s.conns i).state ≠ .free := fun hfree => hlive (hentered.free.mpr hfree)
          obtain ⟨x, hx, hkind, hslot, hgen⟩ := h.outstanding hs hr hliveS hbefore
            fun _ hslot => hi hslot.symm
          exact ⟨x, List.mem_append_left _ hx, hkind, hslot, hgen.trans hentered.gen.symm⟩
        · exact ⟨x, List.mem_append_right _ hx, hrest⟩
    · change (u.conns i).state ≠ .free at hlive
      change (u.conns i).ssl = true ∨ (u.conns i).recvPending = true
      by_cases hi : i = r.slot
      · subst hi
        by_cases hkind : r.op = .recv
        · exact (hrecv hkind).resolve_left hlive
        · have hentered := hhandled.self.resolve_left hlive
          rw [hself] at hentered
          have hliveS : (s.conns r.slot).state ≠ .free := fun hfree =>
            hlive (hentered.free.mpr (hfields.1.trans hfree))
          rcases hs.listens r.slot hliveS with hssl | hpending
          · exact Or.inl (hentered.ssl.trans (hfields.2.2.1.trans hssl))
          · exact Or.inr (hentered.stays .recv
              ((pending_delivered _ _ _).mpr ⟨hpending, fun heq => hkind heq.symm⟩))
      · have hentered := hhandled.others i hi
        rw [hothers i hi] at hentered
        rcases hs.listens i (fun hfree => hlive (hentered.free.mpr hfree)) with hssl | hpending
        · exact Or.inl (hentered.ssl.trans hssl)
        · exact Or.inr (hentered.stays .recv hpending)
    · intro hmem
      change .unarmed ∈ (u.conns i).log at hmem
      by_cases hi : i = r.slot
      · subst hi
        have hfrom := hhandled.unarmed hmem
        rw [hself, hfields.2.2.2, hfields.2.2.1] at hfrom
        rcases hfrom with hmem | hssl
        · exact hs.plain hoff _ hmem
        · exact Bool.true_eq_false.mp (hssl.symm.trans (hplain hoff _))
      · have hfrom := (hhandled.others i hi).unarmed hmem
        rw [hothers i hi] at hfrom
        rcases hfrom with hmem | hssl
        · exact hs.plain hoff _ hmem
        · exact Bool.true_eq_false.mp (hssl.symm.trans (hplain hoff _))

variable (env) in
theorem step_attends (hs : s.Ready) (h : s.Attends tls) (input : Input) : (step w env s input).Attends tls := by
  cases input with
  | timeout now =>
      obtain ⟨hlocal, hconns, -⟩ := serverTick_spec env w ⟨0, by decide⟩ hs.good now
      have hinflight : (serverTick env s now).inflight = s.inflight := hlocal.inflight
      have htls : (serverTick env s now).tls = s.tls := hlocal.tls
      change (serverTick env s now).Attends tls
      generalize serverTick env s now = t at hconns hinflight htls
      refine ⟨htls.trans h.mode, ?_, ?_, ?_, ?_, ?_⟩
      · unfold Server.Lacks
        rw [hconns]
        exact h.calm
      · rw [hinflight]
        exact h.accept
      · rw [hconns, hinflight]
        exact h.outstanding
      · rw [hconns]
        exact h.listens
      · rw [hconns]
        exact h.plain
  | complete now k cqe =>
      cases hr : s.inflight[k]? with
      | none =>
          have heq : step w env s (.complete now k cqe) = submitAll s := by
            simp only [step, dispatch, hr]
          have hin : (submitAll s).inflight = s.inflight := by
            change s.inflight ++ s.sq = s.inflight
            rw [hs.sq, List.append_nil]
          rw [heq]
          refine ⟨h.mode, h.calm, ?_, ?_, h.listens, h.plain⟩
          · rw [hin]
            exact h.accept
          · rw [hin]
            exact h.outstanding
      | some r =>
          have herase : ({ s with inflight := s.inflight.eraseIdx k } : Server).Good none :=
            hs.good.erase fun x hx => List.mem_of_mem_eraseIdx hx
          obtain ⟨htick, hconns, hsq, -, hgood⟩ := serverTick_spec env w r.slot herase now
          have hmode : r.op = .recv ∨ r.op = .send →
              (serverTick env { s with inflight := s.inflight.eraseIdx k } now).tls = false := by
            intro hop
            rw [htick.tls]
            exact hs.good.mode.plain_of (List.mem_of_getElem? hr) hop
          have hpicked : Picked s (serverTick env { s with inflight := s.inflight.eraseIdx k } now) k := by
            refine ⟨⟨hsq.trans hs.sq, fun i hmem => h.calm i _ ?_ rfl⟩, hconns, htick.inflight, htick.tls⟩
            rwa [hconns] at hmem
          have hstep : step w env s (.complete now k cqe) =
              submitAll (dispatchTo w env (drainFeQueue w env (maxConns + 1))
                (serverTick env { s with inflight := s.inflight.eraseIdx k } now) r.op r.slot cqe) := by
            simp only [step, dispatch, hr]
          rw [hstep]
          generalize serverTick env { s with inflight := s.inflight.eraseIdx k } now = t
            at hgood hmode hpicked
          obtain ⟨hinflight, htls⟩ := dispatchTo_rest (w := w) env hgood hmode cqe
          by_cases hop : r.op = .accept
          · obtain ⟨v, hv, heq⟩ := dispatchTo_accept (w := w) env (drainFeQueue w env (maxConns + 1))
              hpicked.toBlank r.slot cqe
            rw [hop, heq] at hinflight htls ⊢
            exact attends_accept hpicked h hr hop hv hinflight htls
          · have hdrain : Drains (drainFeQueue w env (maxConns + 1)) := drainFeQueue_drains (maxConns + 1)
            exact attends_other hpicked h hr hop (fun hoff i => (hs.good.mode.plain (h.mode.trans hoff) i).2)
              (dispatchTo_handled hdrain hpicked.toBlank hop r.slot cqe) hinflight htls

theorem start_attends (cfg : Config) (nonblock : Bool) (now : Nat) :
    (start env cfg nonblock now).Attends (!cfg.plain) :=
  ⟨rfl, fun _ _ hmem => absurd hmem List.not_mem_nil, rfl, fun _ hlive => absurd rfl hlive,
    fun _ hlive => absurd rfl hlive, fun _ _ => List.not_mem_nil⟩

variable (env) in
theorem run_attends (cfg : Config) (nonblock : Bool) (now : Nat) (inputs : List Input) :
    (Runs.run (step w env) (start env cfg nonblock now) inputs).Attends (!cfg.plain) := by
  have hinv : ∀ s input, s.Ready ∧ s.Attends (!cfg.plain) → True →
      (step w env s input).Ready ∧ (step w env s input).Attends (!cfg.plain) :=
    fun s input hs _ => ⟨step_ready env hs.1 input, step_attends _ hs.1 hs.2 input⟩
  exact (Runs.Along.invariant hinv ⟨start_ready env cfg nonblock now, start_attends cfg nonblock now⟩
    (Runs.Along.of_forall (fun _ _ => trivial) _ inputs)).2

/-- What holds of every step that keeps the server attentive holds along every run. -/
theorem along_attends {C D : Server → Input → Prop} {cfg : Config} {nonblock : Bool} {now : Nat}
    {inputs : List Input} (hstep : ∀ s input, C s input → s.Ready →
      (step w env s input).Attends (!cfg.plain) → D s input)
    (hrun : Runs.Along (step w env) C (start env cfg nonblock now) inputs) :
    Runs.Along (step w env) D (start env cfg nonblock now) inputs := by
  have hinv : ∀ s input, s.Ready ∧ s.Attends (!cfg.plain) → C s input →
      ((step w env s input).Ready ∧ (step w env s input).Attends (!cfg.plain)) ∧ D s input := by
    intro s input hs hC
    have hnext := step_attends (w := w) env hs.1 hs.2 input
    exact ⟨⟨step_ready env hs.1 input, hnext⟩, hstep s input hC hs.1 hnext⟩
  exact Runs.Along.imp hinv ⟨start_ready env cfg nonblock now, start_attends cfg nonblock now⟩ hrun

/-- In every run no request is ever left without an entry of the submission queue, and between any two
iterations exactly one accept is outstanding. -/
theorem queue_never_full (cfg : Config) (nonblock : Bool) (now : Nat) (inputs : List Input) :
    let s := Runs.run (step w env) (start env cfg nonblock now) inputs
    (∀ i, .noSqe ∉ (s.conns i).log) ∧ accepting s.inflight = 1 := by
  have h := run_attends (w := w) env cfg nonblock now inputs
  exact ⟨fun i hmem => h.calm i _ hmem rfl, h.accept⟩

/-- A request that notices input is in flight for the connection that has the slot now. -/
def Server.Hears (s : Server) (i : Slot) : Prop :=
  ∃ r ∈ s.inflight, r.slot = i ∧ r.gen = (s.conns i).gen ∧
    r.op = if (s.conns i).ssl then .poll else .recv

/-- In every run each connection in use is heard between any two iterations. -/
theorem connections_heard (cfg : Config) (nonblock : Bool) (now : Nat) (inputs : List Input) :
    let s := Runs.run (step w env) (start env cfg nonblock now) inputs
    ∀ i, (s.conns i).state ≠ .free → s.Hears i := by
  have hready := run_ready (w := w) env cfg nonblock now inputs
  have h := run_attends (w := w) env cfg nonblock now inputs
  generalize Runs.run (step w env) (start env cfg nonblock now) inputs = s at hready h
  dsimp only
  intro i hlive
  cases hssl : (s.conns i).ssl with
  | true =>
      have hpolled : (s.conns i).pending .poll = true :=
        hready.good.polled i (Option.some_ne_none i) hlive hssl
      obtain ⟨r, hr, hop, hslot, hgen⟩ := h.outstanding i hlive .poll hpolled
      refine ⟨r, hr, hslot, hgen, hop.trans ?_⟩
      rw [hssl]
      rfl
  | false =>
      have hrecv : (s.conns i).pending .recv = true :=
        (h.listens i hlive).resolve_left (Bool.eq_false_iff.mp hssl)
      obtain ⟨r, hr, hop, hslot, hgen⟩ := h.outstanding i hlive .recv hrecv
      refine ⟨r, hr, hslot, hgen, hop.trans ?_⟩
      rw [hssl]
      rfl

/-- Output that was not sent yet is on its way: a write of the connection that has the slot now is in
flight. -/
def Server.Writes (s : Server) (i : Slot) : Prop :=
  ∃ r ∈ s.inflight, r.slot = i ∧ r.gen = (s.conns i).gen ∧ r.op = .send

/-- In every run of a plain server output never gets stuck. -/
theorem plain_output_written {cfg : Config} (hplain : cfg.plain = true) (nonblock : Bool) (now : Nat)
    (inputs : List Input) :
    let s := Runs.run (step w env) (start env cfg nonblock now) inputs
    ∀ i, (s.conns i).state ≠ .free → (s.conns i).sendOff < (s.conns i).sendLen → s.Writes i := by
  have hready := run_ready (w := w) env cfg nonblock now inputs
  have h := run_attends (w := w) env cfg nonblock now inputs
  have hoff : (!cfg.plain) = false := by
    rw [hplain]
    rfl
  have hstart : (start env cfg nonblock now).Carries :=
    ⟨fun i => Or.inl fun hlt => absurd hlt (Nat.lt_irrefl 0), fun i hlive => absurd rfl hlive⟩
  have hstep : ∀ s input, True → s.Ready → (step w env s input).Attends (!cfg.plain) →
      Delivers (fun _ _ => True) s input ∧ (step w env s input).Lacks fun o => o.strands = true := by
    intro s input _ _ hnext
    refine ⟨delivers_any s input, fun i o hmem hstrands => ?_⟩
    cases o with
    | noSqe => exact hnext.calm i _ hmem rfl
    | unarmed => exact hnext.plain hoff i hmem
    | _ => cases hstrands
  have hcarries := carries_stable.run hstart
    (along_attends hstep (Runs.Along.of_forall (fun _ _ => trivial) _ inputs))
  generalize Runs.run (step w env) (start env cfg nonblock now) inputs = s at hready h hcarries
  dsimp only
  intro i hlive hunsent
  have hflows := ((hcarries.flows i).resolve_right fun hmem =>
    hlive (hready.finished i (Option.some_ne_none i) hmem)) hunsent
  have hssl : (s.conns i).ssl = false := (hready.good.mode.plain (h.mode.trans hoff) i).2
  rw [if_neg (Bool.eq_false_iff.mp hssl)] at hflows
  obtain ⟨r, hr, hop, hslot, hgen⟩ := h.outstanding i hlive .send hflows
  exact ⟨r, hr, hslot, hgen, hop⟩

/-- The first answers to a client are being written. -/
theorem plain_output_written_startup :
    (smallRun [accepts 0, receives 0 [.startup]]).Writes ⟨0, by decide⟩ ∧
      ((smallRun [accepts 0, receives 0 [.startup]]).conns ⟨0, by decide⟩).sendLen = 15 :=
  ⟨plain_output_written rfl true 0 [accepts 0, receives 0 [.startup]] ⟨0, by decide⟩ (by decide +kernel)
    (by decide +kernel), by decide +kernel⟩

theorem countFor_either (i : Slot) (gen : Nat) (rs : List Request) :
    rs.countP (fun r => decide ((r.op = .beSend ∨ r.op = .beRecv) ∧ r.slot = i ∧ r.gen = gen)) =
      countFor .beSend i gen rs + countFor .beRecv i gen rs := by
  induction rs with
  | nil => rfl
  | cons r rs ih =>
      unfold countFor at ih ⊢
      rw [List.countP_cons, List.countP_cons, List.countP_cons, ih]
      by_cases hown : r.slot = i ∧ r.gen = gen
      · cases r.op <;> simp [hown] <;> omega
      · simp [hown]

/-- One request to a backend is in flight for the pipeline of a connection. -/
def Server.Awaits (s : Server) (i : Slot) : Prop :=
  s.inflight.countP (fun r => decide ((r.op = .beSend ∨ r.op = .beRecv) ∧ r.slot = i ∧
    r.gen = (s.conns i).gen)) = 1

/-- As long as completions are of requests of the incarnations that have the slots, a connection holds a
backend exactly while one request to it is in flight, so that every pipeline goes on. -/
theorem pipelines_awaited {cfg : Config} {nonblock : Bool} {now : Nat} {inputs : List Input}
    (hrun : Runs.Along (step w env) (Delivers Current) (start env cfg nonblock now) inputs) :
    let s := Runs.run (step w env) (start env cfg nonblock now) inputs
    ∀ i, (s.conns i).state ≠ .free → ((s.conns i).be ≠ none ↔ s.Awaits i) := by
  have hready := run_ready (w := w) env cfg nonblock now inputs
  have hstep : ∀ s input, Delivers Current s input → s.Ready →
      (step w env s input).Attends (!cfg.plain) →
        Delivers Current s input ∧ (step w env s input).Lacks (· = .noSqe) :=
    fun s input hcurrent _ hnext => ⟨hcurrent, hnext.calm⟩
  have howns := owns_stable.run (start_owns cfg nonblock now) (along_attends hstep hrun)
  generalize Runs.run (step w env) (start env cfg nonblock now) inputs = s at hready howns
  dsimp only
  intro i hlive
  have hcoherent : (s.conns i).Coherent :=
    (howns.coherent i).resolve_right fun hc => hc.live (hready.finished i (Option.some_ne_none i) hc.closed)
  have hsend := howns.accounted.pending i .beSend (Or.inl rfl) hlive
  have hrecv := howns.accounted.pending i .beRecv (Or.inr rfl) hlive
  have hsum := hcoherent.requests
  have houtstanding : s.outstanding = s.inflight := by
    unfold Server.outstanding
    rw [hready.sq, List.append_nil]
  rw [houtstanding] at hsend hrecv
  unfold Server.Awaits
  rw [countFor_either, hsend, hrecv]
  change _ ↔ (s.conns i).beSendPending.toNat + (s.conns i).beRecvPending.toNat = 1
  rw [hsum]
  by_cases hnone : (s.conns i).be = none
  · rw [if_pos hnone]
    exact ⟨fun hheld => absurd hnone hheld, fun h => absurd h Nat.zero_ne_one⟩
  · rw [if_neg hnone]
    exact ⟨fun _ => rfl, fun _ => hnone⟩

/-- The pipeline of the only client goes on. -/
theorem pipelines_awaited_bind :
    (smallRun [accepts 0, receives 0 [.startup, .parse smallParse, .bind smallBind]]).Awaits
      ⟨0, by decide⟩ := by
  have hrun : Runs.Along (step pgWire smallEnv) (Delivers Current) (start smallEnv smallConfig true 0)
      [accepts 0, receives 0 [.startup, .parse smallParse, .bind smallBind]] := by decide +kernel
  exact (pipelines_awaited hrun ⟨0, by decide⟩ (by decide +kernel)).mp (by decide +kernel)

end
