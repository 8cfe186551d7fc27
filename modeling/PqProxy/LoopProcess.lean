import PqProxy.LoopDrain

/-! The messages of a frontend: every event that is handled is one turn of its connection, and the
connection is rested afterwards, whether or not the handler fails. -/

/-- The connections and the pool agree, nothing waits that could be handled, and no queue is being
drained. -/
structure Server.Steady (s : Server) : Prop extends Sound s where
  rested : ∀ j, (s.conns j).Rested
  undrained : ∀ j, (s.conns j).drainingQueue = false

/-- A connection past its handshake is authenticated where that is required. -/
def Conn.Admitted (cfg : Config) (c : Conn) : Prop :=
  c.Open → c.identityReady = true ∨ cfg.requireMtls = false

/-- `drain_fe_queue` as the dispatch calls it. -/
def drainQueue (w : Pqwire) (env : Env) : Server → Slot → Server × Bool :=
  drainFeQueue w env (maxConns + 1)

theorem drainQueue_spec (w : Pqwire) (env : Env) : DrainSpec w (maxConns + 1) (drainQueue w env) :=
  drainFeQueue_spec w env (maxConns + 1)

section

variable {w : Pqwire} (env : Env) {i : Slot} {s t u : Server}

theorem Server.Steady.calm (hs : s.Steady) : s.Calm := fun j hj =>
  nomatch (hs.undrained j).symm.trans hj

theorem Server.Steady.room (_hs : s.Steady) : maxConns < maxConns + 1 + drainingCount s := by omega

theorem Server.Steady.quiet (hs : s.Steady) (hidle : (s.conns i).beWait = .idle) :
    (s.conns i).Quiet := (hs.rested i).resolve_left fun h => h hidle

/-- Turns on behalf of one connection that leave it rested. -/
structure Settled (w : Pqwire) (i : Slot) (s t : Server) : Prop where
  kept : Kept w (some i) s t
  rested : (t.conns i).Rested

namespace Settled

theorem refl (hs : s.Steady) : Settled w i s s := ⟨.refl s, hs.rested i⟩

theorem steady (h : Settled w i s t) (hs : s.Steady) : t.Steady where
  toSound := hs.path h.kept.path
  rested := by
    intro j
    by_cases hj : j = i
    · rw [hj]
      exact h.rested
    · exact h.kept.rested j (fun heq => hj (Option.some.inj heq)) (hs.rested j)
  undrained := fun j => (h.kept.draining j).trans (hs.undrained j)

theorem trans (h : Settled w i s t) (k : Settled w i t u) : Settled w i s u :=
  ⟨h.kept.trans k.kept, k.rested⟩

theorem keeps (h : Settled w i s t) (j : Slot) : Keeps (s.conns j) (t.conns j) :=
  (h.kept.path.keeps j).1

/-- A turn that leaves the backend side and the queue. -/
theorem of_turn (hs : s.Steady) (h : ActTurn w i s t)
    (hside : (t.conns i).side = (s.conns i).side) : Settled w i s t := by
  simp only [Conn.side, Prod.mk.injEq] at hside
  obtain ⟨-, hwait, hdrain, hqueue⟩ := hside
  have hkept := Kept.of_turn h hdrain
  refine ⟨hkept, ?_⟩
  rcases hs.rested i with hrest | hrest | hrest
  · exact Or.inl (by rwa [hwait])
  · exact Or.inr (Or.inl (by rwa [hqueue]))
  · exact Or.inr (Or.inr (hkept.path.upset hrest))

end Settled

theorem Settled.open (h : Settled w i s t) (hopen : (s.conns i).Open) : (t.conns i).Open :=
  (h.keeps i).open hopen

/-- Connections that are not worked for stay as far from or as near to their identity as before. -/
theorem Kept.admitted {x : Option Slot} {cfg : Config} (h : Kept w x s t) (hs : s.Sound) {j : Slot}
    (hj : some j ≠ x) (hadm : (s.conns j).Admitted cfg) : (t.conns j).Admitted cfg := by
  by_cases hopen : (s.conns j).Open
  · obtain ⟨-, hready⟩ := (h.path.keeps j).1.identity hopen.2
    exact fun _ => hready ▸ hadm hopen
  · have hidle := (hs.tidy j hopen).1
    rw [(h.still j hj (Or.inl fun hw => nomatch hidle.symm.trans hw)).1]
    exact hadm

theorem Settled.admitted {cfg : Config} (h : Settled w i s t) (hopen : (s.conns i).Open)
    (hadm : (s.conns i).Admitted cfg) : (t.conns i).Admitted cfg := by
  obtain ⟨-, hready⟩ := (h.keeps i).identity hopen.2
  exact fun _ => hready ▸ hadm hopen

/-- The output side of the connection. -/
theorem settled_io (hs : s.Steady) (hlive : (s.conns i).state ≠ .free) {f : Cell → Cell × Bool}
    (hio : Io [] (s.cell i) (f (s.cell i)).1) : Settled w i s (s.onCell i f).1 :=
  .of_turn hs (turn_io hs.toOwned hlive hio) (by rw [conns_onCell]; exact hio.side)

theorem settled_ioConn (hs : s.Steady) {f : Conn → Conn × Bool}
    (hio : Io [] (s.cell i) ((s.cell i).onConn f).1) : Settled w i s (s.onConn i f).1 := by
  have hself : (s.onConn i f).1.conns i = (f (s.conns i)).1 := Function.update_self ..
  have hside : (f (s.conns i)).1.side = (s.conns i).side := hio.side
  have hfields := hside
  simp only [Conn.side, Prod.mk.injEq] at hfields
  refine .of_turn hs (turn_onConn hs.toOwned hfields.1 (by rw [hfields.2.1]) (.io hio)) ?_
  rw [hself, hside]

/-! ### Binds -/

theorem updConn_updConn (s : Server) (i : Slot) (f g : Conn → Conn) :
    (s.updConn i f).updConn i g = s.updConn i fun c => g (f c) := by
  simp [Server.updConn, Server.setConn]

/-- A Bind is received by a connection that is idle. -/
def Conn.takeUp (w : Pqwire) (bind : PqBind) (c : Conn) : Conn :=
  ((c.received (.bind bind)).binding w bind).emptyResp.clearGot

@[simp] theorem side_note (c : Conn) (o : Obs) : (c.note o).side = c.side := rfl

@[simp] theorem side_emptyResp (c : Conn) : c.emptyResp.side = c.side := rfl

@[simp] theorem side_clearGot (c : Conn) : c.clearGot.side = c.side := rfl

theorem side_takeUp (c : Conn) (bind : PqBind) : (c.takeUp w bind).side = c.side := by
  simp [Conn.takeUp, Conn.binding, Conn.received]

/-- The flags that a new pipeline clears are clear already. -/
theorem begin_takeUp (c : Conn) (bind : PqBind) (b : Nat) :
    (c.takeUp w bind).checkingOut.begin b = (c.takeUp w bind).begun b := rfl

theorem took_event {bind : PqBind} (hs : s.Steady) (hopen : (s.conns i).Open)
    (hidle : (s.conns i).beWait = .idle) :
    Took w i (.event bind) s (s.updConn i (Conn.takeUp w bind)) := by
  have hconn : (s.updConn i (Conn.takeUp w bind)).conns i = (s.conns i).takeUp w bind :=
    conns_updConn ..
  have hside := side_takeUp (w := w) (s.conns i) bind
  have harrive : BindArrives w (s.cell i) (.event bind) ((s.cell i).upd (Conn.takeUp w bind)) :=
    .direct hopen hidle (hs.quiet hidle)
  have hbeside : Beside i s (s.updConn i (Conn.takeUp w bind)) := .updConn s _
  have hring : (s.updConn i (Conn.takeUp w bind)).waiters = s.waiters := rfl
  rw [← cell_updConn] at harrive
  rw [← hconn] at hside
  generalize s.updConn i (Conn.takeUp w bind) = t at hside harrive hbeside hring
  simp only [Conn.side, Prod.mk.injEq] at hside
  exact ⟨hbeside, harrive, ⟨hidle, hside.2.1.trans hidle⟩, hside.1, hring, hside.2.2.1⟩

/-- A Bind that was not stored is only noted. -/
theorem feqPushBind_dropped {c c' : Conn} {bind : PqBind} (h : feqPushBind w c bind = (c', false)) :
    ∃ it, c' = c.note (.dropped it) := by
  rcases feqPushBind_cases (w := w) c bind with ⟨it, -, heq⟩ | heq
  · rw [heq] at h
    rcases feqPush_cases c (.bind it) with ⟨q, -, hpush⟩ | hpush
    · rw [hpush] at h
      cases h
    · rw [hpush] at h
      cases h
      exact ⟨_, rfl⟩
  · rw [heq] at h
    cases h
    exact ⟨_, rfl⟩

theorem Pending.dropped {src : BindSource} {c : Cell} (h : Pending w i src c s t) (hown : Owned s)
    (it : FeqItem) : Pending w i src c s (t.setConn i ((t.conns i).note (.dropped it))) := by
  have hconn : (t.setConn i ((t.conns i).note (.dropped it))).conns i =
      (t.conns i).note (.dropped it) := Function.update_self ..
  have hbeside := Beside.setConn (i := i) t ((t.conns i).note (.dropped it))
  have hbe : ((t.setConn i ((t.conns i).note (.dropped it))).conns i).be = (t.conns i).be := by
    rw [hconn]
    rfl
  obtain ⟨l, hcell, hl⟩ := h.tried
  refine { h.toLocal.trans (hbeside.local (hown.frame h.toFrame) hbe) with
    arrives := h.arrives
    tried := ⟨l ++ [.dropped it], ?_, ?_⟩
    backend := (hbeside.held hbe).trans h.backend
    be := hbe.trans h.be
    ring := h.ring
    draining := ?_
    wait := ?_ }
  · have hafter : (t.setConn i ((t.conns i).note (.dropped it))).cell i =
        (t.cell i).upd fun conn => conn.note (.dropped it) :=
      cell_updConn t i fun conn => conn.note (.dropped it)
    rw [hafter, hcell]
    simp [Cell.upd, Conn.note]
  · intro o ho
    rcases List.mem_append.mp ho with ho | ho
    · exact hl o ho
    · exact Or.inr ⟨it, List.mem_singleton.mp ho⟩
  · rw [hconn]
    exact h.draining
  · rw [hconn]
    exact h.wait

/-- A Bind that was received is run by blocking calls. -/
theorem blockingBind_settled {v : Server} {x : Cell} {bind : PqBind} (hs : s.Steady)
    (hkept : Kept w (some i) s v) (hpending : Pending w i (.event bind) x v u)
    (hqueue : x.conn.feQ = (s.conns i).feQ ∨ .noSqe ∈ (v.conns i).log)
    (hidle : (s.conns i).beWait = .idle) :
    Settled w i s (blockingBind w env u i bind).1 := by
  have hbind : bind = BindSource.bind w (.event bind) := rfl
  obtain ⟨hturn, -, hdrain, hfeQ⟩ :=
    blockingBind_spec env (hs.path hkept.path) hpending (Or.inl hbind)
  have hstep := Kept.of_turn hturn hdrain
  have hall := hkept.trans hstep
  refine ⟨hall, Or.inr ?_⟩
  rcases hqueue with h | h
  · rcases hs.quiet hidle with hq | hq
    · exact Or.inl (by rw [hfeQ, h, hq])
    · exact Or.inr (hall.path.upset hq)
  · exact Or.inr (hstep.path.upset (Or.inl h))

theorem processBind_spec (hs : s.Steady) (hopen : (s.conns i).Open)
    (hidle : (s.conns i).beWait = .idle) (bind : PqBind) :
    Settled w i s (processBind w env (drainQueue w env)
      (s.updConn i fun c => c.received (.bind bind)) i bind).1 := by
  have htook : Took w i (.event bind) s (s.updConn i (Conn.takeUp w bind)) :=
    took_event hs hopen hidle
  have htwice : (s.updConn i fun c => c.received (.bind bind)).updConn i
      (fun c => (c.binding w bind).emptyResp.clearGot) = s.updConn i (Conn.takeUp w bind) :=
    updConn_updConn s i _ _
  have hconn : (s.updConn i (Conn.takeUp w bind)).conns i = (s.conns i).takeUp w bind :=
    conns_updConn ..
  have hside := side_takeUp (w := w) (s.conns i) bind
  have hqueue : ((s.conns i).takeUp w bind).feQ = (s.conns i).feQ := congrArg (fun x => x.2.2.2) hside
  have hgot : ∀ b, id (((s.conns i).takeUp w bind).checkingOut.begin b) =
      ((s.conns i).takeUp w bind).begun b := begin_takeUp (s.conns i) bind
  rw [← hconn] at hqueue hgot
  unfold processBind
  rw [htwice]
  dsimp only
  generalize s.updConn i (Conn.takeUp w bind) = t at htook hqueue hgot ⊢
  have hblocking := blockingBind_settled env hs (.refl s) (htook.untried hs.toSound)
    (Or.inl hqueue) hidle
  split
  · rename_i huse
    have hready : (t.conns i).identityReady = true := by
      simp only [Server.usesPool, Bool.and_eq_true] at huse
      exact huse.1.2
    have hstarted := startPipeline_spec env (drainQueue_spec w env) hs.toSound hs.calm hs.room htook
      hready hgot
    change Started w i (.event bind) s t (startAsyncBindFromEvent w env (drainQueue w env) t i bind)
      at hstarted
    generalize startAsyncBindFromEvent w env (drainQueue w env) t i bind = r at hstarted ⊢
    obtain ⟨u, _ | _⟩ := r
    · obtain ⟨v, x, hkept, hrefused, -, hqueueV⟩ := hstarted.refused rfl
      rw [hqueue] at hqueueV
      have hown := (hs.path hkept.path).toOwned
      have hpending := hrefused.toPending
      dsimp only at hrefused hpending ⊢
      split
      · rename_i hfair
        split
        · rename_i c hpush
          obtain ⟨it, rfl⟩ := feqPushBind_dropped hpush
          exact blockingBind_settled env hs hkept (hpending.dropped hown it) hqueueV hidle
        · rename_i c hpush
          have hrequeue : requeue w (u.conns i) (.event bind) = some c := by
            dsimp only [requeue]
            rw [hpush]
          obtain ⟨hok, hturn, hwait, hdrain⟩ := park_spec (hs.path hkept.path) hrefused hfair hrequeue
          generalize parkForBackend (u.setConn i c) i = q at hok hturn hwait hdrain ⊢
          obtain ⟨q, ok⟩ := q
          dsimp only at hok
          subst hok
          exact ⟨hkept.trans (.of_turn hturn hdrain), Or.inl fun h => by cases hwait.symm.trans h⟩
      · exact blockingBind_settled env hs hkept hpending hqueueV hidle
    · obtain ⟨hkept, hrest, -⟩ := hstarted.done rfl
      exact ⟨hkept, hrest⟩
  · exact hblocking

/-! ### Other messages -/

/-- An idle connection takes up a request that was received. -/
theorem takenUp_event {e : Event} {it : FeqItem} (hs : s.Steady) (hopen : (s.conns i).Open)
    (hidle : (s.conns i).beWait = .idle) (hwork : e.work = some it) :
    TakenUp i it s (s.updConn i fun c => c.received e) := by
  refine ⟨.updConn s _, ?_, rfl⟩
  rw [cell_updConn]
  exact .direct hwork hopen hidle (hs.quiet hidle)

theorem settled_answer (hs : s.Steady) {e : Event}
    (h : ActTurn w i s u ∧ (u.conns i).side = ((s.updConn i fun c => c.received e).conns i).side) :
    Settled w i s u :=
  .of_turn hs h.1 (h.2.trans (by rw [conns_updConn]; exact side_note _ _))

theorem processQuery_spec (hs : s.Steady) (hopen : (s.conns i).Open)
    (hidle : (s.conns i).beWait = .idle) (sql : Text) :
    Settled w i s (processQuery w env (s.updConn i fun c => c.received (.query sql)) i sql).1 := by
  have htaken := takenUp_event (e := .query sql) hs hopen hidle rfl
  refine settled_answer hs (e := .query sql) ?_
  have hcfg : (s.updConn i fun c => c.received (.query sql)).cfg = s.cfg := rfl
  generalize s.updConn i (fun c => c.received (.query sql)) = t at htaken hcfg ⊢
  unfold processQuery
  split
  · exact answer_onConn hs.toSound htaken (.query sql _)
  · rename_i p hpool
    split
    · exact answer_onConn hs.toSound htaken (.query sql _)
    · rename_i hforward
      obtain ⟨hreject, hready⟩ := not_or.mp hforward
      rw [Bool.not_eq_true, hcfg] at hreject
      rw [Bool.not_eq_false] at hready
      dsimp only
      generalize hexec : execQuery w env p ((t.updConn i Conn.checkingOut).conns i).id.group
        sql ioBuf = x
      obtain ⟨p', r⟩ := x
      exact answer_forward env hs.toSound htaken hpool hreject hexec fun hsound =>
        .forward sql hsound hready hreject

theorem side_queueEvent (c : Conn) (e : Event) : (queueEvent w c e).be = c.be ∧
    (queueEvent w c e).beWait = c.beWait ∧ (queueEvent w c e).drainingQueue = c.drainingQueue := by
  have hreply : ∀ (d : Conn) (r : Reply), (reply w d r).1.be = d.be ∧
      (reply w d r).1.beWait = d.beWait ∧ (reply w d r).1.drainingQueue = d.drainingQueue := by
    intro d r
    rw [reply_conn]
    exact ⟨rfl, rfl, rfl⟩
  have hboth : ∀ (d : Conn) (r r' : Reply), (replyBoth w d r r').be = d.be ∧
      (replyBoth w d r r').beWait = d.beWait ∧
        (replyBoth w d r r').drainingQueue = d.drainingQueue := by
    intro d r r'
    obtain ⟨h₁, h₂, h₃⟩ := hreply d r
    obtain ⟨k₁, k₂, k₃⟩ := hreply (reply w d r).1 r'
    exact ⟨k₁.trans h₁, k₂.trans h₂, k₃.trans h₃⟩
  have hpush : ∀ it, (feqPush c it).1.be = c.be ∧ (feqPush c it).1.beWait = c.beWait ∧
      (feqPush c it).1.drainingQueue = c.drainingQueue := by
    intro it
    rcases feqPush_cases c it with ⟨q, -, h⟩ | h
    · rw [h]
      exact ⟨rfl, rfl, rfl⟩
    · rw [h]
      exact ⟨rfl, rfl, rfl⟩
  have htrans : ∀ {d f : Conn}, f.be = d.be ∧ f.beWait = d.beWait ∧
      f.drainingQueue = d.drainingQueue → d.be = c.be ∧ d.beWait = c.beWait ∧
        d.drainingQueue = c.drainingQueue → f.be = c.be ∧ f.beWait = c.beWait ∧
          f.drainingQueue = c.drainingQueue :=
    fun h k => ⟨h.1.trans k.1, h.2.1.trans k.2.1, h.2.2.trans k.2.2⟩
  cases e with
  | parse msg =>
      have h := hpush (.parse msg)
      dsimp only [queueEvent, feqPushParse]
      generalize feqPush c (.parse msg) = r at h
      obtain ⟨c', _ | _⟩ := r
      · exact htrans (hreply _ _) h
      · exact h
  | bind msg =>
      have h : (feqPushBind w c msg).1.be = c.be ∧ (feqPushBind w c msg).1.beWait = c.beWait ∧
          (feqPushBind w c msg).1.drainingQueue = c.drainingQueue := by
        rcases feqPushBind_cases (w := w) c msg with ⟨it, -, heq⟩ | heq
        · rw [heq]
          exact hpush _
        · rw [heq]
          exact ⟨rfl, rfl, rfl⟩
      dsimp only [queueEvent]
      generalize feqPushBind w c msg = r at h
      obtain ⟨c', _ | _⟩ := r
      · exact htrans (hboth _ _ _) h
      · exact h
  | execute =>
      have h := hpush .execute
      dsimp only [queueEvent]
      generalize feqPush c .execute = r at h
      obtain ⟨c', _ | _⟩ := r
      · exact h
      · exact h
  | sync => exact hpush .sync
  | query sql =>
      have h := hpush (.query (sql.copyTo w.maxQueryLen))
      dsimp only [queueEvent]
      generalize feqPush c (.query (sql.copyTo w.maxQueryLen)) = r at h
      obtain ⟨c', _ | _⟩ := r
      · exact htrans (hboth _ _ _) h
      · exact h
  | startup => exact ⟨rfl, rfl, rfl⟩
  | terminate => exact ⟨rfl, rfl, rfl⟩
  | other => exact ⟨rfl, rfl, rfl⟩

/-- A message for a connection that is busy with its backend, or waits for one. -/
theorem enqueue_spec (hs : s.Steady) (hwait : (s.conns i).beWait ≠ .idle) {e : Event}
    (he : e.work ≠ none ∨ ∃ bind, e = .bind bind) :
    Settled w i s (s.updConn i fun c => queueEvent w (c.received e) e) := by
  obtain ⟨hbe, hsame, hdrain⟩ := side_queueEvent (w := w) ((s.conns i).received e) e
  have hact : Act w s.cfg s.pool.isSome (s.cell i) (s.held i)
      ((s.cell i).upd fun c => queueEvent w (c.received e) e) (s.held i) := .enqueue hwait he
  have hturn := turn_updConn hs.toOwned (f := fun c => queueEvent w (c.received e) e) hbe
    (by rw [hsame]; exact Iff.rfl) hact
  refine ⟨.of_turn hturn ?_, Or.inl ?_⟩
  · rw [conns_updConn]
    exact hdrain
  · rw [conns_updConn]
    exact fun h => hwait (hsame.symm.trans h)

/-- A message that is answered at once, or queued. -/
theorem handled_spec (hs : s.Steady) {e : Event} {r : Server × Bool}
    (he : e.work ≠ none ∨ ∃ bind, e = .bind bind)
    (hidle : (s.conns i).beWait = .idle → Settled w i s r.1) :
    Settled w i s (if (s.conns i).beWait ≠ .idle then
      ((s.updConn i fun c => c.received e).updConn i fun c => queueEvent w c e, true) else r).1 := by
  split
  · rename_i hwait
    rw [updConn_updConn]
    exact enqueue_spec hs hwait he
  · rename_i hwait
    exact hidle (Classical.not_not.mp hwait)

theorem processEvent_spec (hs : s.Steady) (hopen : (s.conns i).Open) (e : Event) :
    Settled w i s (processEvent w env (drainQueue w env) s i e).1 := by
  have hreceived : (s.updConn i fun c => c.note (.received e (s.conns i).beWait)) =
      s.updConn i fun c => c.received e := rfl
  unfold processEvent
  dsimp only
  rw [hreceived]
  cases e with
  | startup =>
      have hbeside : Beside i s ((s.updConn i fun c => c.received .startup).onConn i
          (answerStartup w)).1 := (Beside.updConn s _).trans (.onConn _ _)
      have hconn : ((s.updConn i fun c => c.received .startup).onConn i (answerStartup w)).1.conns i =
          (answerStartup w ((s.conns i).received .startup)).1 := by
        rw [show ((s.updConn i fun c => c.received .startup).onConn i (answerStartup w)).1.conns i =
          (answerStartup w ((s.updConn i fun c => c.received .startup).conns i)).1 from
            Function.update_self .., conns_updConn]
      have hside : (answerStartup w ((s.conns i).received .startup)).1.side = (s.conns i).side :=
        (side_replyThen _ _ _).trans (side_note _ _)
      rw [← hconn] at hside
      have hfields := hside
      simp only [Conn.side, Prod.mk.injEq] at hfields
      refine .of_turn hs (hbeside.turn hs.toOwned hfields.1 (fun h => hfields.2.1 ▸ h)
        (fun hfree => absurd hfree hopen.1) (Or.inl ⟨rfl, fun h => hfields.2.1.trans h⟩) ?_) hside
      rw [cell_onConn, cell_updConn]
      exact .startup hopen
  | terminate =>
      dsimp only
      rw [updConn_updConn]
      refine .of_turn hs (turn_updConn hs.toOwned rfl Iff.rfl (.terminate hopen hs.quiet)) ?_
      rw [conns_updConn]
      rfl
  | other =>
      refine .of_turn hs (turn_updConn hs.toOwned rfl Iff.rfl .ignore) ?_
      rw [conns_updConn]
      rfl
  | parse msg =>
      refine handled_spec hs (Or.inl (by rintro ⟨⟩)) fun hidle => ?_
      exact settled_answer hs (e := .parse msg) (answer_updConn hs.toSound
        (takenUp_event hs hopen hidle rfl) (.parse msg))
  | bind msg =>
      exact handled_spec hs (Or.inr ⟨msg, rfl⟩) fun hidle => processBind_spec env hs hopen hidle msg
  | execute =>
      refine handled_spec hs (Or.inl (by rintro ⟨⟩)) fun hidle => ?_
      exact settled_answer hs (e := .execute) (answer_onConn hs.toSound
        (takenUp_event hs hopen hidle rfl) .execute)
  | sync =>
      refine handled_spec hs (Or.inl (by rintro ⟨⟩)) fun hidle => ?_
      exact settled_answer hs (e := .sync) (answer_onCell hs.toSound
        (takenUp_event hs hopen hidle rfl) .sync)
  | query sql =>
      exact handled_spec hs (Or.inl (by rintro ⟨⟩)) fun hidle => processQuery_spec env hs hopen hidle sql

theorem processEvents_spec (es : List Event) (hs : s.Steady) (hopen : (s.conns i).Open) :
    Settled w i s (processEvents w env (drainQueue w env) es s i).1 := by
  induction es generalizing s with
  | nil => exact .refl hs
  | cons e es ih =>
      have hstep := processEvent_spec (w := w) env hs hopen e
      rw [processEvents]
      generalize processEvent w env (drainQueue w env) s i e = r at hstep
      obtain ⟨u, _ | _⟩ := r
      · exact hstep
      · exact hstep.trans (ih (hstep.steady hs) (hstep.open hopen))

theorem processFrontend_spec (es : List Event) (hs : s.Steady) (hopen : (s.conns i).Open)
    (hadm : (s.conns i).Admitted s.cfg) :
    Settled w i s (processFrontend w env (drainQueue w env) s i es).1 := by
  have hfeed : Settled w i s (s.updConn i fun c => c.note (.fed c.identityReady c.id)) := by
    refine .of_turn hs (turn_updConn hs.toOwned rfl Iff.rfl (.feed hopen (hadm hopen))) ?_
    rw [conns_updConn]
    rfl
  unfold processFrontend
  generalize s.updConn i (fun c => c.note (.fed c.identityReady c.id)) = t at hfeed ⊢
  have hevents := processEvents_spec (w := w) env es (hfeed.steady hs) (hfeed.open hopen)
  generalize processEvents w env (drainQueue w env) es t i = r at hevents
  obtain ⟨u, _ | _⟩ := r
  · exact hfeed.trans hevents
  · exact (hfeed.trans hevents).trans (settled_io (hevents.steady (hfeed.steady hs))
      ((hfeed.trans hevents).open hopen).1 (drainFrontendOut_io (u.cell i)).1)

end
