import PqProxy.LoopStart

/-! The drain of the queue of one connection: every request taken from it is one turn, and the
connection is rested in the end. The depth of the calls is enough for every connection. -/

section

variable {w : Pqwire} (env : Env) {i : Slot} {s t u : Server}

theorem side_replyThen (c : Conn) (r r' : Reply) : (replyThen w c r r').1.side = c.side := by
  have hfirst := side_reply (w := w) c r
  unfold replyThen
  generalize reply w c r = res at hfirst
  obtain ⟨c₁, ok⟩ := res
  cases ok with
  | false => exact hfirst
  | true => exact (side_reply c₁ r').trans hfirst

theorem side_replyBoth (c : Conn) (r r' : Reply) : (replyBoth w c r r').side = c.side :=
  (side_reply _ r').trans (side_reply c r)

theorem Io.side {extra : Bytes} {c c' : Cell} (h : Io extra c c') : c'.conn.side = c.conn.side := by
  rw [h.conn]
  rfl

theorem side_queueBackend (c : Cell) (data : Bytes) :
    (queueBackend c data).1.slot = c.slot ∧ (queueBackend c data).1.conn.side = c.conn.side := by
  obtain ⟨hio, -⟩ := queuePlainSend_io (c.note (.handed c.conn.frontend data)) data
  exact ⟨hio.slot, hio.side⟩

theorem side_answerParse (cfg : Config) (c : Conn) (parse : PqParse) :
    (answerParse w cfg c parse).side = c.side := by
  obtain ⟨cache, h | h⟩ := answerParse_cases (w := w) cfg c parse
  · rw [h]
    rfl
  · rw [h]
    exact side_replyBoth _ _ _

theorem side_answerExecute (hasPool : Bool) (c : Conn) :
    (answerExecute w hasPool c).1.side = c.side := by
  rcases answerExecute_cases w hasPool c with ⟨-, h⟩ | ⟨-, -, h⟩
  · rw [h]
    exact side_reply _ _
  · rw [h]
    rfl

theorem side_answerSync (c : Cell) :
    (answerSync w c).1.slot = c.slot ∧ (answerSync w c).1.conn.side = c.conn.side := by
  have hqueue := side_queueBackend c c.conn.beResp.bytes
  unfold answerSync
  split
  · generalize queueBackend c c.conn.beResp.bytes = r at hqueue
    obtain ⟨c₁, _ | _⟩ := r
    · exact hqueue
    · exact hqueue
  · exact ⟨rfl, side_reply _ _⟩

theorem side_answerQueuedSync (c : Cell) :
    (answerQueuedSync w c).slot = c.slot ∧ (answerQueuedSync w c).conn.side = c.conn.side := by
  unfold answerQueuedSync
  split
  · exact side_queueBackend c c.conn.beResp.bytes
  · exact ⟨rfl, side_reply _ _⟩

theorem side_answerQuery (c : Cell) (r : ExecResult) :
    (answerQuery w c r).1.slot = c.slot ∧ (answerQuery w c r).1.conn.side = c.conn.side := by
  unfold answerQuery
  dsimp only
  split
  · exact side_queueBackend _ _
  · exact ⟨rfl, side_replyThen _ _ _⟩

theorem side_answerQueuedQuery (c : Cell) (r : ExecResult) :
    (answerQueuedQuery w c r).slot = c.slot ∧ (answerQueuedQuery w c r).conn.side = c.conn.side := by
  unfold answerQueuedQuery
  dsimp only
  split
  · exact side_queueBackend _ _
  · exact ⟨rfl, side_replyBoth _ _ _⟩

/-- An answer does not touch the backend side and the queue. -/
theorem Answers.side {cfg : Config} {hasPool : Bool} {c c' : Cell} {it : FeqItem}
    (h : Answers w cfg hasPool c it c') : c'.slot = c.slot ∧ c'.conn.side = c.conn.side := by
  cases h with
  | none => exact ⟨rfl, rfl⟩
  | parse msg => exact ⟨rfl, side_answerParse cfg _ msg⟩
  | execute => exact ⟨rfl, side_answerExecute hasPool _⟩
  | sync => exact side_answerSync c
  | queuedSync => exact side_answerQueuedSync c
  | query sql reject => exact ⟨rfl, side_replyThen _ _ _⟩
  | forward sql => exact side_answerQuery _ _
  | queuedForward sql => exact side_answerQueuedQuery _ _
  | terminate => exact ⟨rfl, rfl⟩

theorem Arrives.side {c c₁ : Cell} {it : FeqItem} (h : Arrives c it c₁) :
    c.conn.beWait = .idle ∧ c₁.conn.beWait = .idle ∧ c₁.conn.be = c.conn.be ∧
      c₁.conn.drainingQueue = c.conn.drainingQueue := by
  cases h with
  | direct _ _ hidle => exact ⟨hidle, hidle, rfl, rfl⟩
  | popped hidle hpop =>
      obtain ⟨q, -, rfl⟩ := feqPop_some hpop
      exact ⟨hidle, hidle, rfl, rfl⟩

/-- The connection takes up a request other than a Bind. -/
structure TakenUp (i : Slot) (it : FeqItem) (s t : Server) : Prop where
  beside : Beside i s t
  arrives : Arrives (s.cell i) it (t.cell i)
  ring : t.waiters = s.waiters

theorem TakenUp.local {it : FeqItem} (h : TakenUp i it s t) (hs : s.Sound) : Local w i s t :=
  h.beside.local hs.toOwned h.arrives.side.2.2.1

theorem TakenUp.sound (w : Pqwire) {it : FeqItem} (h : TakenUp i it s t) (hs : s.Sound) : t.Sound :=
  hs.frame (h.local (w := w) hs).toFrame fun hnot =>
    absurd ((h.arrives.ext (w := w)).keeps.open (h.arrives.open (hs.tidy i))) hnot

/-- The turn of a connection that answers a request. -/
theorem answer_turn {it : FeqItem} (hs : s.Sound) (htaken : TakenUp i it s t) (hlocal : Local w i t u)
    (hheld : u.held i = t.held i) (hring : u.waiters = t.waiters)
    (hanswer : Answers w s.cfg s.pool.isSome (t.cell i) it (u.cell i)) :
    ActTurn w i s u ∧ (u.conns i).side = (t.conns i).side := by
  have hside := hanswer.side.2
  have hsame := hside
  change (u.conns i).side = (t.conns i).side at hsame
  simp only [Conn.side, Prod.mk.injEq] at hside
  obtain ⟨hbe, hwait, -⟩ := hside
  obtain ⟨hidle, hidleT, hbeT, -⟩ := htaken.arrives.side
  have hall := (htaken.local hs).trans hlocal
  have hnot : (u.conns i).beWait ≠ .waitingPool := fun h => by cases (hwait.trans hidleT).symm.trans h
  have hringU : u.waiters = s.waiters := hring.trans htaken.ring
  refine ⟨{ hall.toFrame with
    act := ?_
    busy := fun _ _ => hall.busy
    sq_free := fun hfree => absurd hfree (htaken.arrives.open (hs.tidy i)).1
    queue := Or.inl (congrArg Waiters.slots hringU)
    ring := fun _ h => absurd h hnot
    ringed := fun hin hmem => by cases hidle.symm.trans (hin (hringU ▸ hmem))
    parked := fun _ h => absurd h hnot }, hsame⟩
  rw [hheld, htaken.beside.held hbeT]
  exact .answer htaken.arrives hanswer

/-- An answer that concerns the connection alone. -/
theorem answer_beside {it : FeqItem} (hs : s.Sound) (htaken : TakenUp i it s t) (h : Beside i t u)
    (hring : u.waiters = t.waiters)
    (hanswer : Answers w s.cfg s.pool.isSome (t.cell i) it (u.cell i)) :
    ActTurn w i s u ∧ (u.conns i).side = (t.conns i).side := by
  have hbe : (u.conns i).be = (t.conns i).be := congrArg Prod.fst hanswer.side.2
  exact answer_turn hs htaken (h.local (htaken.sound w hs).toOwned hbe) (h.held hbe) hring
    hanswer

theorem answer_updConn {it : FeqItem} (hs : s.Sound) (htaken : TakenUp i it s t) {f : Conn → Conn}
    (hanswer : Answers w s.cfg s.pool.isSome (t.cell i) it ((t.cell i).upd f)) :
    ActTurn w i s (t.updConn i f) ∧ ((t.updConn i f).conns i).side = (t.conns i).side :=
  answer_beside hs htaken (.updConn t f) rfl (by rwa [cell_updConn])

theorem answer_onConn {it : FeqItem} (hs : s.Sound) (htaken : TakenUp i it s t)
    {f : Conn → Conn × Bool}
    (hanswer : Answers w s.cfg s.pool.isSome (t.cell i) it ((t.cell i).onConn f).1) :
    ActTurn w i s (t.onConn i f).1 ∧ ((t.onConn i f).1.conns i).side = (t.conns i).side :=
  answer_beside hs htaken (.onConn t f) rfl (by rwa [cell_onConn])

theorem answer_onCell {it : FeqItem} (hs : s.Sound) (htaken : TakenUp i it s t)
    {f : Cell → Cell × Bool}
    (hanswer : Answers w s.cfg s.pool.isSome (t.cell i) it (f (t.cell i)).1) :
    ActTurn w i s (t.onCell i f).1 ∧ ((t.onCell i f).1.conns i).side = (t.conns i).side :=
  answer_beside hs htaken (.onCell t f) rfl (by rwa [cell_onCell hanswer.side.1])

/-- A query is run on a backend. -/
theorem answer_forward {sql : Text} (hs : s.Sound) (htaken : TakenUp i (.query sql) s t) {p p' : Pool}
    (hpool : t.pool = some p) (hreject : s.cfg.rejectSimpleQuery = false) {r : ExecResult}
    (hexec : execQuery w env p ((t.updConn i Conn.checkingOut).conns i).id.group sql ioBuf = (p', r))
    {f : Cell → Cell × Bool} (hanswer : r.Sound w → Answers w s.cfg s.pool.isSome (t.cell i)
      (.query sql) (f ((t.cell i).upd Conn.checkingOut)).1) :
    ActTurn w i s (((t.updConn i Conn.checkingOut).afterCall i p').onCell i f).1 ∧
      ((((t.updConn i Conn.checkingOut).afterCall i p').onCell i f).1.conns i).side =
        (t.conns i).side := by
  have hcall := execQuery_call w env p ((t.updConn i Conn.checkingOut).conns i).id.group sql ioBuf
  have hsound := execQuery_sound w env p ((t.updConn i Conn.checkingOut).conns i).id.group sql ioBuf
  rw [hexec] at hcall hsound
  have ht := htaken.sound w hs
  have hconn : (t.updConn i Conn.checkingOut).conns i = (t.conns i).checkingOut := conns_updConn ..
  have hcheck : Beside i t (t.updConn i Conn.checkingOut) := .updConn t _
  have hlocal := hcheck.local (w := w) ht.toOwned (by rw [hconn]; rfl)
  have hown := ht.toOwned.frame hlocal.toFrame
  have hwrites : WritesWhole w (t.updConn i Conn.checkingOut) i p p' := by
    intro _ hrej
    have hcfg : (t.updConn i Conn.checkingOut).cfg = s.cfg := htaken.beside.cfg
    rw [hcfg, hreject] at hrej
    cases hrej
  have hafter := hlocal.trans (local_call hown hpool hcall hwrites)
  have hcell : ((t.updConn i Conn.checkingOut).afterCall i p').cell i =
      (t.cell i).upd Conn.checkingOut := cell_updConn t i _
  have hheld : ((t.updConn i Conn.checkingOut).afterCall i p').held i = t.held i :=
    (held_call hown hpool hcall).trans (hcheck.held (by rw [hconn]; rfl))
  have hring : ((t.updConn i Conn.checkingOut).afterCall i p').waiters = t.waiters := rfl
  generalize (t.updConn i Conn.checkingOut).afterCall i p' = v at hafter hcell hheld hring ⊢
  have hdone := hanswer hsound
  rw [← hcell] at hdone
  have hcellU : (v.onCell i f).1.cell i = (f (v.cell i)).1 := cell_onCell hdone.side.1
  have hbe : ((v.onCell i f).1.conns i).be = (v.conns i).be := by
    have hbeT : ((v.onCell i f).1.cell i).conn.be = (t.cell i).conn.be := by
      rw [hcellU]
      exact congrArg Prod.fst hdone.side.2
    refine hbeT.trans ?_
    exact (congrArg (fun c : Cell => c.conn.be) hcell).symm
  have hstep : Beside i v (v.onCell i f).1 := .onCell v f
  refine answer_turn hs htaken
    (hafter.trans (hstep.local (ht.toOwned.frame hafter.toFrame) hbe))
    ((hstep.held hbe).trans hheld) hring ?_
  rw [hcellU]
  exact hdone

/-! ### One request of the queue -/

section

variable {n : Nat} {drain : Server → Slot → Server × Bool} {c : Conn}

/-- How an arm of `drain_fe_queue` ends that took a request from the queue and left `c`. -/
structure Served (w : Pqwire) (i : Slot) (c : Conn) (s : Server) (r : Server × Bool) : Prop where
  kept : Kept w (some i) s r.1
  next : r.2 = true → (r.1.conns i).beWait = .idle ∧
    ((r.1.conns i).feQ = c.feQ ∨ (r.1.conns i).Upset)
  done : r.2 = false → (r.1.conns i).Rested

theorem took_queue {it : BindItem} (hidle : (s.conns i).beWait = .idle)
    (hpop : feqPop (s.conns i) = some (c, .bind it)) :
    Took w i (.queue it) s ((s.setConn i c).updConn i fun c => c.binding w (it.toBind w)) := by
  have hconn : ((s.setConn i c).updConn i fun c => c.binding w (it.toBind w)).conns i =
      c.binding w (it.toBind w) := by
    rw [conns_updConn]
    exact congrArg (fun c : Conn => c.binding w (it.toBind w)) (Function.update_self ..)
  have hcell : ((s.setConn i c).updConn i fun c => c.binding w (it.toBind w)).cell i =
      { s.cell i with conn := c.binding w (it.toBind w) } := by
    unfold Server.cell
    rw [hconn]
    rfl
  obtain ⟨q, -, hc⟩ := feqPop_some hpop
  refine ⟨(Beside.setConn s c).trans (.updConn _ _), ?_, ⟨hidle, ?_⟩, ?_, rfl, ?_⟩
  · rw [hcell]
    exact .popped hidle hpop
  · rw [hconn, hc]
    exact hidle
  · rw [hconn, hc]
    rfl
  · rw [hconn, hc]
    rfl

/-- A Bind of the queue is run by blocking calls. -/
theorem drainBlockingBind_spec {it : BindItem} {v : Server} {x : Cell} (hs : s.Sound)
    (hkept : Kept w (some i) s v) (hpending : Pending w i (.queue it) x v u)
    (hidle : (v.conns i).beWait = .idle)
    (hqueue : x.conn.feQ = c.feQ ∨ .noSqe ∈ (v.conns i).log) :
    Served w i c s (drainBlockingBind w env u i it, true) := by
  have hbind : ∃ it', BindSource.queue it = .queue it' ∧
      ({ it.toBind w with portal := [] } : PqBind) = { it'.toBind w with portal := [] } := ⟨it, rfl, rfl⟩
  obtain ⟨hturn, hwait, hdrain, hfeQ⟩ := blockingBind_spec env (hs.path hkept.path) hpending
    (Or.inr hbind)
  have hstep := Kept.of_turn hturn hdrain
  refine ⟨hkept.trans hstep, fun _ => ⟨hwait.trans hidle, ?_⟩, nofun⟩
  rcases hqueue with h | h
  · exact Or.inl (hfeQ.trans h)
  · exact Or.inr (hstep.path.upset (Or.inl h))

theorem drainBind_spec (hd : DrainSpec w n drain) (hs : s.Sound) (hcalm : s.Calm)
    (hcount : maxConns < n + drainingCount s) (hdraining : (s.conns i).drainingQueue = true)
    (hidle : (s.conns i).beWait = .idle) {it : BindItem}
    (hpop : feqPop (s.conns i) = some (c, .bind it)) :
    Served w i c s (drainBind w env drain (s.setConn i c) i it) := by
  have htook := took_queue (w := w) hidle hpop
  have hqueue : (((s.setConn i c).updConn i fun c => c.binding w (it.toBind w)).conns i).feQ =
      c.feQ := by
    rw [conns_updConn]
    change ((s.setConn i c).conns i).feQ = c.feQ
    rw [show (s.setConn i c).conns i = c from Function.update_self ..]
  unfold drainBind
  dsimp only
  generalize (s.setConn i c).updConn i (fun c => c.binding w (it.toBind w)) = t at htook hqueue ⊢
  split
  · rename_i huse
    have hready : (t.conns i).identityReady = true := by
      simp only [Server.usesPool, Bool.and_eq_true] at huse
      exact huse.1.2
    have hstarted := startAsyncBindFromQueue_spec env hd hs hcalm hcount htook hready
    generalize startAsyncBindFromQueue w env drain t i it = r at hstarted ⊢
    obtain ⟨u, _ | _⟩ := r
    · obtain ⟨v, x, hkept, hrefused, hidleV, hqueueV⟩ := hstarted.refused rfl
      rw [hqueue] at hqueueV
      have hblocking := drainBlockingBind_spec env hs hkept hrefused.toPending
        (hidleV hdraining) hqueueV
      dsimp only at hrefused ⊢
      split
      · rename_i hfair
        cases hback : feqPutBack (u.conns i) (.bind it) with
        | none => exact hblocking
        | some d =>
            obtain ⟨-, hturn, hwait, hdrain⟩ := park_spec (hs.path hkept.path) hrefused hfair hback
            exact ⟨hkept.trans (.of_turn hturn hdrain), nofun,
              fun _ => Or.inl fun h => nomatch hwait.symm.trans h⟩
      · exact hblocking
    · obtain ⟨hkept, hrest, -⟩ := hstarted.done rfl
      exact ⟨hkept, nofun, fun _ => hrest⟩
  · exact drainBlockingBind_spec env hs (.refl s) (htook.untried hs) hidle (Or.inl (by rw [← hqueue]; rfl))

/-- An answered request. -/
theorem served_of_turn (hidle : (s.conns i).beWait = .idle) {it : FeqItem}
    (hpop : feqPop (s.conns i) = some (c, it))
    (h : ActTurn w i s u ∧ (u.conns i).side = ((s.setConn i c).conns i).side) :
    Served w i c s (u, true) := by
  obtain ⟨hturn, hside⟩ := h
  rw [show (s.setConn i c).conns i = c from Function.update_self ..] at hside
  simp only [Conn.side, Prod.mk.injEq] at hside
  obtain ⟨-, hwait, hdrain, hqueue⟩ := hside
  obtain ⟨q, -, hc⟩ := feqPop_some hpop
  have hc' : c.beWait = (s.conns i).beWait ∧ c.drainingQueue = (s.conns i).drainingQueue := by
    rw [hc]
    exact ⟨rfl, rfl⟩
  exact ⟨.of_turn hturn (hdrain.trans hc'.2), fun _ => ⟨hwait.trans (hc'.1.trans hidle),
    Or.inl hqueue⟩, by rintro ⟨⟩⟩

theorem takenUp_queue {it : FeqItem} (hidle : (s.conns i).beWait = .idle)
    (hpop : feqPop (s.conns i) = some (c, it)) : TakenUp i it s (s.setConn i c) := by
  refine ⟨.setConn s c, ?_, rfl⟩
  have hcell : (s.setConn i c).cell i = { s.cell i with conn := c } := by
    unfold Server.cell
    rw [show (s.setConn i c).conns i = c from Function.update_self ..]
    rfl
  rw [hcell]
  exact .popped hidle hpop

theorem drainQuery_spec (hs : s.Sound) (hidle : (s.conns i).beWait = .idle) {sql : Text}
    (hpop : feqPop (s.conns i) = some (c, .query sql)) :
    Served w i c s (drainQuery w env (s.setConn i c) i sql, true) := by
  have htaken := takenUp_queue hidle hpop
  refine served_of_turn hidle hpop ?_
  unfold drainQuery
  split
  · exact answer_onConn hs htaken (.query sql _)
  · rename_i p hpool
    split
    · exact answer_onConn hs htaken (.query sql _)
    · rename_i hforward
      obtain ⟨hreject, hready⟩ := not_or.mp hforward
      rw [Bool.not_eq_true] at hreject
      rw [Bool.not_eq_false] at hready
      dsimp only
      generalize hexec : execQuery w env p (((s.setConn i c).updConn i Conn.checkingOut).conns i).id.group
        sql ioBuf = x
      obtain ⟨p', r⟩ := x
      exact answer_forward env hs htaken hpool hreject hexec fun hsound =>
        .queuedForward sql hsound hready hreject

theorem drainItem_spec (hd : DrainSpec w n drain) (hs : s.Sound) (hcalm : s.Calm)
    (hcount : maxConns < n + drainingCount s) (hdraining : (s.conns i).drainingQueue = true)
    (hidle : (s.conns i).beWait = .idle) {it : FeqItem}
    (hpop : feqPop (s.conns i) = some (c, it)) :
    Served w i c s (drainItem w env drain (s.setConn i c) i it) := by
  have htaken := takenUp_queue hidle hpop
  have hopen : ((s.setConn i c).cell i).conn.Open :=
    (htaken.arrives.ext (w := w)).keeps.open (htaken.arrives.open (hs.tidy i))
  cases it with
  | none => exact served_of_turn hidle hpop (answer_beside hs htaken (.refl _) rfl .none)
  | parse msg => exact served_of_turn hidle hpop (answer_updConn hs htaken (.parse msg))
  | bind it => exact drainBind_spec env hd hs hcalm hcount hdraining hidle hpop
  | execute => exact served_of_turn hidle hpop (answer_onConn hs htaken .execute)
  | sync =>
      have hturn := answer_onCell hs htaken (f := fun c => (answerQueuedSync w c, true)) .queuedSync
      exact served_of_turn hidle hpop hturn
  | query sql => exact drainQuery_spec env hs hidle hpop
  | terminate => exact served_of_turn hidle hpop (answer_updConn hs htaken (.terminate hopen))

/-! ### The loop -/

theorem feqPop_count {it : FeqItem} (h : feqPop (s.conns i) = some (c, it)) :
    c.feQ.count + 1 = (s.conns i).feQ.count := by
  obtain ⟨q, hq, rfl⟩ := feqPop_some h
  have hlen := congrArg List.length hq
  rw [RingBuffer.length_toList, List.length_cons, RingBuffer.length_toList] at hlen
  exact hlen.symm

theorem feqPop_none (h : feqPop (s.conns i) = none) : (s.conns i).feQ.toList = [] := by
  unfold feqPop at h
  split at h
  · cases h
  · exact queue_empty.mp (by omega)

/-- The loop ends with a connection that waits for its backend, or that has nothing left to do. -/
theorem drainLoop_spec (hd : DrainSpec w n drain) (rounds : Nat) (hs : s.Sound) (hcalm : s.Calm)
    (hcount : maxConns < n + drainingCount s) (hdraining : (s.conns i).drainingQueue = true)
    (henough : (s.conns i).feQ.count ≤ rounds ∨ (s.conns i).Upset) :
    Kept w (some i) s (drainLoop w env drain rounds s i) ∧
      ((drainLoop w env drain rounds s i).conns i).Rested := by
  induction rounds generalizing s with
  | zero =>
      refine ⟨.refl s, Or.inr ?_⟩
      rcases henough with h | h
      · exact Or.inl (queue_empty.mp (Nat.le_zero.mp h))
      · exact Or.inr h
  | succ rounds ih =>
      rw [drainLoop]
      split
      · rename_i hbusy
        exact ⟨.refl s, Or.inl hbusy⟩
      · rename_i hidle
        rw [Classical.not_not] at hidle
        cases hpop : feqPop (s.conns i) with
        | none => exact ⟨.refl s, Or.inr (Or.inl (feqPop_none hpop))⟩
        | some x =>
            obtain ⟨c, it⟩ := x
            have hserved := drainItem_spec env hd hs hcalm hcount hdraining hidle hpop
            dsimp only
            generalize drainItem w env drain (s.setConn i c) i it = r at hserved
            obtain ⟨u, _ | _⟩ := r
            · exact ⟨hserved.kept, hserved.done rfl⟩
            · obtain ⟨hidleU, hqueue⟩ := hserved.next rfl
              have hkept := hserved.kept
              dsimp only at hidleU hqueue hkept ⊢
              have hleft : (u.conns i).feQ.count ≤ rounds ∨ (u.conns i).Upset := by
                rcases hqueue with h | h
                · rcases henough with h' | h'
                  · have hlt := feqPop_count hpop
                    rw [h]
                    exact Or.inl (by omega)
                  · exact Or.inr (hkept.path.upset h')
                · exact Or.inr h
              obtain ⟨hrest, hfinal⟩ := ih (hs.path hkept.path)
                (hkept.calm hcalm fun _ h => nomatch hidleU.symm.trans h)
                (by rw [hkept.drainingCount_eq]; exact hcount) (by rw [hkept.draining]; exact hdraining)
                hleft
              exact ⟨hkept.trans hrest, hfinal⟩

/-- The mark of the connection whose queue is drained. -/
theorem turn_draining (hs : s.Sound) (v : Bool) :
    ActTurn w i s (s.updConn i fun c => { c with drainingQueue := v }) :=
  turn_updConn hs.toOwned rfl Iff.rfl (.draining v)

theorem drainingCount_mark (hdraining : (s.conns i).drainingQueue = false) :
    drainingCount (s.updConn i fun c => { c with drainingQueue := true }) = drainingCount s + 1 := by
  unfold drainingCount
  have hset : (Finset.univ.filter fun j : Slot =>
      ((s.updConn i fun c => { c with drainingQueue := true }).conns j).drainingQueue = true) =
        insert i (Finset.univ.filter fun j : Slot => (s.conns j).drainingQueue = true) := by
    ext j
    by_cases hj : j = i
    · rw [hj]
      simp
    · have hother : (s.updConn i fun c => { c with drainingQueue := true }).conns j = s.conns j :=
        Function.update_of_ne hj ..
      rw [Finset.mem_filter, hother]
      simp [hj]
  rw [hset, Finset.card_insert_of_notMem (by simp [hdraining])]

theorem drainWith_spec (hd : DrainSpec w n drain) (hs : s.Sound) (hcalm : s.Calm)
    (hcount : maxConns < n + 1 + drainingCount s) (hdraining : (s.conns i).drainingQueue = false)
    (hidle : (s.conns i).beWait = .idle) (hopen : (s.conns i).Open) :
    Kept w (some i) s (drainWith w env drain s i).1 ∧
      ((drainWith w env drain s i).1.conns i).Rested ∧
        ((drainWith w env drain s i).2 = false →
          Overflowed ((drainWith w env drain s i).1.conns i).log) := by
  unfold drainWith
  rw [if_neg (by rw [hdraining]; nofun)]
  have hturn := turn_draining (w := w) (i := i) hs true
  have hmark := drainingCount_mark (i := i) hdraining
  have hconn : (s.updConn i fun c => { c with drainingQueue := true }).conns i =
      { s.conns i with drainingQueue := true } := conns_updConn ..
  have hother : ∀ j, j ≠ i → (s.updConn i fun c => { c with drainingQueue := true }).conns j =
      s.conns j := fun j hj => Function.update_of_ne hj ..
  have hring : (s.updConn i fun c => { c with drainingQueue := true }).waiters = s.waiters := rfl
  dsimp only
  generalize s.updConn i (fun c => { c with drainingQueue := true }) = t
    at hturn hmark hconn hother hring ⊢
  have hcalmT : t.Calm := by
    intro j hj
    by_cases hji : j = i
    · rw [hji, hconn]
      exact fun h => nomatch hidle.symm.trans h
    · rw [hother j hji] at hj ⊢
      exact hcalm j hj
  obtain ⟨hkept, hrest⟩ := drainLoop_spec env (i := i) hd feQMax (hs.act hturn) hcalmT
    (by omega) (by rw [hconn]) (Or.inl (t.conns i).feQ.count_le)
  generalize drainLoop w env drain feQMax t i = u at hkept hrest ⊢
  have hsoundU := (hs.act hturn).path hkept.path
  have hturnV := turn_draining (w := w) (i := i) hsoundU false
  have hconnV : (u.updConn i fun c => { c with drainingQueue := false }).conns i =
      { u.conns i with drainingQueue := false } := conns_updConn ..
  generalize u.updConn i (fun c => { c with drainingQueue := false }) = v at hturnV hconnV ⊢
  have hsoundV := hsoundU.act hturnV
  obtain ⟨hio, hfail, -⟩ := drainFrontendOut_io (v.cell i)
  have hopenV : (v.conns i).Open := by
    have hopenU := (hkept.path.keeps i).1.open (by rw [hconn]; exact hopen)
    rw [hconnV]
    exact hopenU
  have hturnX := turn_io (w := w) hsoundV.toOwned hopenV.1 (f := drainFrontendOut) hio
  have hconnX := conns_onCell v i drainFrontendOut
  have hsame := hio.conn
  have hpathU : Turns w s u := (Relation.ReflTransGen.single ⟨i, hturn⟩).trans hkept.path
  have hpath : Turns w s (v.onCell i drainFrontendOut).1 :=
    (hpathU.tail ⟨i, hturnV⟩).tail ⟨i, hturnX⟩
  have hlast : ∀ j, j ≠ i → (v.onCell i drainFrontendOut).1.conns j = u.conns j := fun j hj =>
    (hturnX.others j hj).trans (hturnV.others j hj)
  have hringX : ∀ j, j ≠ i → (j ∈ (v.onCell i drainFrontendOut).1.waiters.slots ↔
      j ∈ u.waiters.slots) := fun j hj => (hturnX.waiters j hj).trans (hturnV.waiters j hj)
  have hne : ∀ {j}, some j ≠ some i → j ≠ i := fun hj heq => hj (congrArg some heq)
  refine ⟨⟨hpath, fun j hj hrestJ => ?_, fun j hj hstill => ?_, fun j => ?_⟩, ?_, fun h => ?_⟩
  · rw [hlast j (hne hj)]
    exact hkept.rested j hj (by rwa [hother j (hne hj)])
  · rw [← hring, ← hother j (hne hj)] at hstill
    obtain ⟨hsameJ, hnot⟩ := hkept.still j hj hstill
    refine ⟨(hlast j (hne hj)).trans (hsameJ.trans (hother j (hne hj))), fun hout hin => ?_⟩
    rw [← hring] at hout
    exact hnot hout ((hringX j (hne hj)).mp hin)
  · by_cases hj : j = i
    · rw [hj, hconnX, hsame, hdraining]
      change (v.conns i).drainingQueue = false
      rw [hconnV]
    · rw [hlast j hj, hkept.draining, hother j hj]
  · have hrestX : ((v.onCell i drainFrontendOut).1.conns i).beWait = (u.conns i).beWait ∧
        ((v.onCell i drainFrontendOut).1.conns i).feQ = (u.conns i).feQ := by
      rw [hconnX, hsame]
      change (v.conns i).beWait = _ ∧ (v.conns i).feQ = _
      rw [hconnV]
      exact ⟨rfl, rfl⟩
    rcases hrest with h | h | h
    · exact Or.inl (by rw [hrestX.1]; exact h)
    · exact Or.inr (Or.inl (by rw [hrestX.2]; exact h))
    · have hend : Turns w u (v.onCell i drainFrontendOut).1 :=
        Relation.ReflTransGen.tail (.single ⟨i, hturnV⟩) ⟨i, hturnX⟩
      exact Or.inr (Or.inr (hend.upset h))
  · rw [hconnX]
    exact hfail h

theorem drainingCount_le (s : Server) : drainingCount s ≤ maxConns := by
  have hle := Finset.card_le_univ (Finset.univ.filter fun j : Slot =>
    (s.conns j).drainingQueue = true)
  rwa [Fintype.card_fin] at hle

/-- The depth of the calls suffices. -/
theorem drainFeQueue_spec (w : Pqwire) (env : Env) (n : Nat) :
    DrainSpec w n (drainFeQueue w env n) := by
  induction n with
  | zero =>
      refine ⟨fun s i hcount => ?_, fun s i _ _ hcount => ?_⟩
      · have := drainingCount_le s
        omega
      · have := drainingCount_le s
        omega
  | succ n ih =>
      refine ⟨fun s i _ hdraining => ?_, fun s i hs hcalm hcount hdraining hidle hopen => ?_⟩
      · rw [drainFeQueue, drainWith, if_pos hdraining]
      · exact drainWith_spec env ih hs hcalm hcount hdraining hidle hopen

end

end
