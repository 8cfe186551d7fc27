import PqProxy.Talk
import PqProxy.LoopRun

/-! The connections of the event loop follow the conversation. -/

/-- Where a connection stands in its conversation. -/
def Conn.stand (c : Conn) : RingBuffer FeqItem feQMax × BeWait × Option Nat × Bool × RespBuf :=
  (c.feQ, c.beWait, c.be, c.gotSync, c.beResp)

/-- A connection says something, and stands where it stood. -/
structure Speaks (l : List Obs) (c c' : Conn) : Prop where
  told : spoken c'.log = spoken c.log ++ l
  stand : c'.stand = c.stand

namespace Speaks

theorem refl (c : Conn) : Speaks [] c c := ⟨(List.append_nil _).symm, rfl⟩

theorem trans {l m : List Obs} {a b c : Conn} (h : Speaks l a b) (k : Speaks m b c) :
    Speaks (l ++ m) a c :=
  ⟨by rw [k.told, h.told, List.append_assoc], k.stand.trans h.stand⟩

theorem note (c : Conn) {o : Obs} (ho : o.spoken = true) : Speaks [o] c (c.note o) :=
  ⟨by simp [spoken, Conn.note, ho], rfl⟩

/-- An entry that is not part of the conversation. -/
theorem aside (c : Conn) {o : Obs} (ho : o.spoken = false) : Speaks [] c (c.note o) :=
  ⟨by simp [spoken, Conn.note, ho], rfl⟩

/-- Other fields change. -/
theorem fields {c c' : Conn} (hlog : c'.log = c.log) (hstand : c'.stand = c.stand) :
    Speaks [] c c' := ⟨by rw [hlog, List.append_nil], hstand⟩

end Speaks

section

variable {w : Pqwire}

theorem speaks_io {extra : Bytes} {c c' : Cell} (h : Io extra c c') : Speaks [] c.conn c'.conn := by
  obtain ⟨l, hl, hio, -⟩ := h.log
  refine ⟨?_, by rw [h.conn]; rfl⟩
  rw [hl, spoken_append, List.append_cancel_left_eq]
  refine List.filter_eq_nil_iff.mpr fun o ho => ?_
  have := hio o ho
  cases o <;> first | exact False.elim this | simp [Obs.spoken]

theorem speaks_reply (hw : w.Appends) (c : Conn) (r : Reply) :
    Speaks [.replied r] c (reply w c r).1 ∧ (reply w c r).2 = true := by
  rw [reply_eq hw]
  exact ⟨⟨by simp [spoken, Conn.note, Obs.spoken], rfl⟩, rfl⟩

theorem speaks_replyThen (hw : w.Appends) (c : Conn) (r r' : Reply) :
    Speaks [.replied r, .replied r'] c (replyThen w c r r').1 := by
  obtain ⟨hfirst, hok⟩ := speaks_reply hw c r
  unfold replyThen
  generalize reply w c r = res at hfirst hok
  obtain ⟨c₁, ok⟩ := res
  cases hok
  exact hfirst.trans (speaks_reply hw c₁ r').1

theorem speaks_replyBoth (hw : w.Appends) (c : Conn) (r r' : Reply) :
    Speaks [.replied r, .replied r'] c (replyBoth w c r r') :=
  (speaks_reply hw c r).1.trans (speaks_reply hw _ r').1

/-- Backend bytes are handed over; they are refused only when there is no room for them. -/
theorem speaks_queueBackend (c : Cell) (data : Bytes) :
    Speaks [.handed c.conn.frontend data] c.conn (queueBackend c data).1.conn ∧
      ((queueBackend c data).2 = false → Overflowed (queueBackend c data).1.conn.log) := by
  obtain ⟨hio, hfull⟩ := queuePlainSend_io (c.note (.handed c.conn.frontend data)) data
  exact ⟨(Speaks.note c.conn rfl).trans (speaks_io hio), hfull.1⟩

/-- Where a conversation is, as far as the connection and its backend tell. -/
structure Talk.Of (d : Talk) (c : Conn) (h : BackendConn) : Prop where
  queue : c.feQ.toList = d.queue
  wait : c.beWait = d.wait
  sync : c.gotSync = d.sync
  resp : c.beResp.bytes = d.resp
  running : c.be ≠ none → d.wait.Runs ∧ h.pipeSt = d.status ∧ h.skipParseBind = true

theorem Talk.Of.congr {d : Talk} {c c' : Conn} {h : BackendConn} (hof : d.Of c h)
    (hstand : c'.stand = c.stand) : d.Of c' h := by
  simp only [Conn.stand, Prod.mk.injEq] at hstand
  obtain ⟨hqueue, hwait, hbe, hsync, hresp⟩ := hstand
  exact ⟨by rw [hqueue]; exact hof.queue, hwait.trans hof.wait, hsync.trans hof.sync,
    by rw [hresp]; exact hof.resp, fun hne => hof.running (hbe ▸ hne)⟩

/-- The response that is buffered is empty exactly when its length is zero. -/
theorem Talk.Of.resp_eq_nil {d : Talk} {c : Conn} {h : BackendConn} (hof : d.Of c h) :
    d.resp = [] ↔ c.beResp.len = 0 := by
  rw [← hof.resp, ← List.length_eq_zero_iff, RespBuf.bytes, Mem.read_length]

theorem Talk.Of.resp_length {d : Talk} {c : Conn} {h : BackendConn} (hof : d.Of c h) :
    d.resp.length = c.beResp.len := by
  rw [← hof.resp, RespBuf.bytes, Mem.read_length]

/-- Another response is buffered. -/
theorem Talk.Of.setResp {d : Talk} {c c' : Conn} {h : BackendConn} {resp : RespBuf} (hof : d.Of c h)
    (hstand : c'.stand = ({ c with beResp := resp } : Conn).stand) :
    ({ d with resp := resp.bytes } : Talk).Of c' h :=
  Talk.Of.congr (c := { c with beResp := resp })
    ⟨hof.queue, hof.wait, hof.sync, rfl, hof.running⟩ hstand

/-- The conversation of a connection with its backend. -/
structure Conn.Talks (w : Pqwire) (hasPool : Bool) (c : Conn) (h : BackendConn) (d : Talk) : Prop where
  run : Talk.Run w hasPool c.log d
  of : d.Of c h

theorem speaks_answerExecute (hw : w.Appends) (hasPool : Bool) (c : Conn) :
    if hasPool = false ∨ c.beResp.len = 0 then
      Speaks [.replied (.commandComplete "SELECT 0".toList)] c (answerExecute w hasPool c).1
    else Speaks [] c (answerExecute w hasPool c).1 := by
  rcases answerExecute_cases w hasPool c with ⟨hstub, h⟩ | ⟨hpool, hlen, h⟩
  · rw [if_pos hstub, h]
    exact (Speaks.aside c rfl).trans (speaks_reply hw _ _).1
  · rw [if_neg (by simp [hpool, hlen]), h]
    exact .aside c rfl

/-- A forwarded Query leaves its answer in the buffer without its length. -/
theorem speaks_forwarded (c : Conn) (r : ExecResult) : Speaks [.forwarded c.beResp.len]
    { c with beResp := (c.fillResp r).beResp } ((c.note (.forwarded c.beResp.len)).fillResp r) :=
  ⟨by simp [spoken, Conn.note, Conn.fillResp, Obs.spoken], rfl⟩

/-- The result of a forwarded Query, or the report that there is none. -/
theorem talks_forwarded (hasPool : Bool) (log : List Obs) {c : Conn} (c' : Cell) {h : BackendConn}
    {d : Talk} {r : ExecResult} (sql : Text) (hof : d.Of c h) (hsound : r.Sound w)
    (hanswer : if r.ok = true ∧ 0 < r.outLen then
        ∃ a : Cell, a.conn = (c.note (.forwarded c.beResp.len)).fillResp r ∧
          c' = (queueBackend a (a.conn.beResp.buf.read 0 r.outLen)).1
      else Speaks [.replied forwardError, .replied .readyForQuery]
        ((c.note (.forwarded c.beResp.len)).fillResp r) c'.conn) :
    ∃ l d', Talk.Answer w hasPool log d (.query sql) l d' ∧ d'.Of c'.conn h ∧
      spoken c'.conn.log = spoken c.log ++ l := by
  have hfill := speaks_forwarded c r
  have hlen : (c.fillResp r).beResp.bytes.length = d.resp.length := by
    rw [hof.resp_length, RespBuf.bytes, Mem.read_length]
    rfl
  split at hanswer
  · rename_i hok
    obtain ⟨a, ha, rfl⟩ := hanswer
    obtain ⟨houtLen, hwhole⟩ := hsound hok.1
    have hout : a.conn.beResp.buf.read 0 r.outLen = r.written := by
      rw [ha, houtLen]
      exact Mem.read_write_self c.beResp.buf 0 r.written
    rw [hout]
    have hqueue := (speaks_queueBackend a r.written).1
    rw [ha] at hqueue
    have hall := hfill.trans hqueue
    rw [← hof.resp_length] at hall
    exact ⟨_, _, .forward sql _ r.written _ hwhole hlen, hof.setResp hall.stand, hall.told⟩
  · have hall := hfill.trans hanswer
    rw [← hof.resp_length] at hall
    exact ⟨_, _, .failed sql _ hlen, hof.setResp hall.stand, hall.told⟩

/-- Nothing of the response is left once it was handed over. -/
theorem Talk.Of.emptied {d : Talk} {c c' : Conn} {h : BackendConn} (hof : d.Of c h)
    (hstand : c'.stand = c.stand) : ({ d with resp := [] } : Talk).Of c'.emptyResp h := by
  have hempty : (⟨c.beResp.buf, 0⟩ : RespBuf).bytes = [] := rfl
  rw [← hempty]
  refine hof.setResp ?_
  simp only [Conn.stand, Prod.mk.injEq] at hstand
  obtain ⟨hqueue, hwait, hbe, hsync, hresp⟩ := hstand
  simp only [Conn.stand, Conn.emptyResp, hqueue, hwait, hbe, hsync, hresp]

theorem Answers.talks (hw : w.Appends) {cfg : Config} {hasPool : Bool} {c c' : Cell}
    {h : BackendConn} {it : FeqItem} {d : Talk} (hanswer : Answers w cfg hasPool c it c')
    (hof : d.Of c.conn h) :
    ∃ l d', Talk.Answer w hasPool c'.conn.log d it l d' ∧
      d'.Of c'.conn h ∧ spoken c'.conn.log = spoken c.conn.log ++ l := by
  -- what is said while the connection stands where it stood
  have hsaid : ∀ {l : List Obs}, Speaks l c.conn c'.conn → ∀ {it : FeqItem},
      Talk.Answer w hasPool c'.conn.log d it l d →
      ∃ l d', Talk.Answer w hasPool c'.conn.log d it l d' ∧
        d'.Of c'.conn h ∧ spoken c'.conn.log = spoken c.conn.log ++ l :=
    fun hspeaks _ hrule => ⟨_, d, hrule, hof.congr hspeaks.stand, hspeaks.told⟩
  cases hanswer with
  | none => exact hsaid (.refl _) .none
  | parse msg =>
      obtain ⟨cache, heq | heq⟩ := answerParse_cases (w := w) cfg c.conn msg
      · refine hsaid (l := [.replied .parseComplete]) ?_ (.parse msg)
        rw [Cell.upd, heq]
        exact ⟨by simp [spoken, Conn.note, Obs.spoken], rfl⟩
      · have hfull : Speaks [.cacheFull] c.conn (({ c.conn with cache := cache } : Conn).note .cacheFull) :=
          ⟨by simp [spoken, Conn.note, Obs.spoken], rfl⟩
        refine hsaid (hfull.trans ?_) (.full msg)
        rw [Cell.upd, heq]
        exact speaks_replyBoth hw _ _ _
  | execute =>
      have hspeaks := speaks_answerExecute hw hasPool c.conn
      split at hspeaks
      · rename_i hstub
        exact hsaid hspeaks (.stub (hstub.imp_right hof.resp_eq_nil.mpr))
      · rename_i hdone
        rw [not_or] at hdone
        exact hsaid hspeaks (.done (by simpa using hdone.1) fun hnil => hdone.2 (hof.resp_eq_nil.mp hnil))
  | sync =>
      have hqueue := speaks_queueBackend c c.conn.beResp.bytes
      unfold answerSync
      split
      · rename_i hlen
        have hne : d.resp ≠ [] := fun hnil => by
          have := hof.resp_eq_nil.mp hnil
          omega
        rw [hof.resp] at hqueue ⊢
        generalize queueBackend c d.resp = r at hqueue ⊢
        obtain ⟨c₁, _ | _⟩ := r
        · exact ⟨_, d, .flushCut _ hne (hqueue.2 rfl), hof.congr hqueue.1.stand,
            hqueue.1.told⟩
        · exact ⟨_, _, .flush _ hne, hof.emptied hqueue.1.stand, hqueue.1.told⟩
      · rename_i hlen
        have hspeaks := (speaks_reply hw c.conn .readyForQuery).1
        exact ⟨_, d, .ready (hof.resp_eq_nil.mpr (by omega)), hof.congr hspeaks.stand, hspeaks.told⟩
  | queuedSync =>
      have hqueue := speaks_queueBackend c c.conn.beResp.bytes
      unfold answerQueuedSync
      split
      · rename_i hlen
        have hne : d.resp ≠ [] := fun hnil => by
          have := hof.resp_eq_nil.mp hnil
          omega
        rw [hof.resp] at hqueue ⊢
        exact ⟨_, _, .flush _ hne, hof.emptied hqueue.1.stand, hqueue.1.told⟩
      · rename_i hlen
        have hspeaks := (speaks_reply hw c.conn .readyForQuery).1
        exact ⟨_, d, .ready (hof.resp_eq_nil.mpr (by omega)), hof.congr hspeaks.stand, hspeaks.told⟩
  | query sql reject => exact hsaid (speaks_replyThen hw _ _ _) (.reject sql _ _)
  | @forward sql r hsound hready hreject =>
      have hcheck : Speaks [] c.conn c.conn.checkingOut := .aside c.conn rfl
      obtain ⟨l, d', hrule, hof', htold⟩ := talks_forwarded hasPool
        (answerQuery w (c.upd Conn.checkingOut) r).1.conn.log
        (answerQuery w (c.upd Conn.checkingOut) r).1 sql (hof.congr hcheck.stand) hsound (by
          unfold answerQuery
          dsimp only
          split
          · exact ⟨_, rfl, rfl⟩
          · exact speaks_replyThen hw _ _ _)
      exact ⟨l, d', hrule, hof', by rw [htold, hcheck.told, List.append_nil]⟩
  | @queuedForward sql r hsound hready hreject =>
      have hcheck : Speaks [] c.conn c.conn.checkingOut := .aside c.conn rfl
      obtain ⟨l, d', hrule, hof', htold⟩ := talks_forwarded hasPool
        (answerQueuedQuery w (c.upd Conn.checkingOut) r).conn.log
        (answerQueuedQuery w (c.upd Conn.checkingOut) r) sql (hof.congr hcheck.stand) hsound (by
          unfold answerQueuedQuery
          dsimp only
          split
          · exact ⟨_, rfl, rfl⟩
          · exact speaks_replyBoth hw _ _ _)
      exact ⟨l, d', hrule, hof', by rw [htold, hcheck.told, List.append_nil]⟩
  | terminate hopen => exact hsaid (.fields rfl rfl) .terminate

/-! ### Turns -/

theorem Talk.Of.quiet {d : Talk} {c : Conn} {h : BackendConn} (hof : d.Of c h) (hquiet : c.Quiet)
    (hupset : ¬ c.Upset) : d.queue = [] :=
  hof.queue.symm.trans (hquiet.resolve_right hupset)

/-- The request at the head of the queue is taken. -/
theorem Talk.Of.popped {d : Talk} {c c' : Conn} {h : BackendConn} {it : FeqItem} (hof : d.Of c h)
    (hpop : feqPop c = some (c', it)) : ∃ rest, d.queue = it :: rest ∧
      ({ d with queue := rest } : Talk).Of c' h ∧ spoken c'.log = spoken c.log ++ [.took it] ∧
      c'.beResp = c.beResp := by
  obtain ⟨q, hq, rfl⟩ := feqPop_some hpop
  exact ⟨q.toList, hof.queue.symm.trans hq, ⟨rfl, hof.wait, hof.sync, hof.resp, hof.running⟩,
    by simp [spoken, Conn.note, Obs.spoken], rfl⟩

theorem Arrives.takes {c c₁ : Cell} {h : BackendConn} {it : FeqItem} {d : Talk}
    (harrive : Arrives c it c₁) (hof : d.Of c.conn h) (hupset : ¬ c.conn.Upset) :
    ∃ o d₁, d.Takes it o d₁ ∧ d₁.Of c₁.conn h ∧
      spoken c₁.conn.log = spoken c.conn.log ++ [o] := by
  cases harrive with
  | @direct e it hwork hopen hidle hquiet =>
      refine ⟨.received e c.conn.beWait, d, ?_, hof.congr rfl, (Speaks.note c.conn rfl).told⟩
      rw [hidle]
      exact .direct hwork (hof.wait.symm.trans hidle) (hof.quiet hquiet hupset)
  | popped hidle hpop =>
      obtain ⟨rest, hqueue, hof', htold, -⟩ := hof.popped hpop
      exact ⟨.took it, _, .popped (hof.wait.symm.trans hidle) hqueue, hof', htold⟩

theorem BindArrives.takes {c c₁ : Cell} {h : BackendConn} {src : BindSource} {d : Talk}
    (harrive : BindArrives w c src c₁) (hof : d.Of c.conn h) (hupset : ¬ c.conn.Upset) :
    ∃ l d₁, d.TakesBind src l d₁ ∧ d₁.Of c₁.conn h ∧
      spoken c₁.conn.log = spoken c.conn.log ++ l := by
  have hbinding : ∀ (a : Conn) (bind : PqBind), Speaks [.binding a.beResp.len
      (startable w a.cache bind a.id)] a (a.binding w bind) := fun a bind => .note a rfl
  cases harrive with
  | @direct bind hopen hidle hquiet =>
      have hrecv : Speaks [.received (.bind bind) c.conn.beWait] c.conn (c.conn.received (.bind bind)) :=
        .note _ rfl
      have hall := hrecv.trans (hbinding (c.conn.received (.bind bind)) bind)
      rw [hidle, show (c.conn.received (.bind bind)).beResp.len = d.resp.length from
        hof.resp_length.symm] at hall
      have hempty : ∀ {a : Conn}, d.Of a h →
          ({ d with resp := [], sync := false } : Talk).Of a.emptyResp.clearGot h :=
        fun ha => ⟨ha.queue, ha.wait, rfl, rfl, ha.running⟩
      exact ⟨_, _, .direct bind _ (hof.wait.symm.trans hidle) (hof.quiet hquiet hupset),
        hempty (hof.congr hall.stand), hall.told⟩
  | @popped conn it hidle hpop =>
      obtain ⟨rest, hqueue, hof', htold, hresp⟩ := hof.popped hpop
      have hall := hbinding conn (it.toBind w)
      rw [hresp, ← hof.resp_length] at hall
      refine ⟨_, _, .popped (startable w conn.cache (it.toBind w) conn.id)
        (hof.wait.symm.trans hidle) hqueue, hof'.congr hall.stand, ?_⟩
      rw [hall.told, htold, List.append_assoc]
      rfl
  | again _ hsqe => exact absurd (Or.inl hsqe) hupset

/-- Attempts are not part of the conversation but for what did not fit the queue. -/
theorem Tried.talks {c c' : Cell} (h : Tried c c') : ∃ drops : List FeqItem,
    Speaks (drops.map .dropped) c.conn c'.conn := by
  obtain ⟨l, rfl, hl⟩ := h
  suffices hdrops : ∃ drops : List FeqItem, spoken l = drops.map .dropped by
    obtain ⟨drops, hdrops⟩ := hdrops
    exact ⟨drops, by rw [← hdrops]; exact spoken_append .., rfl⟩
  induction l with
  | nil => exact ⟨[], rfl⟩
  | cons o l ih =>
      obtain ⟨drops, hdrops⟩ := ih fun a ha => hl a (List.mem_cons_of_mem o ha)
      rcases hl o List.mem_cons_self with ⟨rfl, -⟩ | ⟨it, rfl⟩
      · exact ⟨drops, hdrops⟩
      · exact ⟨it :: drops, congrArg (Obs.dropped it :: ·) hdrops⟩

/-- A connection that does not wait for a backend has none. -/
theorem Talk.Of.be_none {d : Talk} {c : Conn} {h : BackendConn} (hof : d.Of c h)
    (hwait : d.wait = .idle ∨ d.wait = .waitingPool) : c.be = none := by
  by_contra hne
  rcases (hof.running hne).1 with h | h
  · rw [h] at hwait
    simp at hwait
  · rw [h] at hwait
    simp at hwait

/-- A Bind that goes to the queue, or back to it. -/
theorem requeue_talks {c c' : Conn} {src : BindSource} {h : BackendConn} {d : Talk} (free : Bool)
    (hof : d.Of c h) (hidle : d.wait = .idle) (hqueue : requeue w c src = some c') :
    ∃ o queue, ({ d with queue := queue, wait := .waitingPool } : Talk).Of
        { c'.note (.parked free) with beWait := .waitingPool } h ∧
      spoken (c'.note (.parked free)).log = spoken c.log ++ [o] ∧
      match src with
      | .event bind => ∃ it, bindItem w bind = some it ∧ o = .pushed (.bind it) ∧
          queue = d.queue ++ [.bind it]
      | .queue it => o = .putBack (.bind it) ∧ queue = .bind it :: d.queue := by
  have hnone : c.be = none := hof.be_none (Or.inl hidle)
  have hput : ∀ {q : RingBuffer FeqItem feQMax} {o : Obs} {queue : List FeqItem},
      o.spoken = true → q.toList = queue → c' = ({ c with feQ := q } : Conn).note o →
      ({ d with queue := queue, wait := .waitingPool } : Talk).Of
          { c'.note (.parked free) with beWait := .waitingPool } h ∧
        spoken (c'.note (.parked free)).log = spoken c.log ++ [o] := by
    rintro q o queue ho hq rfl
    refine ⟨⟨hq, rfl, hof.sync, hof.resp, fun hne => absurd hnone hne⟩, ?_⟩
    have hall := (Speaks.note ({ c with feQ := q } : Conn) ho).trans
      (.aside _ (rfl : (Obs.parked free).spoken = false))
    exact hall.told
  cases src with
  | event bind =>
      dsimp only [requeue] at hqueue
      rcases feqPushBind_cases (w := w) c bind with ⟨it, hit, heq⟩ | heq
      · rcases feqPush_cases c (.bind it) with ⟨q, hq, hpush⟩ | hpush
        · rw [heq, hpush] at hqueue
          obtain ⟨hof', htold⟩ := hput (o := .pushed (.bind it)) rfl hq (Option.some.inj hqueue).symm
          rw [hof.queue] at hof'
          exact ⟨_, _, hof', htold, it, hit, rfl, rfl⟩
        · rw [heq, hpush] at hqueue
          cases hqueue
      · rw [heq] at hqueue
        cases hqueue
  | queue it =>
      obtain ⟨q, hq, heq⟩ := feqPutBack_some hqueue
      obtain ⟨hof', htold⟩ := hput (o := .putBack (.bind it)) rfl hq heq
      rw [hof.queue] at hof'
      exact ⟨_, _, hof', htold, rfl, rfl⟩

/-- The acknowledgement of a Bind that was not run on a backend of the connection. -/
theorem answerBind_talks (hw : w.Appends) {c : Conn} {h : BackendConn} {d : Talk}
    (why : Unrun) {r : Option ExecResult} (hof : d.Of c h) (hsound : ∀ x, r = some x → x.Sound w) :
    (∃ out, (w.FollowsPipeline → Whole out) ∧
        ({ d with resp := out } : Talk).Of (answerBind w c why r).1 h ∧
        spoken (answerBind w c why r).1.log = spoken c.log ++ [.ran out, .replied .bindComplete]) ∨
      ∃ written resp : Bytes, resp.length = d.resp.length ∧ (written = [] → resp = d.resp) ∧
        ({ d with resp := resp } : Talk).Of (answerBind w c why r).1 h ∧
        spoken (answerBind w c why r).1.log =
          spoken c.log ++ [.stub why written, .replied .bindComplete] := by
  have hack : ∀ {a : Conn} {o : Obs}, o.spoken = true →
      Speaks [o, .replied .bindComplete] a (reply w (a.note o) .bindComplete).1 :=
    fun ho => (Speaks.note _ ho).trans (speaks_reply hw _ _).1
  unfold answerBind
  cases r with
  | none =>
      have hspeaks := hack (a := c) (o := .stub why []) rfl
      exact Or.inr ⟨[], d.resp, rfl, fun _ => rfl, hof.congr hspeaks.stand, hspeaks.told⟩
  | some r =>
      obtain ⟨a, ha⟩ : ∃ a : Conn, a = c.fillResp r := ⟨_, rfl⟩
      have hstand : a.stand = ({ c with beResp := (c.fillResp r).beResp } : Conn).stand := by rw [ha]; rfl
      have hlogA : a.log = c.log := by rw [ha]; rfl
      have hlen : (c.fillResp r).beResp.bytes.length = d.resp.length := by
        rw [hof.resp_length, RespBuf.bytes, Mem.read_length]
        rfl
      dsimp only
      rw [← ha]
      split
      · rename_i hok
        obtain ⟨houtLen, hwhole⟩ := hsound r rfl hok
        have hbytes : (⟨a.beResp.buf, r.outLen⟩ : RespBuf).bytes = r.written := by
          rw [ha, houtLen]
          exact Mem.read_write_self c.beResp.buf 0 r.written
        obtain ⟨b, hb⟩ : ∃ b : Conn, b = { a with beResp := ⟨a.beResp.buf, r.outLen⟩ } := ⟨_, rfl⟩
        have hspeaks := hack (a := b) (o := .ran r.written) rfl
        rw [← hb, hbytes]
        refine Or.inl ⟨r.written, hwhole, ?_, ?_⟩
        · have hof' : ({ d with resp := r.written } : Talk).Of b h := by
            rw [← hbytes, hb, ha]
            exact hof.setResp rfl
          exact hof'.congr hspeaks.stand
        · rw [hspeaks.told, show b.log = c.log by rw [hb]; exact hlogA]
      · have hspeaks := hack (a := a) (o := .stub why r.written) rfl
        refine Or.inr ⟨r.written, _, hlen, fun hnil => ?_, (hof.setResp hstand).congr hspeaks.stand, ?_⟩
        · rw [← hof.resp, Conn.fillResp, hnil, Mem.write_nil]
        · rw [hspeaks.told, hlogA]

/-- A message that is queued, or not. -/
theorem queueEvent_talks (hw : w.Appends) {hasPool : Bool} {was log : List Obs} {c : Conn} {h : BackendConn}
    {e : Event} {d : Talk} (hof : d.Of c h) (hbusy : c.beWait ≠ .idle)
    (he : e.work ≠ none ∨ ∃ bind, e = .bind bind) :
    ∃ l d', Talk.Step w hasPool was log d l d' ∧ d'.Of (queueEvent w (c.received e) e) h ∧
      spoken (queueEvent w (c.received e) e).log = spoken c.log ++ l := by
  have hbusy' : d.wait ≠ .idle := hof.wait ▸ hbusy
  have hrecv : Speaks [.received e d.wait] c (c.received e) := hof.wait ▸ Speaks.note c rfl
  -- the message went to the tail of the queue
  have hput : ∀ {q : RingBuffer FeqItem feQMax} {it : FeqItem} {c' : Conn}, e.item w = some it →
      q.toList = c.feQ.toList ++ [it] → c'.log = (c.received e).log ++ [.pushed it] →
      c'.stand = ({ c with feQ := q, gotSync := c.gotSync || decide (e = .sync) } : Conn).stand →
      ∃ l d', Talk.Step w hasPool was log d l d' ∧ d'.Of c' h ∧ spoken c'.log = spoken c.log ++ l := by
    intro q it c' hitem hq hlog hstand
    have hof' : ({ d with queue := d.queue ++ [it], sync := d.sync || decide (e = .sync) } : Talk).Of
        { c with feQ := q, gotSync := c.gotSync || decide (e = .sync) } h :=
      ⟨by rw [hq, hof.queue], hof.wait, by rw [hof.sync], hof.resp, hof.running⟩
    refine ⟨_, _, .push hbusy' hitem, hof'.congr hstand, ?_⟩
    rw [hlog, spoken_append, hrecv.told, List.append_assoc]
    rfl
  -- there was no room for it
  have hdrop : ∀ {it : FeqItem} {l : List Obs} {c' : Conn}, l = dropReplies e →
      Speaks l { (c.received e).note (.dropped it) with
        gotSync := c.gotSync || decide (e = .sync) } c' →
      ∃ l d', Talk.Step w hasPool was log d l d' ∧ d'.Of c' h ∧ spoken c'.log = spoken c.log ++ l := by
    rintro it _ c' rfl hspeaks
    have hof' : ({ d with sync := d.sync || decide (e = .sync) } : Talk).Of
        { (c.received e).note (.dropped it) with gotSync := c.gotSync || decide (e = .sync) } h :=
      ⟨hof.queue, hof.wait, by rw [← hof.sync], hof.resp, hof.running⟩
    refine ⟨_, _, .drop it hbusy' he, hof'.congr hspeaks.stand, ?_⟩
    have hnote : Speaks [.dropped it] (c.received e) ((c.received e).note (.dropped it)) := .note _ rfl
    rw [hspeaks.told]
    exact (congrArg (· ++ dropReplies e) (hrecv.trans hnote).told).trans (List.append_assoc ..)
  have hkeep : e ≠ .sync → (c.gotSync || decide (e = .sync)) = c.gotSync := fun hne => by simp [hne]
  cases e with
  | parse msg =>
      rw [hkeep Event.noConfusion] at hput hdrop
      simp only [queueEvent, feqPushParse]
      rcases feqPush_cases (c.received (.parse msg)) (.parse msg) with ⟨q, hq, hpush⟩ | hpush
      · rw [hpush]
        exact hput rfl hq rfl rfl
      · rw [hpush]
        exact hdrop rfl (speaks_reply hw _ _).1
  | bind msg =>
      rw [hkeep Event.noConfusion] at hput hdrop
      simp only [queueEvent]
      rcases feqPushBind_cases (w := w) (c.received (.bind msg)) msg with ⟨it, hit, hbind⟩ | hbind
      · rw [hbind]
        rcases feqPush_cases (c.received (.bind msg)) (.bind it) with ⟨q, hq, hpush⟩ | hpush
        · rw [hpush]
          exact hput (by simp only [Event.item, hit, Option.map_some]) hq rfl rfl
        · rw [hpush]
          exact hdrop rfl (speaks_replyBoth hw _ _ _)
      · rw [hbind]
        exact hdrop rfl (speaks_replyBoth hw _ _ _)
  | execute =>
      rw [hkeep Event.noConfusion] at hput hdrop
      simp only [queueEvent]
      rcases feqPush_cases (c.received .execute) .execute with ⟨q, hq, hpush⟩ | hpush
      · rw [hpush]
        exact hput rfl hq rfl rfl
      · rw [hpush]
        exact hdrop rfl (.fields rfl rfl)
  | sync =>
      have hgot : (c.gotSync || decide (Event.sync = .sync)) = true := by simp
      rw [hgot] at hput hdrop
      simp only [queueEvent]
      rcases feqPush_cases (c.received .sync) .sync with ⟨q, hq, hpush⟩ | hpush
      · rw [hpush]
        exact hput rfl hq rfl rfl
      · rw [hpush]
        exact hdrop rfl (.fields rfl rfl)
  | query sql =>
      rw [hkeep Event.noConfusion] at hput hdrop
      simp only [queueEvent]
      rcases feqPush_cases (c.received (.query sql)) (.query (sql.copyTo w.maxQueryLen)) with
        ⟨q, hq, hpush⟩ | hpush
      · rw [hpush]
        exact hput rfl hq rfl rfl
      · rw [hpush]
        exact hdrop rfl (speaks_replyBoth hw _ _ _)
  | _ => rcases he with he | ⟨_, he⟩ <;> simp [Event.work] at he

theorem begun_fields (c : Conn) (b : Nat) : (c.begun b).feQ = c.feQ ∧ (c.begun b).gotSync = false ∧
    (c.begun b).beResp = c.emptyResp.beResp ∧
    (c.begun b).log = c.log ++ [.checkout c.identityReady c.id, .began] := by
  rw [begun_eq]
  exact ⟨rfl, rfl, rfl, List.append_assoc ..⟩

/-- A pipeline is put on a backend. -/
theorem begun_talks {c : Conn} {h h' : BackendConn} {d : Talk} (b : Nat) (hof : d.Of c h)
    (hbegun : h'.Begun) :
    ({ d with resp := [], sync := false, status := .init, wait := .sending } : Talk).Of
        (c.begun b).writing h' ∧ spoken (c.begun b).writing.log = spoken c.log ++ [.began] := by
  obtain ⟨hqueue, hsync, hresp, hlog⟩ := begun_fields c b
  generalize c.begun b = a at hqueue hsync hresp hlog
  refine ⟨⟨?_, rfl, hsync, ?_, fun _ => ?_⟩, ?_⟩
  · exact (congrArg RingBuffer.toList hqueue).trans hof.queue
  · exact congrArg RespBuf.bytes hresp
  · exact ⟨Or.inl rfl, hbegun.pipeSt, hbegun.skipParseBind⟩
  · exact (congrArg spoken hlog).trans (spoken_append ..)

theorem Act.talks (hw : w.Appends) {cfg : Config} {hasPool : Bool} {c c' : Cell}
    {h h' : BackendConn} {d : Talk} (ha : Act w cfg hasPool c h c' h') (hof : d.Of c.conn h)
    (hlog : ¬ c'.conn.Upset) : ∃ l d', Talk.Step w hasPool c.conn.log c'.conn.log d l d' ∧
      d'.Of c'.conn h' ∧ spoken c'.conn.log = spoken c.conn.log ++ l := by
  have hupset : ¬ c.conn.Upset := fun hold => hlog (hold.imp ha.grows.log_mem ha.grows.log_mem)
  have hsaid : ∀ {l : List Obs}, Speaks l c.conn c'.conn →
      Talk.Step w hasPool c.conn.log c'.conn.log d l d → h' = h →
      ∃ l d', Talk.Step w hasPool c.conn.log c'.conn.log d l d' ∧ d'.Of c'.conn h' ∧
        spoken c'.conn.log = spoken c.conn.log ++ l :=
    fun hspeaks hrule hh => ⟨_, d, hrule, hh ▸ hof.congr hspeaks.stand, hspeaks.told⟩
  have hrecv : ∀ e : Event, Speaks [.received e d.wait] c.conn (c.conn.received e) := fun e =>
    hof.wait ▸ Speaks.note c.conn rfl
  cases ha with
  | io hio => exact hsaid (speaks_io hio) .silent rfl
  | feed => exact hsaid (.aside _ rfl) .silent rfl
  | startup => exact hsaid ((hrecv .startup).trans (speaks_replyThen hw _ _ _)) .startup rfl
  | ignore => exact hsaid (hrecv .other) .ignore rfl
  | terminate hopen hquiet =>
      refine hsaid ((hrecv .terminate).trans (.fields rfl rfl)) (.terminate fun hidle => ?_) rfl
      exact hof.quiet (hquiet (hof.wait.trans hidle)) hupset
  | enqueue hbusy he => exact queueEvent_talks hw hof hbusy he
  | answer harrive hanswer =>
      obtain ⟨o, d₁, htake, hof₁, htold₁⟩ := harrive.takes hof hupset
      obtain ⟨l, d', hrule, hof', htold⟩ := hanswer.talks hw hof₁
      exact ⟨o :: l, d', .answer htake hrule, hof', by rw [htold, htold₁, List.append_assoc]; rfl⟩
  | @begin c₁ c' h h' src b harrive hready hbegun hstart =>
      obtain ⟨l, d₁, htake, hof₁, htold₁⟩ := harrive.takes hof hupset
      rcases startOn_cases c₁ b hbegun with ⟨-, heq⟩ | ⟨-, r, -, heq⟩ | ⟨-, heq⟩
      · rw [heq] at hstart
        cases hstart
        have hcrossed : ∀ a : Conn, .crossed ∈ (a.note .crossed).log :=
          fun _ => List.mem_append_right _ List.mem_cons_self
        exact absurd (Or.inr (hcrossed _)) hlog
      · rw [heq] at hstart
        cases hstart
        obtain ⟨hof', htold⟩ := begun_talks b hof₁ hbegun
        exact ⟨_, _, .begin htake, hof', by simpa [htold₁] using htold⟩
      · rw [heq] at hstart
        cases hstart
  | @park c₁ c₂ h src conn free harrive htried hqueue hfree =>
      obtain ⟨l, d₁, htake, hof₁, htold₁⟩ := harrive.takes hof hupset
      obtain ⟨drops, hdrops⟩ := htried.talks
      obtain ⟨o', queue, hof', htold, hsrc⟩ := requeue_talks free (hof₁.congr hdrops.stand)
        htake.same.2.1 hqueue
      rw [hdrops.told, htold₁] at htold
      cases src with
      | event bind =>
          obtain ⟨it, hitem, rfl, rfl⟩ := hsrc
          exact ⟨_, _, .park drops htake hitem, hof', by simpa using htold⟩
      | queue it =>
          obtain ⟨rfl, rfl⟩ := hsrc
          exact ⟨_, _, .putBack drops htake, hof', by simpa using htold⟩
  | @bind c₁ c₂ h src why r harrive htried hsound =>
      obtain ⟨l, d₁, htake, hof₁, htold₁⟩ := harrive.takes hof hupset
      obtain ⟨drops, hdrops⟩ := htried.talks
      rcases answerBind_talks hw why (hof₁.congr hdrops.stand) hsound with
        ⟨out, hout, hof', htold⟩ | ⟨written, resp, hresp, hkept, hof', htold⟩
      · rw [hdrops.told, htold₁] at htold
        exact ⟨_, _, .ran drops out htake hout, hof', by simpa [Cell.onConn] using htold⟩
      · rw [hdrops.told, htold₁] at htold
        exact ⟨_, _, .stub drops why written resp htake hresp hkept, hof', by simpa [Cell.onConn] using htold⟩
  | @lost c₁ c₂ c₃ h h' src b harrive hready hstart hsend =>
      have hlost := ext_reportLost (w := w) c₂
      rw [hsend] at hlost
      exact absurd (Or.inl (hlost.log_mem (startOn_noSqe hstart))) hlog
  | @lostCut c₁ c₂ c₃ h h' src b harrive hready hstart hsend =>
      have hlost := ext_reportLost (w := w) c₂
      rw [hsend] at hlost
      exact absurd (Or.inl (hlost.log_mem (startOn_noSqe hstart))) hlog
  | draining v => exact hsaid (.fields rfl rfl) .silent rfl
  | unpark hwait =>
      have hwait' : d.wait = .waitingPool := hof.wait.symm.trans hwait
      exact ⟨[], _, .unpark hwait', ⟨hof.queue, rfl, hof.sync, hof.resp,
        fun hne => absurd (hof.be_none (Or.inr hwait')) hne⟩, (List.append_nil _).symm⟩
  | repark hwait hqueue hfull => exact absurd hfull hupset
  | handshake peer hstate =>
      refine hsaid (l := []) ?_ .silent rfl
      have hnote : Speaks [] c.conn (c.conn.note (.authenticated peer.id peer.ok)) := .aside _ rfl
      dsimp only [Cell.onConn, tlsOnHandshakeDone]
      split
      · exact hnote.trans (.fields rfl rfl)
      · exact hnote.trans (.fields rfl rfl)
  | closing => exact hsaid (.fields rfl rfl) .silent rfl

theorem speaks_drainFrontendOut (c : Cell) : Speaks [] c.conn (drainFrontendOut c).1.conn ∧
    ((drainFrontendOut c).2 = false → Overflowed (drainFrontendOut c).1.conn.log) :=
  ⟨speaks_io (drainFrontendOut_io c).1, (drainFrontendOut_io c).2.1⟩

/-- A response that the client synced on goes out, and so does one with an error. -/
theorem sendResult_synced {c : Cell} (hadError : Bool)
    (h : c.conn.gotSync = true ∧ 0 < c.conn.beResp.len) :
    sendResult w c hadError = match queueBackend c c.conn.beResp.bytes with
      | (c, false) => (c, false)
      | (c, true) => ({ c with conn := c.conn.emptyResp }, true) := if_pos h

theorem sendResult_error {c : Cell} (hgot : c.conn.gotSync ≠ true) (hlen : 0 < c.conn.beResp.len) :
    sendResult w c true = match queueBackend c c.conn.beResp.bytes with
      | (c, false) => (c, false)
      | (c, true) => ({ c with conn := { c.conn.emptyResp with gotSync := false } }, true) :=
  (if_neg fun h => hgot h.1).trans (if_pos ⟨rfl, hlen⟩)

/-- What is handed over of a response that is buffered. -/
theorem sendResult_talks (c : Cell) (hadError : Bool) (hlen : 0 < c.conn.beResp.len) :
    ∃ resp : RespBuf, Speaks (if hadError = true ∨ c.conn.gotSync = true then
        [.handed c.conn.frontend c.conn.beResp.bytes] else []) { c.conn with beResp := resp }
        (sendResult w c hadError).1.conn ∧
      ((sendResult w c hadError).2 = false → Overflowed (sendResult w c hadError).1.conn.log) ∧
      ((sendResult w c hadError).2 = true → resp.bytes =
        if hadError = true ∨ c.conn.gotSync = true then [] else c.conn.beResp.bytes) := by
  have hqueue := speaks_queueBackend c c.conn.beResp.bytes
  have hempty : (⟨c.conn.beResp.buf, 0⟩ : RespBuf).bytes = [] := rfl
  by_cases hgot : c.conn.gotSync = true
  · rw [sendResult_synced hadError ⟨hgot, hlen⟩, if_pos (Or.inr hgot), if_pos (Or.inr hgot)]
    generalize queueBackend c c.conn.beResp.bytes = r at hqueue
    obtain ⟨c₁, _ | _⟩ := r
    · exact ⟨c.conn.beResp, hqueue.1, hqueue.2, by rintro ⟨⟩⟩
    · have hstand := hqueue.1.stand
      simp only [Conn.stand, Prod.mk.injEq] at hstand
      obtain ⟨hq, hwait, hbe, hsync, hresp⟩ := hstand
      refine ⟨⟨c.conn.beResp.buf, 0⟩, ⟨hqueue.1.told, ?_⟩, by rintro ⟨⟩, fun _ => hempty⟩
      simp only [Conn.stand, Conn.emptyResp, hq, hwait, hbe, hsync, hresp]
  · cases hadError with
    | true =>
        rw [sendResult_error hgot hlen, if_pos (Or.inl rfl), if_pos (Or.inl rfl)]
        generalize queueBackend c c.conn.beResp.bytes = r at hqueue
        obtain ⟨c₁, _ | _⟩ := r
        · exact ⟨c.conn.beResp, hqueue.1, hqueue.2, by rintro ⟨⟩⟩
        · have hstand := hqueue.1.stand
          simp only [Conn.stand, Prod.mk.injEq] at hstand
          obtain ⟨hq, hwait, hbe, -, hresp⟩ := hstand
          refine ⟨⟨c.conn.beResp.buf, 0⟩, ⟨hqueue.1.told, ?_⟩, by rintro ⟨⟩, fun _ => hempty⟩
          simp only [Conn.stand, Conn.emptyResp, hq, hwait, hbe, hresp, Bool.eq_false_iff.mpr hgot]
    | false =>
        have heq : sendResult w c false = (c, true) :=
          (if_neg fun h => hgot h.1).trans ((if_neg (by simp)).trans (if_neg fun h => hgot h.1))
        have hnone : ¬ (false = true ∨ c.conn.gotSync = true) := fun h => h.elim (by rintro ⟨⟩) hgot
        rw [heq, if_neg hnone, if_neg hnone]
        exact ⟨c.conn.beResp, .refl _, by rintro ⟨⟩, fun _ => rfl⟩

/-- The response is sent after what is said first. -/
theorem sendResult_drained (c : Cell) (hadError : Bool) (hlen : 0 < c.conn.beResp.len) {a : Conn}
    {l : List Obs} {q : RingBuffer FeqItem feQMax} (hspeaks : Speaks l { c.conn with feQ := q } a) :
    ∃ (pending : Bytes) (resp : RespBuf),
      let r := match sendResult w { c with conn := a } hadError with
        | (c, false) => (c, false)
        | (c, true) => drainFrontendOut c
      Speaks (l ++ if hadError = true ∨ c.conn.gotSync = true then
          [.handed pending c.conn.beResp.bytes] else []) { c.conn with feQ := q, beResp := resp } r.1.conn ∧
        (r.2 = false → Overflowed r.1.conn.log) ∧ (r.2 = true → resp.bytes =
          if hadError = true ∨ c.conn.gotSync = true then [] else c.conn.beResp.bytes) := by
  have hstand := hspeaks.stand
  simp only [Conn.stand, Prod.mk.injEq] at hstand
  obtain ⟨hq, hwait, hbe, hsync, hresp⟩ := hstand
  obtain ⟨resp, hresult, hfull, hkept⟩ := sendResult_talks (w := w) { c with conn := a } hadError
    (by rw [hresp]; exact hlen)
  dsimp only at hresult hfull hkept
  rw [hsync, hresp] at hresult hkept
  have hall : Speaks (l ++ if hadError = true ∨ c.conn.gotSync = true then
      [.handed a.frontend c.conn.beResp.bytes] else []) { c.conn with feQ := q, beResp := resp }
      (sendResult w { c with conn := a } hadError).1.conn := by
    refine ⟨?_, hresult.stand.trans ?_⟩
    · rw [hresult.told, ← List.append_assoc]
      exact congrArg (· ++ _) hspeaks.told
    · simp only [Conn.stand, hq, hwait, hbe]
  refine ⟨a.frontend, resp, ?_⟩
  generalize sendResult w { c with conn := a } hadError = r at hfull hkept hall
  obtain ⟨c₁, _ | _⟩ := r
  · exact ⟨hall, hfull, by rintro ⟨⟩⟩
  · obtain ⟨hdrain, hover⟩ := speaks_drainFrontendOut c₁
    have htogether := hall.trans hdrain
    rw [List.append_nil] at htogether
    exact ⟨htogether, hover, fun _ => hkept rfl⟩

/-- A pipeline is over: what its client is told, and what stays behind. -/
theorem deliverResult_talks (hw : w.Appends) (c : Cell) (hadError : Bool)
    (hlen : 0 < c.conn.beResp.len) : ∃ (pending : Bytes) (resp : RespBuf),
      Speaks (if hadError = true then
          [.completed true, .discarded c.conn.feQ.toList, .handed pending c.conn.beResp.bytes]
        else if c.conn.gotSync = true then
          [.completed false, .replied .bindComplete, .handed pending c.conn.beResp.bytes]
        else [.completed false, .replied .bindComplete])
        { c.conn with
          feQ := if hadError = true then .empty .none (by decide) else c.conn.feQ, beResp := resp }
        (deliverResult w c hadError).1.conn ∧
      ((deliverResult w c hadError).2 = false → Overflowed (deliverResult w c hadError).1.conn.log) ∧
      ((deliverResult w c hadError).2 = true → resp.bytes =
        if hadError = true ∨ c.conn.gotSync = true then [] else c.conn.beResp.bytes) := by
  have hsend := fun {a l q} => sendResult_drained (w := w) c hadError hlen (a := a) (l := l) (q := q)
  unfold deliverResult
  dsimp only
  cases hadError with
  | true =>
      simp only [if_true, true_or] at hsend ⊢
      have hfirst : Speaks [.completed true, .discarded c.conn.feQ.toList]
          { c.conn with feQ := .empty .none (by decide) }
          { feqClearAll (c.conn.note (.completed true)) with gotExecute := false } :=
        ⟨by simp [spoken, feqClearAll, Conn.note, Obs.spoken], rfl⟩
      exact hsend hfirst
  | false =>
      have hnote : Speaks [.completed false] c.conn (c.conn.note (.completed false)) := .note _ rfl
      obtain ⟨hreply, hok⟩ := speaks_reply hw (c.conn.note (.completed false)) .bindComplete
      have hfirst := hnote.trans hreply
      have hnot : ¬ (false = true) := by rintro ⟨⟩
      simp only [if_neg hnot]
      generalize reply w (c.conn.note (.completed false)) .bindComplete = r at hfirst hok
      obtain ⟨a, ok⟩ := r
      cases hok
      have hrest := hsend (q := c.conn.feQ) hfirst
      simp only [false_or, Bool.false_eq_true] at hrest ⊢
      obtain ⟨pending, resp, hspeaks, hfull, hkept⟩ := hrest
      refine ⟨pending, resp, ?_, hfull, hkept⟩
      split at hspeaks <;> rename_i hgot
      · rw [if_pos hgot]
        exact hspeaks
      · rw [if_neg hgot]
        exact hspeaks

/-! ### Completions -/

namespace Conn.Talks

variable {hasPool : Bool} {c c' : Conn} {h h' : BackendConn} {d d' : Talk}

theorem step {l : List Obs} (hc : c.Talks w hasPool h d) (hgrows : ∃ m, c'.log = c.log ++ m)
    (hstep : Talk.Step w hasPool c.log c'.log d l d') (hof : d'.Of c' h')
    (htold : spoken c'.log = spoken c.log ++ l) : c'.Talks w hasPool h' d' := by
  obtain ⟨m, hm⟩ := hgrows
  have hsaid : spoken m = l := by
    rw [hm, spoken_append] at htold
    exact List.append_cancel_left htold
  rw [← hsaid, hm] at hstep
  exact ⟨hm ▸ .step hc.run hstep, hof⟩

end Conn.Talks

theorem submitBeRecv_speaks (f : Nat → BackendConn) (c : Cell) : ∃ wait : BeWait,
    (wait.Runs ∨ wait = c.conn.beWait) ∧
      Speaks [] { c.conn with beWait := wait } (submitBeRecv f c).1.conn := by
  unfold submitBeRecv
  split
  · exact ⟨_, Or.inr rfl, .refl _⟩
  · rename_i b hbe
    split
    · exact ⟨_, Or.inr rfl, .refl _⟩
    · rcases prep_cases c { c.request .beRecv with fd := (f b).fd, session := (f b).session }
        (fun conn => { conn with beRecvPending := true, beWait := .reading }) with h | h
      · rw [h]
        exact ⟨.reading, Or.inl (Or.inr rfl), .fields rfl rfl⟩
      · rw [h]
        exact ⟨_, Or.inr rfl, .aside c.conn rfl⟩

theorem submitBeSend_speaks (f : Nat → BackendConn) (c : Cell) : ∃ wait : BeWait,
    (wait.Runs ∨ wait = c.conn.beWait) ∧
      Speaks [] { c.conn with beWait := wait } (submitBeSend f c).1.conn := by
  unfold submitBeSend
  split
  · exact ⟨_, Or.inr rfl, .refl _⟩
  · rename_i b hbe
    split
    · exact ⟨_, Or.inr rfl, .aside c.conn rfl⟩
    · split
      · obtain ⟨wait, hwait, hspeaks⟩ :=
          submitBeRecv_speaks f { c with conn := { c.conn with beWait := .reading } }
        refine ⟨wait, Or.inl ?_, hspeaks⟩
        exact hwait.elim (fun h => h) fun h => Or.inr h
      · rename_i off len hptr
        rcases prep_cases c { c.request .beSend with
          fd := (f b).fd, backend := some b, off := off, len := len, session := (f b).session }
          (fun conn => { conn with beSendPending := true, beWait := .sending }) with h | h
        · rw [h]
          exact ⟨.sending, Or.inl (Or.inl rfl), .fields rfl rfl⟩
        · rw [h]
          exact ⟨_, Or.inr rfl, .aside c.conn rfl⟩

/-- The pipeline goes on with another request to the backend. -/
theorem Conn.Talks.goesOn {hasPool : Bool} {c c' : Conn} {h : BackendConn} {d : Talk} {wait : BeWait}
    (hc : c.Talks w hasPool h d) (hgrows : ∃ m, c'.log = c.log ++ m) (hruns : d.wait.Runs)
    (hwait : wait.Runs ∨ wait = c.beWait) (hspeaks : Speaks [] { c with beWait := wait } c') :
    ∃ d', c'.Talks w hasPool h d' := by
  have hwait' : wait.Runs := hwait.elim (fun h => h) fun h => h ▸ hc.of.wait ▸ hruns
  have hof : ({ d with wait := wait } : Talk).Of { c with beWait := wait } h :=
    ⟨hc.of.queue, rfl, hc.of.sync, hc.of.resp, fun hbe => ⟨hwait', (hc.of.running hbe).2⟩⟩
  exact ⟨_, hc.step hgrows (.switch wait hruns hwait') (hof.congr hspeaks.stand) hspeaks.told⟩

/-- The loss of the backend is reported. -/
theorem speaks_reportLost (hw : w.Appends) (c : Cell) :
    Speaks [.lost, .replied pipelineError, .replied .readyForQuery]
        { c.conn.emptyResp with be := none } (reportLost w c).1.conn ∧
      ((reportLost w c).2 = false → Overflowed (reportLost w c).1.conn.log) := by
  obtain ⟨a, ha⟩ : ∃ a : Conn, a = { (c.conn.note .lost).emptyResp with be := none } := ⟨_, rfl⟩
  have hlost : reportLost w c =
      drainFrontendOut { c with conn := replyBoth w a pipelineError .readyForQuery } := by
    rw [ha]
    rfl
  have hnote : Speaks [.lost] { c.conn.emptyResp with be := none } a := by
    rw [ha]
    exact ⟨spoken_append .., rfl⟩
  have hreply := speaks_replyBoth hw a pipelineError .readyForQuery
  rw [hlost]
  generalize replyBoth w a pipelineError .readyForQuery = b at hreply
  obtain ⟨hdrain, hfull⟩ := speaks_drainFrontendOut { c with conn := b }
  exact ⟨(hnote.trans hreply).trans hdrain, hfull⟩

/-- Bytes come from the backend: messages of the pipeline, unless it was over before. -/
theorem received_talks (hw : w.FollowsPipeline) (hp : w.Peeks) {hasPool : Bool} {c : Conn}
    {h h' : BackendConn} {d : Talk} {data : Bytes} {resp : RespBuf} {exit : RecvExit}
    (hc : c.Talks w hasPool h d) (hbe : c.be ≠ none)
    (hrecv : asyncOnRecv w h data c.beResp ioBuf = (h', resp, exit)) (hexit : exit ≠ .failed) :
    (∃ ms, d.Hears w ms { d with status := h'.pipeSt, resp := resp.bytes } ∧
        usedUp h h' data = ms.flatten ∧
        (exit = .more → ∀ m ∈ ms, Framing.typeOf m ≠ some msgReadyForQuery) ∧
        (exit = .complete → Talk.Final ms)) ∨
      d.status.complete = true ∧ Overflowed c.log := by
  obtain ⟨hruns, hstatus, hskip⟩ := hc.of.running hbe
  rcases hst : d.status.complete with _ | _
  · obtain ⟨ms, htaken⟩ := asyncOnRecv_taken hw hp h data c.beResp ioBuf (by rw [hstatus, hst]) hrecv hexit
    refine Or.inl ⟨ms, ⟨hruns, hst, htaken.framed, ?_⟩, htaken.used, htaken.more, htaken.complete⟩
    rw [htaken.status, htaken.resp, hstatus, hskip, hc.of.resp]
  · exact Or.inr ⟨rfl, (hc.run.goes hruns).resolve_left (by rw [hst]; nofun)⟩

/-- The response of a pipeline that is over is not empty: it ends in ReadyForQuery. -/
theorem Talk.Hears.resp_ne (hw : w.FollowsPipeline) {d d' : Talk} {ms : List Bytes}
    (hears : d.Hears w ms d') (hfinal : Talk.Final ms) : d'.resp ≠ [] := by
  obtain ⟨init, last, rfl, -, hlast⟩ := hfinal
  have hkeep : keptBytes w true [last] = last := by
    have hhead : last.headD 0 = msgReadyForQuery := by
      rw [List.headD_eq_head?_getD]
      exact congrArg (Option.getD · 0) hlast
    rw [keptBytes_cons, hhead, (hw.keeps true).1]
    exact List.append_nil last
  have hne : last ≠ [] := (hears.framed last (by simp)).ne_nil
  rw [hears.after, keptBytes_append, hkeep]
  simp [hne]

/-- A receive went into the response. -/
theorem gotData_talks {c : Conn} {h h' : BackendConn} {d : Talk} {data : Bytes} {resp : RespBuf}
    {exit : RecvExit} (hof : d.Of c h) (hbe : c.be ≠ none)
    (hrecv : asyncOnRecv w h data c.beResp ioBuf = (h', resp, exit)) :
    ({ d with status := h'.pipeSt, resp := resp.bytes } : Talk).Of
        ((c.landed .beRecv).gotData resp (usedUp h h' data)) h' ∧
      spoken ((c.landed .beRecv).gotData resp (usedUp h h' data)).log =
        spoken c.log ++ [.beData (usedUp h h' data)] := by
  obtain ⟨⟨acc, len, st, hconn⟩, -⟩ := asyncOnRecv_conn w h data c.beResp ioBuf
  rw [hrecv] at hconn
  dsimp only at hconn
  obtain ⟨hruns, -, hskip⟩ := hof.running hbe
  refine ⟨⟨hof.queue, hof.wait, hof.sync, rfl, fun _ => ⟨hruns, rfl, ?_⟩⟩, spoken_append ..⟩
  rw [hconn]
  exact hskip

/-- The delivery of the result as part of the conversation. -/
theorem over_talks (hw : w.Appends) {a : Cell} {g : BackendConn} {d : Talk} {l : List Obs}
    {ms : List Bytes} {resp used : Bytes}
    (hof : ({ d with status := g.pipeSt, resp := resp } : Talk).Of a.conn g) (hne : resp ≠ [])
    (htold : spoken a.conn.log = l ++ [.beData used]) (hused : used = ms.flatten) :
    let d₁ : Talk := { d with status := g.pipeSt, resp := resp }
    ∃ pending resp', ({ d₁ with queue := d.queueAfter d₁, resp := resp' } : Talk).Of
        (deliverResult w a g.pipeSt.sawError).1.conn g ∧
      spoken (deliverResult w a g.pipeSt.sawError).1.conn.log = l ++ d.resultOf ms pending d₁ ∧
      ((deliverResult w a g.pipeSt.sawError).2 = false →
        Overflowed (deliverResult w a g.pipeSt.sawError).1.conn.log) ∧
      ((deliverResult w a g.pipeSt.sawError).2 = true → resp' = d.respAfter d₁) := by
  intro d₁
  have hlen : 0 < a.conn.beResp.len :=
    Nat.pos_of_ne_zero fun hzero => hne (hof.resp_eq_nil.mpr hzero)
  obtain ⟨pending, resp', hspeaks, hfull, hkept⟩ := deliverResult_talks hw a g.pipeSt.sawError hlen
  have hbytes : a.conn.beResp.bytes = resp := hof.resp
  have hsync : a.conn.gotSync = d.sync := hof.sync
  have hqueue : a.conn.feQ.toList = d.queue := hof.queue
  refine ⟨pending, resp'.bytes, ?_, ?_, hfull, fun hok => ?_⟩
  · have hqueue' : (if g.pipeSt.sawError = true then .empty .none (by decide) else a.conn.feQ :
        RingBuffer FeqItem feQMax).toList = d.queueAfter d₁ := by
      unfold Talk.queueAfter
      split
      · rfl
      · exact hqueue
    exact Talk.Of.congr (c := { a.conn with
      feQ := if g.pipeSt.sawError = true then .empty .none (by decide) else a.conn.feQ, beResp := resp' })
      ⟨hqueue', hof.wait, hof.sync, rfl, hof.running⟩ hspeaks.stand
  · rw [hspeaks.told, htold, hbytes, hqueue, hsync, hused, List.append_assoc]
    rfl
  · rw [hkept hok, hbytes, hsync]
    rfl

/-- After bytes were refused at the end of a pipeline nothing is promised. -/
theorem Conn.Talks.stray {hasPool : Bool} {c c' : Conn} {h h' : BackendConn} {d : Talk}
    (hc : c.Talks w hasPool h d) (hwas : d.status.complete = true ∧ Overflowed c.log)
    (hbe : c.be ≠ none) (hlanding : Enters Obs.landing c c')
    (hruns : c'.be ≠ none → c'.beWait.Runs ∧ h'.skipParseBind = true) :
    ∃ d', c'.Talks w hasPool h' d' := by
  obtain ⟨l, hlog, hall⟩ := hlanding
  have hof : (⟨c'.feQ.toList, c'.beWait, c'.gotSync, c'.beResp.bytes, h'.pipeSt⟩ : Talk).Of c' h' :=
    ⟨rfl, rfl, rfl, rfl, fun hbe => ⟨(hruns hbe).1, rfl, (hruns hbe).2⟩⟩
  have hsaid : ∀ o ∈ spoken l, o.landing := fun o ho => hall o (List.mem_filter.mp ho).1
  exact ⟨_, hc.step ⟨l, hlog⟩ (.stray hwas.2 (hc.of.running hbe).1 hwas.1 hsaid) hof
    (by rw [hlog, spoken_append])⟩

/-- The connection whose backend is lost, whatever is left in its buffer. -/
theorem lost_landed (c : Conn) (op : Op) (resp : RespBuf) :
    ({ c.landed op with beResp := resp } : Conn).log = c.log ∧
      ({ c.landed op with beResp := resp } : Conn).stand = ({ c with beResp := resp } : Conn).stand := by
  cases op <;> exact ⟨rfl, rfl⟩

theorem lost_talks (hw : w.Appends) {a : Cell} {c : Conn} {h : BackendConn} {d : Talk} {resp : RespBuf}
    (hof : d.Of c h)
    (ha : a.conn.log = c.log ∧ a.conn.stand = ({ c with beResp := resp } : Conn).stand) :
    (({ d with resp := [] } : Talk).Of (reportLost w a).1.conn noBackend ∧
        (reportLost w a).1.conn.be = none) ∧
      spoken (reportLost w a).1.conn.log =
        spoken c.log ++ [.lost, .replied pipelineError, .replied .readyForQuery] ∧
      ((reportLost w a).2 = false → Overflowed (reportLost w a).1.conn.log) := by
  obtain ⟨hlog, hstand⟩ := ha
  obtain ⟨hspeaks, hfull⟩ := speaks_reportLost hw a
  simp only [Conn.stand, Prod.mk.injEq] at hstand
  obtain ⟨hq, hwait, -, hsync, -⟩ := hstand
  have hsame := hspeaks.stand
  simp only [Conn.stand, Prod.mk.injEq] at hsame
  obtain ⟨hq', hwait', hbe', hsync', hresp'⟩ := hsame
  refine ⟨⟨⟨?_, ?_, ?_, ?_, fun hne => absurd hbe' hne⟩, hbe'⟩, ?_, hfull⟩
  · rw [hq']
    exact (congrArg RingBuffer.toList hq).trans hof.queue
  · exact (hwait'.trans hwait).trans hof.wait
  · exact (hsync'.trans hsync).trans hof.sync
  · rw [hresp']
    rfl
  · rw [hspeaks.told]
    exact congrArg (spoken · ++ _) hlog

theorem Land.talks (hw : w.Appends) (hf : w.FollowsPipeline) (hp : w.Peeks) {hasPool : Bool} {op : Op}
    {c c' : Cell} {h h' : BackendConn} {d : Talk} (hl : Land w op c h c' h')
    (hc : c.conn.Talks w hasPool h d) : ∃ d', c'.conn.Talks w hasPool h' d' := by
  have hlanding := hl.landing
  have hlanded : (c.conn.landed op).log = c.conn.log ∧ (c.conn.landed op).stand = c.conn.stand := by
    cases op <;> exact ⟨rfl, rfl⟩
  have hgrows : ∃ l, c'.conn.log = c.conn.log ++ l := hl.landing.imp fun _ h => h.1
  have hgrows' : ∃ l, c'.conn.log = (c.conn.landed op).log ++ l := by
    rw [hlanded.1]
    exact hgrows
  have hstart : ∀ g : BackendConn, g.pipeSt = h.pipeSt → g.skipParseBind = h.skipParseBind →
      (c.conn.landed op).Talks w hasPool g d := fun g hst hskip => by
    have hof := hc.of.congr hlanded.2
    refine ⟨by rw [hlanded.1]; exact hc.run, hof.queue, hof.wait, hof.sync, hof.resp, fun hbe => ?_⟩
    rw [hst, hskip]
    exact hof.running hbe
  cases hl with
  | sent n hbe =>
      obtain ⟨wait, hwait, hspeaks⟩ := submitBeSend_speaks (fun _ => asyncSendAdvance h n)
        (c.upd fun conn => conn.landed .beSend)
      exact (hstart (asyncSendAdvance h n) rfl rfl).goesOn hgrows' (hc.of.running hbe).1
        hwait hspeaks
  | resend hbe =>
      obtain ⟨wait, hwait, hspeaks⟩ := submitBeSend_speaks (fun _ => h)
        (c.upd fun conn => conn.landed .beSend)
      exact (hstart h rfl rfl).goesOn hgrows' (hc.of.running hbe).1 hwait hspeaks
  | @more _ _ h' data resp hbe hrecv =>
      obtain ⟨hof, htold⟩ := gotData_talks hc.of hbe hrecv
      obtain ⟨wait, hwait, hspeaks⟩ := submitBeRecv_speaks (fun _ => h')
        (c.upd fun conn => (conn.landed .beRecv).gotData resp (usedUp h h' data))
      have hdata : ∃ l, ((c.conn.landed .beRecv).gotData resp (usedUp h h' data)).log =
          c.conn.log ++ l := ⟨_, rfl⟩
      rcases received_talks hf hp hc hbe hrecv nofun with ⟨ms, hears, hused, hmore, -⟩ | hwas
      · have ha := hc.step hdata (.data hears (hmore rfl)) hof (hused ▸ htold)
        exact ha.goesOn ((outputs_submitBeRecv _ _).asides.imp fun _ h => h.1) hears.runs hwait hspeaks
      · refine hc.stray hwas hbe hlanding fun _ => ?_
        obtain ⟨hruns, -, hskip⟩ := hof.running hbe
        have hsame := hspeaks.stand
        simp only [Conn.stand, Prod.mk.injEq] at hsame
        rw [hsame.2.1]
        exact ⟨hwait.elim (fun h => h) fun h => h ▸ hof.wait ▸ hruns, hskip⟩
  | @complete _ c₁ _ h' data resp hbe hrecv hsend =>
      obtain ⟨hof, htold⟩ := gotData_talks hc.of hbe hrecv
      rcases received_talks hf hp hc hbe hrecv nofun with ⟨ms, hears, hused, -, hdone⟩ | hwas
      · have hfinal := hdone rfl
        obtain ⟨pending, resp', hof', htold', -, hkept⟩ := over_talks hw
          (a := c.upd fun conn => (conn.landed .beRecv).gotData resp (usedUp h h' data)) hof
          (hears.resp_ne hf hfinal) htold hused
        rw [hsend] at hof' htold' hkept
        cases hkept rfl
        refine ⟨_, hc.step hgrows (.ended pending hears hfinal) ?_ htold'⟩
        exact ⟨hof'.queue, rfl, rfl, hof'.resp, fun hbe => absurd rfl hbe⟩
      · exact hc.stray hwas hbe hlanding fun hnone => absurd rfl hnone
  | @completeCut _ _ _ h' data resp hbe hrecv hsend =>
      obtain ⟨hof, htold⟩ := gotData_talks hc.of hbe hrecv
      rcases received_talks hf hp hc hbe hrecv nofun with ⟨ms, hears, hused, -, hdone⟩ | hwas
      · have hfinal := hdone rfl
        obtain ⟨pending, resp', hof', htold', hfull, -⟩ := over_talks hw
          (a := c.upd fun conn => (conn.landed .beRecv).gotData resp (usedUp h h' data)) hof
          (hears.resp_ne hf hfinal) htold hused
        rw [hsend] at hof' htold' hfull
        exact ⟨_, hc.step hgrows (.endedCut pending resp' hears hfinal (hfull rfl)) hof' htold'⟩
      · have hfacts := deliverResult_facts (w := w)
          (c.upd fun conn => (conn.landed .beRecv).gotData resp (usedUp h h' data)) h'.pipeSt.sawError
        rw [hsend] at hfacts
        refine hc.stray hwas hbe hlanding fun _ => ?_
        obtain ⟨hruns, -, hskip⟩ := hof.running hbe
        rw [hfacts.2.2.1]
        exact ⟨hof.wait ▸ hruns, hskip⟩
  | @lost _ _ c₁ _ resp hbe hsend =>
      obtain ⟨⟨hof', hnone⟩, htold, -⟩ := lost_talks hw (a := c.upd fun conn =>
        { conn.landed op with beResp := resp }) hc.of (lost_landed c.conn op resp)
      rw [hsend] at hof' htold hnone
      refine ⟨_, hc.step hgrows (.lost (hc.of.running hbe).1) ?_ htold⟩
      exact ⟨hof'.queue, rfl, rfl, hof'.resp, fun hne => absurd hnone hne⟩
  | @lostCut _ _ _ _ resp hbe hsend =>
      obtain ⟨⟨hof', -⟩, htold, hfull⟩ := lost_talks hw (a := c.upd fun conn =>
        { conn.landed op with beResp := resp }) hc.of (lost_landed c.conn op resp)
      rw [hsend] at hof' htold hfull
      exact ⟨_, hc.step hgrows (.lostCut (hc.of.running hbe).1 (hfull rfl)) hof' htold⟩

theorem Talk.new_of {c : Conn} (hqueue : c.feQ.toList = []) (hwait : c.beWait = .idle)
    (hsync : c.gotSync = false) (hresp : c.beResp.bytes = []) (hbe : c.be = none)
    (hlog : c.log = []) {hasPool : Bool} : c.Talks w hasPool noBackend Talk.new :=
  ⟨by rw [hlog]; exact .new, hqueue, hwait, hsync, hresp, fun hne => absurd hbe hne⟩

/-- A connection follows the conversation, as long as no entry for a request is missing and no request
of an earlier pipeline is in the way. -/
def Conn.Converses (w : Pqwire) (hasPool : Bool) (c : Conn) (h : BackendConn) : Prop :=
  c.Upset ∨ ∃ d, c.Talks w hasPool h d

theorem converses_paired (hw : w.Appends) (hf : w.FollowsPipeline) (hp : w.Peeks) (cfg : Config)
    (tls hasPool : Bool) : Conn.Paired w cfg tls hasPool (fun _ => False) (fun _ _ => True)
      (Conn.Converses w hasPool) where
  fresh _ := Or.inr ⟨_, Talk.new_of rfl rfl rfl rfl rfl rfl⟩
  admits _ _ hadmits := by
    cases hadmits <;> exact Or.inr ⟨_, Talk.new_of rfl rfl rfl rfl rfl rfl⟩
  act {c c' h h'} _ ha _ hc := by
    by_cases hupset : c'.conn.Upset
    · exact Or.inl hupset
    · obtain ⟨d, hc⟩ := hc.resolve_left fun hwas =>
        hupset (hwas.imp ha.grows.log_mem ha.grows.log_mem)
      obtain ⟨l, d', hstep, hof, htold⟩ := ha.talks hw hc.of hupset
      exact Or.inr ⟨d', hc.step (ha.grows.log.imp fun _ h => h.1) hstep hof htold⟩
  land {r c c' h h'} _ _ hl _ hc := by
    obtain ⟨l, hlog, -⟩ := hl.landing
    have hgrows : ∀ o ∈ c.conn.log, o ∈ c'.conn.log := fun o ho => by
      rw [hlog]
      exact List.mem_append_left l ho
    exact hc.imp (fun hupset => hupset.imp (hgrows _) (hgrows _)) fun ⟨d, hc⟩ => hl.talks hw hf hp hc
  delivered {r c h} _ _ hc := by
    have hsame : (c.delivered r.op).log = c.log ∧ (c.delivered r.op).stand = c.stand := by
      cases r.op <;> exact ⟨rfl, rfl⟩
    rw [Conn.Converses, Conn.Upset, hsame.1]
    refine hc.imp (fun h => h) ?_
    rintro ⟨d, hc⟩
    exact ⟨d, by rw [hsame.1]; exact hc.run, hc.of.congr hsame.2⟩
  abandon {c h} _ hc := by
    refine hc.imp (fun hupset => hupset.imp (List.mem_append_left _) (List.mem_append_left _)) ?_
    rintro ⟨d, hc⟩
    refine ⟨d, hc.step ⟨_, rfl⟩ .closed ?_ (spoken_append ..)⟩
    exact ⟨hc.of.queue, hc.of.wait, hc.of.sync, hc.of.resp, fun hne => absurd rfl hne⟩
  close {c} _ _ hbe hc := by
    have hlog : c.close.log = c.log ++ [.discarded c.feQ.toList] := rfl
    refine hc.imp (fun hupset => hupset.imp (List.mem_append_left _) (List.mem_append_left _)) ?_
    rintro ⟨d, hc⟩
    refine ⟨_, hc.step ⟨_, rfl⟩ .discarded ?_ ?_⟩
    · exact ⟨rfl, rfl, hc.of.sync, hc.of.resp, fun hne => absurd hbe hne⟩
    · rw [hlog, spoken_append, hc.of.queue]
      rfl

/-- Every connection in every state of a run follows the conversation. -/
theorem run_converses (hw : w.Appends) (hf : w.FollowsPipeline) (hp : w.Peeks) (env : Env)
    (cfg : Config) (nonblock : Bool) (now : Nat) (inputs : List Input) (i : Slot) :
    ((Runs.run (step w env) (start env cfg nonblock now) inputs).conns i).Converses w
      (start env cfg nonblock now).pool.isSome
      ((Runs.run (step w env) (start env cfg nonblock now) inputs).held i) :=
  (converses_paired hw hf hp cfg (!cfg.plain) _).run (Server.Stable.along_any _ inputs) i

end
