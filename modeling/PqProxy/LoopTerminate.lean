import PqProxy.LoopEntries

/-! The end of a connection that the client asked for. Terminate is acted upon when it is read, not
when its turn in the queue would have come; nothing is lost by that as long as no pipeline of the
connection runs and nothing waits in its queue. -/

/-- What a history tells so far: whether the last message was Terminate, whether a pipeline runs, and
whether the connection is being closed. -/
structure Leaving where
  asked : Bool
  running : Bool
  closed : Bool

namespace Leaving

def next (s : Leaving) : Obs → Leaving
  | .received e _ => { s with asked := decide (e = .terminate) }
  | .began => { s with running := true }
  | .completed _ | .lost => { s with running := false }
  | .closed => { s with closed := true }
  | _ => s

/-- A connection whose client has left is closed while no pipeline runs, and the queue that is emptied
then has no Bind in it. -/
def quiet (s : Leaving) : Obs → Bool
  | .closed => s.closed || !s.asked || !s.running
  | .discarded its => !s.closed || !s.asked || its.all fun
      | .bind _ => false
      | _ => true
  | _ => true

/-- The history up to now. -/
def read (log : List Obs) : Leaving := Runs.run next ⟨false, false, false⟩ log

end Leaving

/-- Terminate does not tear down a pipeline, and makes no Bind disappear. -/
structure TerminatesQuietly (log : List Obs) : Prop where
  along : Runs.Along Leaving.next (fun s o => s.quiet o = true) ⟨false, false, false⟩ log

/-- A Terminate comes while work of its connection is not done, or a request to a backend could not be
made. -/
def Obs.interrupts : Obs → Bool
  | .received .terminate wait => !decide (wait = .idle)
  | .noSqe | .crossed => true
  | _ => false

/-- Entries that change nothing. -/
def Obs.idle : Obs → Bool
  | .received .. | .began | .completed _ | .lost | .closed | .discarded _ => false
  | _ => true

section

variable {w : Pqwire} {env : Env} {cfg : Config}

theorem idle_of_aside {o : Obs} (h : o.aside = true) : o.idle = true := by
  cases o <;> first | rfl | cases h

theorem Leaving.next_idle {o : Obs} (h : o.idle = true) (s : Leaving) :
    s.next o = s ∧ s.quiet o = true := by
  cases o <;> first | exact ⟨rfl, rfl⟩ | cases h

theorem leaving_idle {l : List Obs} (h : ∀ o ∈ l, o.idle = true) (s : Leaving) :
    Runs.run Leaving.next s l = s ∧ Runs.Along Leaving.next (fun s o => s.quiet o = true) s l := by
  induction l with
  | nil => exact ⟨rfl, trivial⟩
  | cons o l ih =>
      obtain ⟨hnext, hquiet⟩ := Leaving.next_idle (h o List.mem_cons_self) s
      obtain ⟨hrun, halong⟩ := ih fun a ha => h a (List.mem_cons_of_mem o ha)
      rw [Runs.run_cons, hnext]
      exact ⟨hrun, hquiet, by rw [hnext]; exact halong⟩

/-- Only entries that change nothing are made. -/
abbrev Idles (c c' : Conn) : Prop := Enters (fun o => o.idle = true) c c'

theorem Idles.leaving {c c' : Conn} (h : Idles c c') :
    Leaving.read c'.log = Leaving.read c.log ∧ (TerminatesQuietly c.log → TerminatesQuietly c'.log) := by
  obtain ⟨l, hl, hall⟩ := h
  obtain ⟨hrun, halong⟩ := leaving_idle hall (Leaving.read c.log)
  rw [hl]
  refine ⟨?_, fun hquiet => ⟨Runs.Along.append.mpr ⟨hquiet.along, halong⟩⟩⟩
  rw [Leaving.read, Runs.run_append]
  exact hrun

theorem Asides.idles {c c' : Conn} (h : Asides c c') : Idles c c' := h.mono fun _ => idle_of_aside

theorem leaving_note (c : Conn) (o : Obs) :
    Leaving.read (c.note o).log = (Leaving.read c.log).next o := by
  rw [Leaving.read, Conn.note, Runs.run_append]
  rfl

theorem quietly_note {c : Conn} {o : Obs} (h : TerminatesQuietly c.log)
    (ho : (Leaving.read c.log).quiet o = true) : TerminatesQuietly (c.note o).log :=
  ⟨Runs.Along.append.mpr ⟨h.along, ho, trivial⟩⟩

/-! ### The invariant -/

/-- A pipeline runs on a backend that is held, and a client that has left has no work. -/
structure Conn.Leaves (c : Conn) : Prop where
  quiet : TerminatesQuietly c.log
  matched : c.Matched
  running : (Leaving.read c.log).running = true → c.be ≠ none ∨ (Leaving.read c.log).closed = true
  asked : (Leaving.read c.log).asked = true → c.feQ.toList = [] ∧ c.beWait = .idle

namespace Conn.Leaves

/-- Entries that change nothing, while the backend side and the queue stay. -/
theorem idles {c c' : Conn} (h : c.Leaves) (hidles : Idles c c') (hmatched : c'.Matched)
    (hbe : c.be ≠ none → c'.be ≠ none)
    (hasked : (Leaving.read c.log).asked = true → c'.feQ.toList = c.feQ.toList ∧ c'.beWait = c.beWait) :
    c'.Leaves := by
  obtain ⟨hread, hquiet⟩ := hidles.leaving
  refine ⟨hquiet h.quiet, hmatched, fun hrunning => ?_, fun hask => ?_⟩
  · rw [hread] at hrunning ⊢
    exact (h.running hrunning).imp_left hbe
  · rw [hread] at hask
    obtain ⟨hqueue, hwait⟩ := hasked hask
    rw [hqueue, hwait]
    exact h.asked hask

/-- The backend side and the queue stay. -/
theorem same {c c' : Conn} (h : c.Leaves) (hidles : Idles c c') (hside : c'.side = c.side) :
    c'.Leaves := by
  simp only [Conn.side, Prod.mk.injEq] at hside
  obtain ⟨hbe, hwait, -, hqueue⟩ := hside
  refine h.idles hidles ?_ (fun hne => hbe ▸ hne) fun _ => ⟨by rw [hqueue], hwait⟩
  intro hne
  rw [hwait]
  exact h.matched (hbe ▸ hne)

/-- A message other than Terminate. -/
theorem received {c : Conn} (h : c.Leaves) {e : Event} (he : e ≠ .terminate) :
    (c.received e).Leaves ∧ (Leaving.read (c.received e).log).asked = false := by
  have hread : Leaving.read (c.received e).log = { Leaving.read c.log with asked := false } := by
    rw [Conn.received, leaving_note]
    simp [Leaving.next, he]
  rw [hread]
  refine ⟨⟨quietly_note h.quiet rfl, h.matched, ?_, ?_⟩, rfl⟩
  · rw [hread]
    exact h.running
  · rw [hread]
    rintro ⟨⟩

/-- A pipeline is over, or given up. -/
theorem ended {c d c' : Conn} {l : List Obs} (h : c.Leaves) (hasked : (Leaving.read c.log).asked = false)
    (hlog : d.log = c.log ++ l)
    (hl : l = [.lost] ∨ l = [.completed false] ∨ ∃ its, l = [.completed true, .discarded its])
    (hidles : Idles d c') (hmatched : c'.Matched) : c'.Leaves := by
  obtain ⟨hread, hquiet⟩ := hidles.leaving
  have hdone : (Leaving.read d.log).running = false ∧ (Leaving.read d.log).asked = false ∧
      TerminatesQuietly d.log := by
    rw [hlog, Leaving.read, Runs.run_append]
    rcases hl with rfl | rfl | ⟨its, rfl⟩
    · exact ⟨rfl, hasked, ⟨Runs.Along.append.mpr ⟨h.quiet.along, rfl, trivial⟩⟩⟩
    · exact ⟨rfl, hasked, ⟨Runs.Along.append.mpr ⟨h.quiet.along, rfl, trivial⟩⟩⟩
    · refine ⟨rfl, hasked, ⟨Runs.Along.append.mpr ⟨h.quiet.along, rfl, ?_, trivial⟩⟩⟩
      change (_ || !(Leaving.read c.log).asked || _) = true
      rw [hasked, Bool.not_false, Bool.or_true, Bool.true_or]
  rw [← hread] at hdone
  refine ⟨hquiet hdone.2.2, hmatched, fun hrun => ?_, fun hask => ?_⟩
  · cases hdone.1.symm.trans hrun
  · cases hdone.2.1.symm.trans hask

/-- A client that has not left goes on. -/
theorem goesOn {c c' : Conn} (h : c.Leaves) (hasked : (Leaving.read c.log).asked = false)
    (hidles : Idles c c') (hside : c'.be = c.be ∧ c'.beWait = c.beWait) : c'.Leaves := by
  refine h.idles hidles ?_ (fun hne => hside.1 ▸ hne) fun hask => nomatch hasked.symm.trans hask
  intro hbe
  rw [hside.2]
  exact h.matched (hside.1 ▸ hbe)

/-- A client with a request in its queue has not left. -/
theorem popped {c c' : Conn} {it : FeqItem} (h : c.Leaves) (hpop : feqPop c = some (c', it)) :
    c'.Leaves ∧ (Leaving.read c'.log).asked = false := by
  have hidles : Idles c c' := enters_feqPop hpop rfl
  have hasked : (Leaving.read c.log).asked = false := by
    rw [← Bool.not_eq_true]
    exact fun hask => feqPop_ne_nil hpop (h.asked hask).1
  obtain ⟨q, -, rfl⟩ := feqPop_some hpop
  refine ⟨h.goesOn hasked hidles ⟨rfl, rfl⟩, ?_⟩
  rw [hidles.leaving.1]
  exact hasked

/-- A request is taken up, and by then the client has not left. -/
theorem arrives {c c₁ : Cell} {it : FeqItem} (h : c.conn.Leaves) (harrive : Arrives c it c₁) :
    c₁.conn.Leaves ∧ (Leaving.read c₁.conn.log).asked = false := by
  cases harrive with
  | @direct e it hwork =>
      refine h.received fun he => ?_
      rw [he] at hwork
      cases hwork
  | popped _ hpop =>
      exact h.popped hpop

theorem bindArrives {c c₁ : Cell} {src : BindSource} (h : c.conn.Leaves)
    (harrive : BindArrives w c src c₁) (hsqe : .noSqe ∉ c.conn.log) :
    c₁.conn.Leaves ∧ (Leaving.read c₁.conn.log).asked = false := by
  cases harrive with
  | @direct bind =>
      obtain ⟨hrecv, hasked⟩ := h.received (e := .bind bind) nofun
      have hbinding : Idles (c.conn.received (.bind bind)) ((c.conn.received (.bind bind)).binding w bind) :=
        .note _ rfl
      have hidles : Idles (c.conn.received (.bind bind))
          ((c.conn.received (.bind bind)).binding w bind).emptyResp.clearGot :=
        hbinding.trans (.of_log rfl)
      exact ⟨hrecv.goesOn hasked hidles ⟨rfl, rfl⟩, by rw [Cell.upd, hidles.leaving.1]; exact hasked⟩
  | @popped conn it hidle hpop =>
      obtain ⟨htook, hasked⟩ := h.popped hpop
      have hidles : Idles conn (conn.binding w (it.toBind w)) := .note _ rfl
      exact ⟨htook.goesOn hasked hidles ⟨rfl, rfl⟩, by rw [hidles.leaving.1]; exact hasked⟩
  | again _ hmem => exact absurd hmem hsqe

/-- Nothing in the way of Terminate. -/
theorem act {hasPool : Bool} {c c' : Cell} {h h' : BackendConn} (hc : c.conn.Leaves)
    (ha : Act w cfg hasPool c h c' h') (hlog : ∀ o ∈ c'.conn.log, ¬ o.interrupts = true) :
    c'.conn.Leaves := by
  have hgrow : ∀ {o : Obs}, o ∈ c.conn.log → o ∈ c'.conn.log := fun hmem => ha.grows.log_mem hmem
  have hsqe : .noSqe ∉ c.conn.log := fun hmem => hlog _ (hgrow hmem) rfl
  have hcrossed : .crossed ∉ c.conn.log := fun hmem => hlog _ (hgrow hmem) rfl
  have hgone : ∀ {c₁ c₂ c₃ : Cell} {b : Nat} {h : BackendConn} {ok : Bool},
      c₁.startOn b h = (c₂, false) → reportLost w c₂ = (c₃, ok) → .noSqe ∈ c₃.conn.log := by
    intro c₁ c₂ c₃ b h ok hstart hsend
    have hlost := ext_reportLost (w := w) c₂
    rw [hsend] at hlost
    exact hlost.log_mem (startOn_noSqe hstart)
  cases ha with
  | io hio => exact hc.same (outputs_io hio).asides.idles hio.side
  | feed => exact hc.same (.note _ rfl) rfl
  | startup =>
      obtain ⟨hrecv, hasked⟩ := hc.received (e := .startup) (by rintro ⟨⟩)
      exact hrecv.same (outputs_replyThen _ _ _).asides.idles (side_replyThen _ _ _)
  | ignore => exact (hc.received (e := .other) (by rintro ⟨⟩)).1
  | @terminate h hopen hquiet =>
      -- the message comes while nothing waits
      have hidle : c.conn.beWait = .idle := by
        by_contra hne
        exact hlog (.received .terminate c.conn.beWait) (List.mem_append_right _ List.mem_cons_self)
          (by simp [Obs.interrupts, hne])
      have hread : Leaving.read (c.conn.received .terminate).log =
          { Leaving.read c.conn.log with asked := true } := by
        rw [Conn.received, leaving_note]
        rfl
      have hqueue := (hquiet hidle).resolve_right (not_or.mpr ⟨hsqe, hcrossed⟩)
      refine ⟨quietly_note hc.quiet rfl, hc.matched, ?_, fun _ => ⟨hqueue, hidle⟩⟩
      change (Leaving.read (c.conn.received .terminate).log).running = true →
        _ ∨ (Leaving.read (c.conn.received .terminate).log).closed = true
      rw [hread]
      exact hc.running
  | @enqueue h e hwait he =>
      have hne : e ≠ .terminate := by
        rintro rfl
        rcases he with hwork | ⟨bind, hbind⟩
        · exact hwork rfl
        · cases hbind
      obtain ⟨hrecv, hasked⟩ := hc.received hne
      obtain ⟨hbe, hwait', -⟩ := side_queueEvent (w := w) (c.conn.received e) e
      refine hrecv.goesOn hasked ?_ ⟨hbe, hwait'⟩
      rcases queueEvent_entries (w := w) (c.conn.received e) e with ⟨it, -, hnew⟩ | ⟨l, hnew, hall, -⟩
      · exact ⟨[.pushed it], hnew, by simp [Obs.idle]⟩
      · exact ⟨l, hnew, fun o ho => idle_of_aside (hall o ho)⟩
  | answer harrive hanswer =>
      obtain ⟨hc₁, hasked⟩ := hc.arrives harrive
      exact hc₁.same (hanswer.enters (fun _ => rfl) fun _ => idle_of_aside) hanswer.side.2
  | @begin c₁ c' h h' src b harrive hready hbegun hstart =>
      obtain ⟨hc₁, hasked⟩ := hc.bindArrives harrive hsqe
      obtain ⟨-, hbe, -, hwait, -⟩ := startOn_facts c₁ b hbegun
      have hidles := (outputs_startOn c₁ b h').asides.idles
      rw [hstart] at hbe hwait hidles
      obtain ⟨hread, hquiet⟩ := hidles.leaving
      rw [leaving_note, Conn.checkingOut, leaving_note] at hread
      refine ⟨hquiet ?_, fun _ => ?_, fun _ => Or.inl ?_, fun hask => ?_⟩
      · exact quietly_note (c := c₁.conn.checkingOut) (quietly_note hc₁.quiet rfl) rfl
      · exact Or.inl ((hwait rfl).resolve_right fun h => hlog _ h.2 rfl)
      · exact fun hnone => by cases hbe.symm.trans hnone
      · rw [hread] at hask
        cases hasked.symm.trans hask
  | @park c₁ c₂ h src conn free harrive htried hqueue hfree =>
      obtain ⟨hc₁, hasked⟩ := hc.bindArrives harrive hsqe
      obtain ⟨hsame, hidle⟩ := harrive.backend
      have htries : Idles c₁.conn c₂.conn := htried.enters (fun _ => rfl) fun _ => idle_of_aside
      obtain ⟨o, hnew, it, ho⟩ := requeue_entries hqueue
      have hback : Idles c₂.conn conn := ⟨[o], hnew, by rcases ho with rfl | rfl <;> simp [Obs.idle]⟩
      have hpark : Idles conn { conn.note (.parked free) with beWait := .waitingPool } :=
        ⟨[.parked free], rfl, by simp [Obs.idle]⟩
      have hbe : conn.be = c₁.conn.be := by
        rw [requeue_conn hqueue]
        exact congrArg Prod.fst htried.backend
      refine hc₁.idles ((htries.trans hback).trans hpark) ?_ (fun hne => hbe ▸ hne)
        fun hask => by cases hasked.symm.trans hask
      intro hne
      have hmatched := hc₁.matched (hbe ▸ hne)
      rw [show c₁.conn.beWait = c.conn.beWait from congrArg (fun x => x.2.1) hsame,
        hidle.resolve_right hsqe] at hmatched
      rcases hmatched with h | h <;> cases h
  | @bind c₁ c₂ h src why r harrive htried =>
      obtain ⟨hc₁, hasked⟩ := hc.bindArrives harrive hsqe
      have htries : Idles c₁.conn c₂.conn := htried.enters (fun _ => rfl) fun _ => idle_of_aside
      have hback := htried.backend
      simp only [Conn.backend, Prod.mk.injEq] at hback
      have hanswer : Idles c₂.conn (answerBind w c₂.conn why r).1 :=
        enters_answerBind _ _ _ (fun _ => rfl) fun _ => idle_of_aside
      have hside : (answerBind w c₂.conn why r).1.side = c₂.conn.side := side_answerBind _ _ _
      simp only [Conn.side, Prod.mk.injEq] at hside
      exact hc₁.goesOn hasked (htries.trans hanswer)
        ⟨hside.1.trans hback.1, hside.2.1.trans hback.2.1⟩
  | lost harrive hready hstart hsend =>
      have hmem := hgone hstart hsend
      exact absurd rfl (hlog _ hmem)
  | lostCut harrive hready hstart hsend => exact absurd rfl (hlog _ (hgone hstart hsend))
  | draining v => exact hc.idles (.of_log rfl) hc.matched (fun hbe => hbe) fun _ => ⟨rfl, rfl⟩
  | unpark hwait =>
      have hasked : (Leaving.read c.conn.log).asked = true → False := fun hask =>
        by cases (hc.asked hask).2.symm.trans hwait
      refine hc.idles (.of_log rfl) (fun hbe => ?_) (fun hbe => hbe) fun hask => (hasked hask).elim
      have hmatched := hc.matched hbe
      rw [hwait] at hmatched
      rcases hmatched with h | h <;> cases h
  | repark hwait hqueue hupset => exact absurd hupset (not_or.mpr ⟨hsqe, hcrossed⟩)
  | handshake peer hstate =>
      have hnew : (tlsOnHandshakeDone cfg peer c.conn).1.log =
          c.conn.log ++ [.authenticated peer.id peer.ok] ∧
          (tlsOnHandshakeDone cfg peer c.conn).1.side = c.conn.side := by
        unfold tlsOnHandshakeDone
        split <;> exact ⟨rfl, rfl⟩
      exact hc.same ⟨_, hnew.1, by simp [Obs.idle]⟩ hnew.2
  | closing => exact hc.same (.of_log rfl) rfl

/-- A client whose pipeline runs has not left. -/
theorem running_asked {c : Conn} (h : c.Leaves) (hbe : c.be ≠ none) :
    (Leaving.read c.log).asked = false := by
  rw [← Bool.not_eq_true]
  intro hask
  have hmatched := h.matched hbe
  rw [(h.asked hask).2] at hmatched
  rcases hmatched with h | h <;> cases h

theorem land {op : Op} {c c' : Cell} {h h' : BackendConn} (hc : c.conn.Leaves)
    (hl : Land w op c h c' h') : c'.conn.Leaves := by
  have hbe : c.conn.be ≠ none := by cases hl <;> assumption
  have hasked := hc.running_asked hbe
  have hlanded : ∀ op, (c.conn.landed op).Leaves ∧ (c.conn.landed op).side = c.conn.side ∧
      (Leaving.read (c.conn.landed op).log).asked = false := by
    intro op
    obtain ⟨-, -, -, hlog, hside⟩ := landed_fields c.conn op
    exact ⟨hc.same (.of_log hlog) hside, hside, by rw [hlog]; exact hasked⟩
  -- a pipeline that goes on keeps its backend
  have hgoes : ∀ {d c' : Conn}, d.Leaves → (Leaving.read d.log).asked = false → d.side = c.conn.side →
      Idles d c' → c'.be = d.be → ((c'.beWait = .sending ∨ c'.beWait = .reading) ∨
        c'.beWait = d.beWait) → c'.Leaves := by
    intro d c' hd hask hside hidles hsame hwait
    have hne : d.be ≠ none := by
      rw [show d.be = c.conn.be from congrArg Prod.fst hside]
      exact hbe
    refine hd.idles hidles (fun _ => ?_) (fun _ => hsame ▸ hne) fun h => nomatch hask.symm.trans h
    exact hwait.elim (fun h => h) fun heq => heq ▸ hd.matched hne
  have hdata : ∀ (resp : RespBuf) (used : Bytes),
      Idles (c.conn.landed .beRecv) ((c.conn.landed .beRecv).gotData resp used) :=
    fun resp used => ⟨[.beData used], rfl, by simp [Obs.idle]⟩
  have hresult : ∀ {resp : RespBuf} {used : Bytes} {e ok : Bool} {c₁ : Cell} {c' : Conn},
      deliverResult w (c.upd fun conn => (conn.landed .beRecv).gotData resp used) e = (c₁, ok) →
      Idles c₁.conn c' → c'.Matched → c'.Leaves := by
    intro resp used e ok c₁ c' hsend hidles hmatched
    obtain ⟨hl, hside, hask⟩ := hlanded .beRecv
    have hgot := hl.goesOn hask (hdata resp used) ⟨rfl, rfl⟩
    have hasides := (outputs_deliverResult (w := w)
      (c.upd fun conn => (conn.landed .beRecv).gotData resp used) e).asides
    rw [hsend] at hasides
    have hask' : (Leaving.read ((c.conn.landed .beRecv).gotData resp used).log).asked = false := by
      rw [(hdata resp used).leaving.1]
      exact hask
    cases e with
    | false => exact hgot.ended hask' rfl (Or.inr (Or.inl rfl)) (hasides.idles.trans hidles) hmatched
    | true =>
        refine hgot.ended hask' (d := feqClearAll (((c.conn.landed .beRecv).gotData resp used).note
          (.completed true))) ?_ (Or.inr (Or.inr ⟨(c.conn.landed .beRecv).feQ.toList, rfl⟩))
          (hasides.idles.trans hidles) hmatched
        exact List.append_assoc ..
  have hreport : ∀ {op : Op} {resp : RespBuf} {ok : Bool} {c₁ : Cell} {c' : Conn},
      reportLost w (c.upd fun conn => { conn.landed op with beResp := resp }) = (c₁, ok) →
      Idles c₁.conn c' → c'.Matched → c'.Leaves := by
    intro op resp ok c₁ c' hsend hidles hmatched
    obtain ⟨hl, hside, hask⟩ := hlanded op
    have hresp : ({ c.conn.landed op with beResp := resp } : Conn).Leaves :=
      hl.same (.of_log rfl) rfl
    have hasides := (outputs_reportLost (w := w)
      (c.upd fun conn => { conn.landed op with beResp := resp })).asides
    rw [hsend] at hasides
    exact hresp.ended hask rfl (Or.inl rfl) (hasides.idles.trans hidles) hmatched
  have hnone : ∀ {c' : Conn}, c'.be = none → c'.Matched := fun h hne => absurd h hne
  cases hl with
  | sent n =>
      obtain ⟨hl, hside, hask⟩ := hlanded .beSend
      obtain ⟨-, hkeep, hwait, -⟩ := submitBeSend_facts (fun _ => asyncSendAdvance h n)
        (c.upd fun conn => conn.landed .beSend)
      exact hgoes hl hask hside (outputs_submitBeSend _ _).asides.idles hkeep hwait
  | resend =>
      obtain ⟨hl, hside, hask⟩ := hlanded .beSend
      obtain ⟨-, hkeep, hwait, -⟩ := submitBeSend_facts (fun _ => h)
        (c.upd fun conn => conn.landed .beSend)
      exact hgoes hl hask hside (outputs_submitBeSend _ _).asides.idles hkeep hwait
  | @more _ _ _ data resp _ hrecv =>
      obtain ⟨hl, hside, hask⟩ := hlanded .beRecv
      obtain ⟨-, hkeep, hwait, -⟩ := submitBeRecv_facts (fun _ => h')
        (c.upd fun conn => (conn.landed .beRecv).gotData resp (usedUp h h' data))
      exact hgoes hl hask hside ((hdata _ _).trans (outputs_submitBeRecv _ _).asides.idles) hkeep
        (hwait.imp_left Or.inr)
  | complete _ hrecv hsend => exact hresult hsend (.of_log rfl) (hnone rfl)
  | @completeCut _ _ _ _ data resp _ hrecv hsend =>
      obtain ⟨-, hkeep, hwait, -⟩ := deliverResult_facts (w := w)
        (c.upd fun conn => (conn.landed .beRecv).gotData resp (usedUp h h' data)) h'.pipeSt.sawError
      rw [hsend] at hkeep hwait
      refine hresult hsend (.of_log rfl) fun _ => ?_
      rw [hwait]
      exact hc.matched hbe
  | lost resp _ hsend =>
      have hnobe := (reportLost_facts (w := w) (c.upd fun conn => { conn.landed op with beResp := resp })).2.1
      rw [hsend] at hnobe
      exact hreport hsend (.of_log rfl) (hnone hnobe)
  | lostCut resp _ hsend =>
      have hnobe := (reportLost_facts (w := w) (c.upd fun conn => { conn.landed op with beResp := resp })).2.1
      rw [hsend] at hnobe
      exact hreport hsend (.of_log rfl) (hnone hnobe)

end Conn.Leaves

instance (log : List Obs) : Decidable (TerminatesQuietly log) :=
  decidable_of_iff (Runs.Along Leaving.next (fun s o => s.quiet o = true) ⟨false, false, false⟩ log)
    ⟨fun h => ⟨h⟩, fun h => h.along⟩

theorem leaves_fresh {c : Conn} (hlog : c.log = []) (hbe : c.be = none) : c.Leaves := by
  have hread : Leaving.read c.log = ⟨false, false, false⟩ := by rw [hlog]; rfl
  refine ⟨?_, fun hne => absurd hbe hne, ?_, ?_⟩
  · rw [hlog]
    exact ⟨trivial⟩
  · rw [hread]
    exact nofun
  · rw [hread]
    exact nofun

theorem leaves_stable (tls hasPool : Bool) : Conn.Stable w cfg tls hasPool
    (fun o => o.interrupts = true) (fun _ _ => True) Conn.Leaves where
  fresh := fun gen => leaves_fresh rfl rfl
  admits := by
    intro s gen fd c _ _ hadmits
    cases hadmits <;> exact leaves_fresh rfl rfl
  act := fun _ ha hlog hc => hc.act ha hlog
  land := fun _ _ hl _ hc => hc.land hl
  delivered := by
    intro r c _ _ hc
    cases r.op <;> exact hc.same (.of_log rfl) rfl
  abandon := by
    intro c _ hc
    have hread : Leaving.read (c.note .closed).log = { Leaving.read c.log with closed := true } := by
      rw [leaving_note]
      rfl
    have hquiet : (Leaving.read c.log).quiet .closed = true := by
      -- no pipeline runs on a connection that waits for nothing
      by_contra hnot
      simp only [Leaving.quiet, Bool.or_eq_true, Bool.not_eq_true', not_or, Bool.not_eq_true,
        Bool.not_eq_false] at hnot
      obtain ⟨⟨hopen, hask⟩, hrun⟩ := hnot
      rcases hc.running hrun with hbe | hclosed
      · cases (hc.running_asked hbe).symm.trans hask
      · cases hopen.symm.trans hclosed
    refine ⟨quietly_note hc.quiet hquiet, fun h => absurd rfl h, fun _ => ?_, fun hask => ?_⟩
    · right
      change (Leaving.read (c.note .closed).log).closed = true
      rw [hread]
    · change (Leaving.read (c.note .closed).log).asked = true at hask
      rw [hread] at hask
      exact hc.asked hask
  close := by
    intro c _ _ hbe hc
    have hread : Leaving.read c.close.log = Leaving.read c.log := leaving_note c (.discarded _)
    have hquiet : (Leaving.read c.log).quiet (.discarded c.feQ.toList) = true := by
      by_cases hask : (Leaving.read c.log).asked = true
      · rw [(hc.asked hask).1]
        exact Bool.or_true _
      · rw [Bool.not_eq_true] at hask
        simp [Leaving.quiet, hask]
    refine ⟨quietly_note (o := .discarded c.feQ.toList) hc.quiet hquiet, fun hne => absurd hbe hne, ?_,
      fun _ => ⟨rfl, rfl⟩⟩
    · rw [hread]
      exact hc.running

/-- As long as Terminate only comes while no work of its connection is left, and requests to backends
can be made, a client that has left loses nothing. -/
theorem terminates_quietly {nonblock : Bool} {now : Nat} {inputs : List Input}
    (hrun : Runs.Along (step w env)
      (fun s input => (step w env s input).Lacks fun o => o.interrupts = true)
      (start env cfg nonblock now) inputs) (i : Slot) :
    TerminatesQuietly ((Runs.run (step w env) (start env cfg nonblock now) inputs).conns i).log :=
  ((leaves_stable (!cfg.plain) _).run
    (hrun.mono fun s input h => ⟨delivers_any s input, h⟩) i).quiet

/-- A client that waits for the result before it leaves. -/
def politeInputs : List Input :=
  [accepts 0, receives 0 [.startup, .parse smallParse, .bind smallBind, .execute, .sync],
    .complete 0 1 (.sent 77), .complete 0 3 (.data bareResponse.bytes), receives 2 [.terminate]]

theorem terminates_quietly_polite :
    TerminatesQuietly ((smallRun politeInputs).conns ⟨0, by decide⟩).log := by
  have hrun : Runs.Along (step pgWire smallEnv)
      (fun s input => (step pgWire smallEnv s input).Lacks fun o => o.interrupts = true)
      (start smallEnv smallConfig true 0) politeInputs := by decide +kernel
  rw [smallRun, smallServer]
  exact terminates_quietly hrun ⟨0, by decide⟩

/-- A client that sends its pipeline and leaves in one chunk: the pipeline is torn down. -/
theorem not_terminates_quietly :
    ¬ TerminatesQuietly ((smallRun [accepts 0, receives 0
      [.startup, .parse smallParse, .bind smallBind, .execute, .sync, .terminate]]).conns
        ⟨0, by decide⟩).log := by
  decide +kernel

end
