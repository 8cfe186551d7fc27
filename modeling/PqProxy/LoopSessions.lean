import PqProxy.LoopRing
import PqProxy.LoopCalm

/-! The sessions that writes to backends reach. A prepared write names a descriptor; what the descriptor
belongs to when the write is submitted is what it reaches. -/

/-- Every write to a backend reached the session it was prepared for. -/
def Server.KeepsSessions (s : Server) : Prop := ∀ d ∈ s.sends, d.session = d.request.session

instance (s : Server) : Decidable s.KeepsSessions :=
  inferInstanceAs (Decidable (∀ d ∈ s.sends, d.session = d.request.session))

/-- No connection is closed in the iteration that prepares a write to its backend. -/
def KeepsWriters (w : Pqwire) (env : Env) (s : Server) (input : Input) : Prop :=
  ∀ r ∈ (dispatch w env s input).sq, r.op = .beSend →
    ((dispatch w env s input).conns r.slot).state ≠ .free

instance (w : Pqwire) (env : Env) (s : Server) (input : Input) :
    Decidable (KeepsWriters w env s input) :=
  inferInstanceAs (Decidable (∀ r ∈ (dispatch w env s input).sq, r.op = .beSend →
    ((dispatch w env s input).conns r.slot).state ≠ .free))

section

variable {w : Pqwire} {env : Env} {cfg : Config} {hasPool : Bool} {i : Slot} {s t u : Server}

/-! ### Prepared writes -/

/-- The connection writes to the session on backend `h` that `r` was prepared for. -/
structure Conn.Aims (c : Conn) (h : BackendConn) (r : Request) : Prop where
  be : c.be ≠ none
  sending : c.beWait = .sending
  fd : r.fd = h.fd
  session : r.session = h.session

theorem Widens.no_write {c c' : Cell} (h : Widens w c c') {r : Request} (hr : r ∈ c'.sq)
    (hop : r.op = .beSend) : r ∈ c.sq := by
  obtain ⟨new, hnew, -, hsend, -⟩ := h.sq
  rw [h.pending.1] at hsend
  rw [hnew] at hr
  refine (List.mem_append.mp hr).resolve_right fun hmem => ?_
  have hpos : 0 < opCount .beSend new := List.countP_pos_iff.mpr ⟨r, hmem, by simp [hop]⟩
  omega

theorem submitBeRecv_no_write (h : BackendConn) (c : Cell) {r : Request}
    (hr : r ∈ (submitBeRecv (fun _ => h) c).1.sq) (hop : r.op = .beSend) : r ∈ c.sq := by
  unfold submitBeRecv at hr
  split at hr
  · exact hr
  · split at hr
    · exact hr
    · rcases prep_cases c { c.request .beRecv with fd := h.fd, session := h.session }
        (fun conn => { conn with beRecvPending := true, beWait := .reading }) with heq | heq
      · rw [heq] at hr
        rcases List.mem_append.mp hr with hr | hr
        · exact hr
        · rw [List.mem_singleton.mp hr] at hop
          cases hop
      · rw [heq] at hr
        exact hr

/-- A write is prepared for the session that the backend of the connection has. -/
theorem submitBeSend_aims (h : BackendConn) (c : Cell) {r : Request}
    (hr : r ∈ (submitBeSend (fun _ => h) c).1.sq) (hop : r.op = .beSend) :
    r ∈ c.sq ∨ (submitBeSend (fun _ => h) c).1.conn.Aims h r := by
  unfold submitBeSend at hr ⊢
  cases hbe : c.conn.be with
  | none =>
      rw [hbe] at hr
      exact Or.inl hr
  | some b =>
      rw [hbe] at hr
      dsimp only at hr ⊢
      split at hr
      · exact Or.inl hr
      · rename_i hpending
        rw [if_neg hpending]
        cases hptr : asyncSendPtr h with
        | none =>
            rw [hptr] at hr
            have hmem := submitBeRecv_no_write h _ hr hop
            exact Or.inl hmem
        | some part =>
            obtain ⟨off, len⟩ := part
            rw [hptr] at hr
            dsimp only at hr ⊢
            rcases prep_cases c
              { c.request .beSend with
                fd := h.fd, backend := some b, off := off, len := len, session := h.session }
              (fun conn => { conn with beSendPending := true, beWait := .sending }) with heq | heq
            · rw [heq] at hr ⊢
              rcases List.mem_append.mp hr with hr | hr
              · exact Or.inl hr
              · rw [List.mem_singleton.mp hr]
                exact Or.inr ⟨by simp [hbe], rfl, rfl, rfl⟩
            · rw [heq] at hr
              exact Or.inl hr

/-- A turn prepares a write for the backend that it leaves the connection with. -/
theorem Act.aims {c c' : Cell} {h h' : BackendConn} (ha : Act w cfg hasPool c h c' h')
    (hsqe : .noSqe ∉ c'.conn.log) {r : Request} (hr : r ∈ c'.sq) (hop : r.op = .beSend) :
    r ∈ c.sq ∨ c'.conn.Aims h' r := by
  rcases ha.widens with ⟨hwidens, -⟩ | ⟨src, b, h₁, c₁, c₂, ok, harrive, hstart, hbegun, hwidens⟩
  · exact Or.inl (hwidens.no_write hr hop)
  · have hbefore : c₁.sq = c.sq := by rw [(harrive.adds (w := w)).2]
    cases ok with
    | false => exact absurd (hwidens.toGrows.log_mem (startOn_noSqe hstart)) hsqe
    | true =>
        obtain ⟨rfl, rfl⟩ := hbegun rfl
        have haims := submitBeSend_aims h' (c₁.upd fun conn => (conn.checkingOut.begin b).clearGot)
          (r := r)
        rw [show submitBeSend (fun _ => h') _ = (c', true) from hstart] at haims
        exact (haims hr hop).imp_left fun hmem => hbefore ▸ hmem

/-- A connection that writes goes on with the backend it has. -/
theorem Act.still {c c' : Cell} {h h' : BackendConn} (ha : Act w cfg hasPool c h c' h')
    (hsqe : .noSqe ∉ c'.conn.log) (hwait : c.conn.beWait = .sending) :
    c'.conn.be = c.conn.be ∧ c'.conn.beWait = .sending ∧ h' = h := by
  have hbefore : .noSqe ∉ c.conn.log := fun hmem => hsqe (ha.grows.log_mem hmem)
  have hheld : h' = h := by
    rcases ha.widens with ⟨-, hheld⟩ | ⟨src, b, h₁, c₁, c₂, ok, harrive, -⟩
    · exact hheld
    · have hidle := harrive.backend.2.resolve_right hbefore
      cases hwait.symm.trans hidle
  cases ha.backs hsqe with
  | same heq =>
      simp only [Conn.backend, Prod.mk.injEq] at heq
      exact ⟨heq.1, heq.2.1.trans hwait, hheld⟩
  | waits hidle => exact absurd (hwait ▸ hidle) (by simp)
  | starts hidle => cases hwait.symm.trans hidle

/-- The completion of a request prepares a write for the backend that the connection still has. -/
theorem Land.aims {op : Op} {c c' : Cell} {h h' : BackendConn} (hl : Land w op c h c' h') {r : Request}
    (hr : r ∈ c'.sq) (hop : r.op = .beSend) : r ∈ c.sq ∨ c'.conn.Aims h' r := by
  obtain ⟨c₁, hwidens, rfl | rfl | rfl⟩ := hl.widens
  · exact Or.inl (hwidens.no_write hr hop)
  · exact (submitBeSend_aims h' c₁ hr hop).imp_left fun hmem => hwidens.no_write hmem hop
  · exact Or.inl (hwidens.no_write (submitBeRecv_no_write h' c₁ hr hop) hop)

/-- The prepared writes are of connections that go on with them, or that are being closed. -/
def Server.Aimed (s : Server) : Prop :=
  ∀ r ∈ s.sq, r.op = .beSend →
    (s.conns r.slot).Aims (s.held r.slot) r ∨ .closed ∈ (s.conns r.slot).log

namespace Server.Aimed

theorem of_none (h : ∀ r ∈ s.sq, r.op ≠ .beSend) : s.Aimed := fun r hr hop => absurd hop (h r hr)

theorem of_nil (h : s.sq = []) : s.Aimed := of_none fun r hr => by
  rw [h] at hr
  cases hr

/-- The writes of the other connections are not touched. -/
theorem frame (h : s.Aimed) (hown : Owned s) (hframe : Frame w i s t)
    (hsq : ∀ r ∈ t.sq, r.op = .beSend → r.slot ≠ i → r ∈ s.sq)
    (hat : ∀ r ∈ t.sq, r.op = .beSend → r.slot = i →
      (t.conns i).Aims (t.held i) r ∨ .closed ∈ (t.conns i).log) : t.Aimed := by
  intro r hr hop
  by_cases hi : r.slot = i
  · rw [hi]
    exact hat r hr hop hi
  · rw [hframe.others r.slot hi, hframe.held_other hown hi]
    exact h r (hsq r hr hop hi) hop

theorem act (h : s.Aimed) (hown : Owned s) (hturn : ActTurn w i s t) (hsqe : .noSqe ∉ (t.conns i).log) :
    t.Aimed := by
  have hgrows : Grows w (s.cell i) (t.cell i) := hturn.act.grows
  refine h.frame hown hturn.toFrame (fun r hr _ hne => ?_) fun r hr hop hi => ?_
  · obtain ⟨new, hnew, hmine, -⟩ := hgrows.sq
    rw [show t.sq = s.sq ++ new from hnew] at hr
    exact (List.mem_append.mp hr).resolve_right fun hmem => hne (hmine r hmem).slot
  · rcases hturn.act.aims hsqe hr hop with hmem | haims
    · rcases h r hmem hop with haims | hclosed
      · rw [hi] at haims
        obtain ⟨hbe, hwait, hheld⟩ := hturn.act.still hsqe haims.sending
        refine Or.inl ⟨?_, hwait, ?_, ?_⟩
        · rw [show (t.conns i).be = (s.conns i).be from hbe]
          exact haims.be
        · rw [hheld]
          exact haims.fd
        · rw [hheld]
          exact haims.session
      · rw [hi] at hclosed
        exact Or.inr (hgrows.log_mem hclosed)
    · exact Or.inl haims

theorem abandon (h : s.Aimed) (hown : Owned s) (habandon : Abandoned w i s t) : t.Aimed := by
  refine h.frame hown habandon.toFrame (fun r hr _ _ => habandon.sq ▸ hr) fun _ _ _ _ => Or.inr ?_
  rw [habandon.conn]
  exact List.mem_append_right _ List.mem_cons_self

theorem change (h : s.Aimed) (hown : Owned s) (hchange : Change w i s t)
    (hsqe : .noSqe ∉ (t.conns i).log) : t.Aimed := by
  cases hchange with
  | act hturn => exact h.act hown hturn hsqe
  | abandon _ habandon => exact h.abandon hown habandon
  | close _ hclose =>
      refine h.frame hown hclose.toFrame (fun r hr _ _ => hclose.sq ▸ hr) fun _ _ _ _ => Or.inr ?_
      rw [hclose.conn]
      exact List.mem_append_left _ hclose.closed

theorem changes (h : s.Aimed) (hs : s.Sound) (hchanges : Changes w s t)
    (hsqe : t.Lacks (· = .noSqe)) : t.Aimed := by
  induction hchanges with
  | refl => exact h
  | tail hpath hchange ih =>
      obtain ⟨i, hchange⟩ := hchange
      have hback := hsqe.back (.single ⟨i, hchange⟩)
      exact (ih hback).change (Changes.sound hpath hs).toOwned hchange fun hmem => hsqe i _ hmem rfl

/-- The first part of a dispatch, before which nothing is prepared. -/
theorem begins (hs : s.Sound) (hsq : s.sq = []) {r : Request} (hbegins : Begins w r s t) : t.Aimed := by
  have hnone : ∀ x, x ∉ s.sq := fun x hx => by
    rw [hsq] at hx
    cases hx
  have hland : ∀ {m}, LandTurn w r.op r.slot s m → m.Aimed := by
    intro m hland
    obtain ⟨new, hnew, hmine, -⟩ := hland.land.grows.sq
    refine (of_nil hsq).frame hs.toOwned hland.toFrame (fun x hx _ hne => ?_) fun x hx hop _ => ?_
    · rw [show m.sq = s.sq ++ new from hnew] at hx
      exact (List.mem_append.mp hx).resolve_right fun hmem => hne (hmine x hmem).slot
    · exact Or.inl ((hland.land.aims hx hop).resolve_left (hnone x))
  cases hbegins with
  | skip => exact of_nil hsq
  | accept _ haccept => exact of_nil (haccept.sq.trans hsq)
  | recv | poll => exact of_nil hsq
  | send n =>
      refine of_none fun x hx hop => ?_
      have hio := (advanceSend_io n ((s.updConn r.slot fun c => { c with sendPending := false }).cell
        r.slot)).1
      exact hnone x ((ext_io (w := w) hio).no_write hx hop)
  | sendCut _ _ habandon => exact of_nil (habandon.sq.trans hsq)
  | land _ hturn => exact hland hturn
  | landCut _ hturn _ habandon => exact (hland hturn).abandon (hs.toOwned.frame hturn.toFrame) habandon

end Server.Aimed

/-! ### Submission -/

/-- The descriptor of a backend that is held belongs to the session of this backend. -/
theorem sessionOf_held (hs : s.Sound) {b : Nat} (hbe : (s.conns i).be = some b) :
    s.sessionOf (s.backends b).fd = some (s.backends b).session := by
  obtain ⟨p, hp, hback⟩ := hs.toOwned.pool hbe
  have hwf := hs.wf p hp
  have halive : (p.conns b).alive = true := by
    have hheld := hs.toOwned.held i b hbe
    rw [hback] at hheld
    exact hheld.2
  have hopened := hwf.opened b halive
  rw [hback, Server.sessionOf, hp, Option.bind_some]
  cases hfind : (List.range p.maxConns).find? fun a =>
      (p.conns b).fd.isSome && (p.conns a).fd == (p.conns b).fd with
  | none =>
      have hnot := List.find?_eq_none.mp hfind b (List.mem_range.mpr (hwf.lt_of_alive halive))
      simp [Option.isSome_iff_ne_none.mpr hopened] at hnot
  | some a =>
      have hfound := List.find?_some hfind
      simp only [Bool.and_eq_true, beq_iff_eq] at hfound
      have hsame : a = b := hwf.distinct a b hfound.2 (hfound.2 ▸ hopened)
      rw [hsame, Option.map_some]

/-- What is submitted while its connection goes on with it reaches the session it was prepared for. -/
theorem Conn.Aims.delivered (hs : s.Sound) {r : Request} (haims : (s.conns r.slot).Aims (s.held r.slot) r)
    {d : Delivery} (hd : s.deliver r = some d) : d.session = d.request.session := by
  obtain ⟨b, hbe⟩ := Option.ne_none_iff_exists'.mp haims.be
  have hheld : s.held r.slot = s.backends b := by rw [Server.held, hbe]
  have hsession := sessionOf_held hs hbe
  rw [← hheld, ← haims.fd, ← haims.session] at hsession
  unfold Server.deliver at hd
  split at hd
  · rw [hsession, Option.bind_some, Option.map_eq_some_iff] at hd
    obtain ⟨a, -, rfl⟩ := hd
    rfl
  · cases hd

theorem Changes.sends (h : Changes w s t) : t.sends = s.sends := by
  induction h with
  | refl => rfl
  | tail _ hchange ih =>
      obtain ⟨i, hchange⟩ := hchange
      exact hchange.frame.sends.trans ih

/-- An iteration that closes no connection whose write it prepared. -/
theorem step_keepsSessions (hs : s.Ready) (h : s.KeepsSessions) {input : Input}
    (hsqe : (step w env s input).Lacks (· = .noSqe)) (hkeep : KeepsWriters w env s input) :
    (step w env s input).KeepsSessions := by
  cases input with
  | timeout now =>
      obtain ⟨hmaint, -⟩ := maintained_serverTick w env hs.good now
      have hsame : (serverTick env s now).sends = s.sends := (hmaint.frame ⟨0, by decide⟩).sends
      intro d hd
      rw [show (step w env s (.timeout now)).sends = s.sends from hsame] at hd
      exact h d hd
  | complete now k cqe =>
      cases hr : s.inflight[k]? with
      | none =>
          intro d hd
          have heq : step w env s (.complete now k cqe) = submitAll s := by
            simp only [step, dispatch, hr]
          rw [heq, (submitted_all s).sends, hs.sq] at hd
          exact h d (List.mem_append.mp hd |>.resolve_right List.not_mem_nil)
      | some r =>
          obtain ⟨m, a, u, hmaint, hgood, hbegins, hchanges, heq⟩ := dispatch_changes w env hs now hr cqe
          have hready : (step w env s (.complete now k cqe)).Ready := step_ready env hs _
          have hstep : step w env s (.complete now k cqe) =
              submitAll (if r.op = .accept then submitAccept u else u) := congrArg submitAll heq
          have hsubmit : Submitted u (step w env s (.complete now k cqe)) := by
            rw [hstep]
            split
            · exact submitted_accept u
            · exact submitted_all u
          have hrest := hsubmit.rest
          simp only [Prod.mk.injEq] at hrest
          obtain ⟨-, -, -, -, -, hconns, -⟩ := hrest
          have hlive : ∀ x ∈ u.sq, x.op = .beSend → (u.conns x.slot).state ≠ .free := by
            rw [KeepsWriters, heq] at hkeep
            split at hkeep
            · rcases submitAccept_cases u with hcase | hcase
              · rw [hcase] at hkeep
                exact fun x hx => hkeep x (List.mem_append_left _ hx)
              · rw [hcase] at hkeep
                exact hkeep
            · exact hkeep
          have haimed : u.Aimed := by
            refine (Server.Aimed.begins hgood.toSound (hmaint.sq.trans hs.sq) hbegins).changes
              (hbegins.sound hgood.toSound) hchanges fun j o ho => ?_
            rw [← hconns] at ho
            exact hsqe j o ho
          have hsound : u.Sound := hchanges.sound (hbegins.sound hgood.toSound)
          have hsends : u.sends = s.sends := by
            obtain ⟨j, hframe, -⟩ := hbegins.frame hgood.toOwned
            exact hchanges.sends.trans (hframe.sends.trans (hmaint.frame r.slot).sends)
          intro d hd
          rw [hsubmit.sends, hsends] at hd
          rcases List.mem_append.mp hd with hd | hd
          · exact h d hd
          · obtain ⟨x, hx, hdeliver⟩ := List.mem_filterMap.mp hd
            have hop : x.op = .beSend := by
              by_contra hne
              rw [Server.deliver, if_neg hne] at hdeliver
              cases hdeliver
            rcases haimed x hx hop with haims | hclosed
            · exact haims.delivered hsound hdeliver
            · rw [← hconns] at hclosed
              have hfree := hready.finished x.slot (Option.some_ne_none _) hclosed
              rw [hconns] at hfree
              exact absurd hfree (hlive x hx hop)

/-- In every run in which no connection is closed in the iteration that prepares a write to its backend,
every such write reaches the session it was prepared for. -/
theorem sessions_kept (cfg : Config) (nonblock : Bool) (now : Nat) {inputs : List Input}
    (hrun : Runs.Along (step w env) (KeepsWriters w env) (start env cfg nonblock now) inputs) :
    (Runs.run (step w env) (start env cfg nonblock now) inputs).KeepsSessions := by
  have hinv : ∀ s input, s.Ready ∧ s.Attends (!cfg.plain) ∧ s.KeepsSessions → KeepsWriters w env s input →
      (step w env s input).Ready ∧ (step w env s input).Attends (!cfg.plain) ∧
        (step w env s input).KeepsSessions := by
    intro s input hs hkeep
    have hattends := step_attends (w := w) env hs.1 hs.2.1 input
    refine ⟨step_ready env hs.1 input, hattends, step_keepsSessions hs.1 hs.2.2 (fun j o ho heq => ?_) hkeep⟩
    exact hattends.calm j o ho (by rw [heq])
  have hstart : (start env cfg nonblock now).KeepsSessions := fun _ hd => by
    rw [start, (submitted_accept _).sends] at hd
    cases hd
  exact (Runs.Along.invariant hinv
    ⟨start_ready env cfg nonblock now, start_attends cfg nonblock now, hstart⟩ hrun).2.2

/-- Two pipelines of a client, one after the other, on the only backend. -/
def twiceInputs : List Input :=
  [accepts 0, receives 0 [.startup, .parse smallParse, .bind smallBind], .complete 0 1 (.sent 77),
    .complete 0 3 (.data [90, 0, 0, 0, 5, 73]), receives 2 [.execute, .sync, .bind smallBind]]

theorem sessions_kept_paced : (smallRun twiceInputs).KeepsSessions ∧
    (smallRun twiceInputs).sends.map (fun d => (d.session, d.data.length)) = [(1, 77), (1, 77)] := by
  have hrun : Runs.Along (step pgWire smallEnv) (KeepsWriters pgWire smallEnv) smallServer twiceInputs := by
    decide +kernel
  have hsends : (smallRun twiceInputs).sends.map (fun d => (d.session, d.data.length)) = [(1, 77), (1, 77)] := by
    decide +kernel
  rw [smallRun, smallServer] at hsends ⊢
  rw [smallServer] at hrun
  exact ⟨sessions_kept smallConfig true 0 hrun, hsends⟩

/-- The only backend always gets the descriptor that it had before. -/
def reusingEnv : Env := { smallEnv with socket := fun _ => some 5 }

/-- A client leaves in the chunk that starts its pipeline. The backend is connected anew before the write
is submitted, and the new session gets the pipeline of the client that left. -/
def leavingInputs : List Input :=
  [accepts 0, receives 0 [.startup, .parse smallParse, .bind smallBind, .terminate]]

theorem not_sessions_kept :
    ¬ (Runs.run (step pgWire reusingEnv) (start reusingEnv smallConfig true 0)
      leavingInputs).KeepsSessions := by
  decide +kernel

end
