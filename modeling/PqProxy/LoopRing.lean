import PqProxy.LoopOwnership

/-! The ring of the connections that wait for the pool. A slot is in the ring exactly while its connection
waits, as long as no pipeline begins while a write of an earlier one is still pending. -/

/-- An entry was missing, or a pipeline began beside a write of an earlier one. -/
def Obs.upsets : Obs → Bool
  | .noSqe | .crossed => true
  | _ => false

section

variable {w : Pqwire} {env : Env} {cfg : Config} {i : Slot} {s t : Server}

/-! ### Pipelines run on backends -/

/-- A connection that runs no pipeline holds no backend. -/
theorem Conn.Matched.be_none {c : Conn} (h : c.Matched)
    (hwait : c.beWait = .idle ∨ c.beWait = .waitingPool) : c.be = none := by
  by_contra hne
  rcases h hne with hrun | hrun
  · rw [hrun] at hwait
    simp at hwait
  · rw [hrun] at hwait
    simp at hwait

theorem Conn.Matched.of_none {c : Conn} (h : c.be = none) : c.Matched := fun hne => absurd h hne

theorem Conn.Matched.act {c c' : Conn} (h : c.Matched) (hbacks : c.Backs c') (hcrossed : .crossed ∉ c'.log) :
    c'.Matched := by
  cases hbacks with
  | same heq =>
      simp only [Conn.backend, Prod.mk.injEq] at heq
      intro hne
      rw [heq.1] at hne
      rw [heq.2.1]
      exact h hne
  | waits hwait _ hbe => exact .of_none (hbe.trans (h.be_none hwait))
  | starts _ _ hgo => exact fun _ => Or.inl (hgo.resolve_right hcrossed)

theorem Land.holds {op : Op} {c c' : Cell} {h h' : BackendConn} (hl : Land w op c h c' h') :
    c.conn.be ≠ none := by
  cases hl <;> assumption

/-- After the completion of a request to the backend the pipeline runs on, or holds no backend and does
not wait for another. -/
theorem Land.runs {op : Op} {c c' : Cell} {h h' : BackendConn} (hl : Land w op c h c' h')
    (hc : c.conn.Matched) : (c'.conn.beWait = .sending ∨ c'.conn.beWait = .reading) ∨
      c'.conn.be = none ∧ c'.conn.beWait ≠ .waitingPool := by
  have hrun := hc hl.holds
  have hwaits : ∀ op, (c.conn.landed op).beWait = c.conn.beWait := by
    intro op
    have hside := (landed_fields c.conn op).2.2.2.2
    simp only [Conn.side, Prod.mk.injEq] at hside
    exact hside.2.1
  have hlost : ∀ {op : Op} {resp : RespBuf} {ok : Bool} {c₁ : Cell},
      reportLost w (c.upd fun conn => { conn.landed op with beResp := resp }) = (c₁, ok) →
      c₁.conn.be = none ∧ c₁.conn.beWait = c.conn.beWait := by
    intro op resp ok c₁ hsend
    obtain ⟨-, hnone, hwait, -⟩ := reportLost_facts (w := w)
      (c.upd fun conn => { conn.landed op with beResp := resp })
    rw [hsend] at hnone hwait
    exact ⟨hnone, hwait.trans (hwaits op)⟩
  have hsent : ∀ f, ((submitBeSend f (c.upd fun conn => conn.landed .beSend)).1.conn.beWait = .sending ∨
      (submitBeSend f (c.upd fun conn => conn.landed .beSend)).1.conn.beWait = .reading) := by
    intro f
    obtain ⟨-, -, hwait, -⟩ := submitBeSend_facts f (c.upd fun conn => conn.landed .beSend)
    rcases hwait with hwait | hwait
    · exact hwait
    · rw [hwait]
      exact hrun
  cases hl with
  | sent n => exact Or.inl (hsent _)
  | resend => exact Or.inl (hsent _)
  | @more _ _ _ data resp _ hrecv =>
      obtain ⟨-, -, hwait, -⟩ := submitBeRecv_facts (fun _ => h')
        (c.upd fun conn => (conn.landed .beRecv).gotData resp (usedUp h h' data))
      rcases hwait with hwait | hwait
      · exact Or.inl (Or.inr hwait)
      · rw [hwait]
        exact Or.inl hrun
  | complete => exact Or.inr ⟨rfl, by rintro ⟨⟩⟩
  | @completeCut _ _ _ _ data resp _ hrecv hsend =>
      obtain ⟨-, -, hwait, -⟩ := deliverResult_facts (w := w)
        (c.upd fun conn => (conn.landed .beRecv).gotData resp (usedUp h h' data)) h'.pipeSt.sawError
      rw [hsend] at hwait
      rw [hwait]
      exact Or.inl hrun
  | lost resp _ hsend => exact Or.inr ⟨(hlost hsend).1, by rintro ⟨⟩⟩
  | lostCut resp _ hsend =>
      rw [(hlost hsend).2]
      exact Or.inl hrun

/-! ### Membership -/

/-- A slot is in the ring while its connection waits, and leaves it at the latest when the connection is
closed. -/
structure Server.Ringed (s : Server) : Prop where
  matched : ∀ i, (s.conns i).Matched
  waits : ∀ i, i ∈ s.waiters.slots → (s.conns i).beWait = .waitingPool
  listed : ∀ i, (s.conns i).beWait = .waitingPool → i ∈ s.waiters.slots ∨ .closed ∈ (s.conns i).log

namespace Server.Ringed

/-- Only connection `i` changes. -/
theorem frame (h : s.Ringed) (hframe : Frame w i s t) (hmatched : (t.conns i).Matched)
    (hwaits : i ∈ t.waiters.slots → (t.conns i).beWait = .waitingPool)
    (hlisted : (t.conns i).beWait = .waitingPool → i ∈ t.waiters.slots ∨ .closed ∈ (t.conns i).log) :
    t.Ringed := by
  refine ⟨fun j => ?_, fun j hj => ?_, fun j hj => ?_⟩
  · by_cases hji : j = i
    · rw [hji]
      exact hmatched
    · rw [hframe.others j hji]
      exact h.matched j
  · by_cases hji : j = i
    · rw [hji] at hj ⊢
      exact hwaits hj
    · rw [hframe.others j hji]
      exact h.waits j ((hframe.waiters j hji).mp hj)
  · by_cases hji : j = i
    · rw [hji] at hj ⊢
      exact hlisted hj
    · rw [hframe.others j hji] at hj ⊢
      exact (h.listed j hj).imp_left (hframe.waiters j hji).mpr

/-- A turn that leaves the ring and the backend side alone. -/
theorem still (h : s.Ringed) (hframe : Frame w i s t) (hring : t.waiters = s.waiters)
    (hbe : (t.conns i).be = (s.conns i).be) (hwait : (t.conns i).beWait = (s.conns i).beWait)
    (hlog : .closed ∈ (s.conns i).log → .closed ∈ (t.conns i).log) : t.Ringed := by
  refine h.frame hframe ?_ (fun hin => ?_) fun hw => ?_
  · intro hne
    rw [hwait]
    exact h.matched i (hbe ▸ hne)
  · rw [hwait]
    exact h.waits i (hring ▸ hin)
  · rw [hring]
    exact (h.listed i (hwait ▸ hw)).imp_right hlog

theorem act (h : s.Ringed) (hturn : ActTurn w i s t) (hlog : ∀ o ∈ (t.conns i).log, ¬ o.upsets = true) :
    t.Ringed := by
  have hbacks : (s.conns i).Backs (t.conns i) := hturn.act.backs fun hmem => hlog _ hmem rfl
  refine h.frame hturn.toFrame ((h.matched i).act hbacks fun hmem => hlog _ hmem rfl)
    (hturn.ringed (h.waits i)) fun hwait => ?_
  by_cases hbefore : (s.conns i).beWait = .waitingPool
  · rcases h.listed i hbefore with hin | hclosed
    · refine Or.inl ?_
      rcases hturn.queue with hq | ⟨-, hnot⟩ | hq
      · rw [hq]
        exact hin
      · exact absurd hwait hnot
      · rw [hq]
        exact List.mem_append_left _ hin
    · exact Or.inr (hturn.act.grows.log_mem hclosed)
  · exact Or.inl (hturn.ring hbefore hwait)

theorem abandon (h : s.Ringed) (habandon : Abandoned w i s t) : t.Ringed := by
  have hbe : (t.conns i).be = none := by rw [habandon.conn]
  refine h.frame habandon.toFrame (.of_none hbe) (fun hin => absurd hin habandon.ring) fun _ => Or.inr ?_
  rw [habandon.conn]
  exact List.mem_append_right _ List.mem_cons_self

theorem close (h : s.Ringed) (hclose : Closed w i s t) : t.Ringed := by
  have hbe : (t.conns i).be = none := by
    rw [hclose.conn]
    exact hclose.be
  have hidle : (t.conns i).beWait = .idle := by
    rw [hclose.conn]
    rfl
  refine h.frame hclose.toFrame (.of_none hbe) (fun hin => ?_) fun hwait => by cases hidle.symm.trans hwait
  exact absurd (hclose.waiters_eq ▸ hin) hclose.ring

theorem land (h : s.Ringed) {op : Op} (hland : LandTurn w op i s t) : t.Ringed := by
  have hruns := hland.land.runs (h.matched i)
  have hbe : (s.conns i).be ≠ none := hland.land.holds
  have hout : i ∉ s.waiters.slots := fun hin => hbe ((h.matched i).be_none (Or.inr (h.waits i hin)))
  have hnot : (t.conns i).beWait ≠ .waitingPool := by
    rcases hruns with (hrun | hrun) | ⟨-, hnot⟩
    · intro hwait
      cases hrun.symm.trans hwait
    · intro hwait
      cases hrun.symm.trans hwait
    · exact hnot
  refine h.frame hland.toFrame ?_ (fun hin => ?_) fun hwait => absurd hwait hnot
  · rcases hruns with hrun | ⟨hnone, -⟩
    · exact fun _ => hrun
    · exact .of_none hnone
  · exact absurd (hland.waiters_eq ▸ hin) hout

/-- A flag of the frontend is cleared. -/
theorem flag (w : Pqwire) (h : s.Ringed) (hown : Owned s) {f : Conn → Conn} (hbe : (f (s.conns i)).be = (s.conns i).be)
    (hwait : (f (s.conns i)).beWait = (s.conns i).beWait) (hlog : (f (s.conns i)).log = (s.conns i).log) :
    (s.updConn i f).Ringed := by
  have hconn : (s.updConn i f).conns i = f (s.conns i) := conns_updConn ..
  rw [← hconn] at hbe hwait hlog
  have hlocal : Local w i s (s.updConn i f) := (Beside.updConn s f).local hown hbe
  exact h.still hlocal.toFrame rfl hbe hwait fun hmem => hlog ▸ hmem

theorem accept (h : s.Ringed) (hs : s.Sound) (haccept : Accepted w i s t) : t.Ringed := by
  have hidle : (s.conns i).beWait = .idle := (hs.tidy i fun hopen => hopen.1 haccept.free).1
  obtain ⟨fd, hadmits⟩ := haccept.conn
  have hbe := hadmits.be
  have hfresh : (t.conns i).beWait = .idle := by
    generalize t.conns i = c at hadmits
    cases hadmits <;> rfl
  refine h.frame haccept.toFrame (.of_none hbe) (fun hin => ?_) fun hwait => by cases hfresh.symm.trans hwait
  cases hidle.symm.trans (h.waits i (haccept.waiters_eq ▸ hin))

theorem begins (h : s.Ringed) (hs : s.Sound) {r : Request} (hbegins : Begins w r s t) : t.Ringed := by
  cases hbegins with
  | skip => exact h
  | accept hop haccept => exact h.accept hs haccept
  | recv => exact h.flag w hs.toOwned (f := fun c => { c with recvPending := false }) rfl rfl rfl
  | send n =>
      have hflag := h.flag w (i := r.slot) hs.toOwned (f := fun c => { c with sendPending := false })
        rfl rfl rfl
      have hlocal := (Beside.updConn (i := r.slot) s fun c => { c with sendPending := false }).local (w := w)
        hs.toOwned (by rw [conns_updConn])
      have hown := hs.toOwned.frame hlocal.toFrame
      generalize s.updConn r.slot (fun c => { c with sendPending := false }) = u at hflag hown
      have hio := (advanceSend_io n (u.cell r.slot)).1
      have hconn := conns_onCell u r.slot fun c => (advanceSend n c, true)
      have hbe : ((u.onCell r.slot fun c => (advanceSend n c, true)).1.conns r.slot).be =
          (u.conns r.slot).be := by
        rw [hconn, hio.conn]
        rfl
      refine hflag.still ((Beside.onCell u _).local (w := w) hown hbe).toFrame rfl hbe ?_ fun hmem => ?_
      · rw [hconn, hio.conn]
        rfl
      · rw [hconn]
        exact (ext_io (w := w) hio).log_mem hmem
  | sendCut _ _ habandon =>
      exact (h.flag w hs.toOwned (f := fun c => { c with sendPending := false }) rfl rfl rfl).abandon habandon
  | poll => exact h.flag w hs.toOwned (f := fun c => { c with pollPending := false }) rfl rfl rfl
  | land _ hland => exact h.land hland
  | landCut _ hland _ habandon => exact (h.land hland).abandon habandon

end Server.Ringed

theorem ringed_stable : Server.Stable w (fun o => o.upsets = true) (fun _ _ => True) Server.Ringed where
  maintained := by
    intro s t _ hmaint h
    refine ⟨fun i => ?_, fun i => ?_, fun i => ?_⟩
    · rw [hmaint.conns]
      exact h.matched i
    · rw [hmaint.conns, hmaint.waiters]
      exact h.waits i
    · rw [hmaint.conns, hmaint.waiters]
      exact h.listed i
  begins := by
    intro s r k t hs _ _ hbegins _ h
    have herase : ({ s with inflight := s.inflight.eraseIdx k } : Server).Good none :=
      hs.good.erase fun x hx => List.mem_of_mem_eraseIdx hx
    exact Server.Ringed.begins (s := { s with inflight := s.inflight.eraseIdx k })
      ⟨h.matched, h.waits, h.listed⟩ herase.toSound hbegins
  change := by
    intro i s t _ hchange hlog h
    cases hchange with
    | act hturn => exact h.act hturn (hlog i)
    | abandon _ habandon => exact h.abandon habandon
    | close _ hclose => exact h.close hclose
  submitted := by
    intro s t hsubmit h
    have hrest := hsubmit.rest
    simp only [Prod.mk.injEq] at hrest
    obtain ⟨-, -, -, -, -, hconns, hring, -⟩ := hrest
    refine ⟨fun i => ?_, fun i => ?_, fun i => ?_⟩
    · rw [hconns]
      exact h.matched i
    · rw [hconns, hring]
      exact h.waits i
    · rw [hconns, hring]
      exact h.listed i

/-- The ring between two iterations. -/
structure Server.RingSound (s : Server) : Prop where
  tail_eq : s.waiters.ring.tail = (s.waiters.ring.head + s.waiters.ring.count) % maxConns
  nodup : s.waiters.slots.Nodup
  mem_iff : ∀ i, i ∈ s.waiters.slots ↔ (s.conns i).state ≠ .free ∧ (s.conns i).beWait = .waitingPool
  /-- There is room for every slot. -/
  room : ∀ i, ∃ q, s.waiters.push i = some q
  removed : ∀ i, (s.waiters.remove i).slots = s.waiters.slots.filter (· ≠ i)

/-- In every run in which an entry is left for every request and no pipeline begins beside a write of an
earlier one, the ring holds the slots of the connections that wait, each once. -/
theorem ring_sound {nonblock : Bool} {now : Nat} {inputs : List Input}
    (hrun : Runs.Along (step w env) (fun s input => (step w env s input).Lacks fun o => o.upsets = true)
      (start env cfg nonblock now) inputs) :
    (Runs.run (step w env) (start env cfg nonblock now) inputs).RingSound := by
  have hready : (Runs.run (step w env) (start env cfg nonblock now) inputs).Ready :=
    run_ready env cfg nonblock now inputs
  have hall := hrun.mono fun s input h => (⟨delivers_any s input, h⟩ :
    Delivers (fun _ _ => True) s input ∧ (step w env s input).Lacks fun o => o.upsets = true)
  have hstart : (start env cfg nonblock now).Ringed :=
    ⟨fun _ => .of_none rfl, fun _ hin => (by cases hin), fun _ hwait => (by cases hwait)⟩
  have hringed := ringed_stable.run hstart hall
  generalize Runs.run (step w env) (start env cfg nonblock now) inputs = s at hready hringed
  refine ⟨s.waiters.ring.tail_eq, s.waiters.nodup, fun i => ⟨fun hin => ?_, ?_⟩,
    s.waiters.push_exists, s.waiters.slots_remove⟩
  · have hwait := hringed.waits i hin
    refine ⟨fun hfree => ?_, hwait⟩
    cases (hready.good.tidy i fun hopen => hopen.1 hfree).1.symm.trans hwait
  · rintro ⟨hlive, hwait⟩
    exact (hringed.listed i hwait).resolve_right fun hclosed =>
      hlive (hready.finished i (by rintro ⟨⟩) hclosed)

/-- Two clients share the only backend; the second one waits for it. -/
theorem ring_sound_busy :
    (smallRun [accepts 0, accepts 1, receives 0 [.startup, .parse smallParse, .bind smallBind],
      receives 0 [.startup, .parse smallParse, .bind smallBind]]).RingSound ∧
    ⟨1, by decide⟩ ∈ (smallRun [accepts 0, accepts 1,
      receives 0 [.startup, .parse smallParse, .bind smallBind],
      receives 0 [.startup, .parse smallParse, .bind smallBind]]).waiters.slots :=
  ⟨ring_sound (by decide +kernel), by decide +kernel⟩

/-- A client leaves while a backend answers it, and another takes its slot. The late end of the answer makes
the new connection give up its own backend beside a pending write; its next Bind begins beside that write,
and the one behind waits until the write is done, which leaves the slot in the ring. -/
def crossedInputs : List Input :=
  [accepts 0, receives 0 [.startup, .parse smallParse, .bind smallBind], .complete 0 1 (.sent 77),
    .complete 0 2 .eof, accepts 0, receives 2 [.startup, .parse smallParse, .bind smallBind],
    .complete 0 1 (.failed false), receives 4 [.bind smallBind, .bind smallBind],
    .complete 0 2 (.sent 77)]

theorem not_ring_sound :
    Runs.Along (step pgWire smallEnv) (fun s input => (step pgWire smallEnv s input).Lacks (· = .noSqe))
      (start smallEnv smallConfig true 0) crossedInputs ∧ ¬ (smallRun crossedInputs).RingSound := by
  refine ⟨by decide +kernel, fun hsound => ?_⟩
  have hin : (⟨0, by decide⟩ : Slot) ∈ (smallRun crossedInputs).waiters.slots := by decide +kernel
  have hwait : ((smallRun crossedInputs).conns ⟨0, by decide⟩).beWait = .reading := by decide +kernel
  cases hwait.symm.trans ((hsound.mem_iff _).mp hin).2

end
