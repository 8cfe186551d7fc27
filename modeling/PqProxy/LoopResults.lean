import PqProxy.LoopCalm
import PqProxy.LoopPark
import PqProxy.LoopRequests

/-! How pipelines end. Whatever a client is told at the end of a pipeline follows from the messages that
its backend sent since it began: a successful one is acknowledged, and after an error the response is
passed on and the queue is emptied. What was acknowledged in another way was run in blocking mode, or
could not be run. An Execute is not told from one of a pipeline that failed, and neither is a Sync. -/

/-- The bytes that came for the pipeline that runs. -/
def Obs.serves (data : Option Bytes) : Obs → Option Bytes
  | .began => some []
  | .beData more => data.map (· ++ more)
  | .completed _ | .lost | .discarded _ => none
  | _ => data

def serving (log : List Obs) : Option Bytes := log.foldl Obs.serves none

/-- What a pipeline with these bytes brings about, and what is said behind its end. -/
inductive Outcome (w : Pqwire) (ms : List Bytes) : Bool → List Obs → Prop where
  | success {rest : List Obs} (hnone : ∀ m ∈ ms, Framing.typeOf m ≠ some msgErrorResponse) :
      Outcome w ms false (.replied .bindComplete :: rest)
  | error {rest : List Obs} (its : List FeqItem) (pending : Bytes)
      (herror : ∃ m ∈ ms, Framing.typeOf m = some msgErrorResponse) :
      Outcome w ms true (.discarded its :: .handed pending (keptBytes w true ms) :: rest)

/-- Every pipeline that ended was answered by its backend up to ReadyForQuery, as long as no bytes were
refused. -/
def Answered (w : Pqwire) (log conversation : List Obs) : Prop :=
  ∀ before hadError rest, conversation = before ++ .completed hadError :: rest →
    match serving before with
    | some data => ∃ ms, (∀ m ∈ ms, Framing.Framed m) ∧ Talk.Final ms ∧ data = ms.flatten ∧
        Outcome w ms hadError rest
    | none => Overflowed log

section

variable {w : Pqwire}

@[simp] theorem serving_append (l m : List Obs) : serving (l ++ m) = m.foldl Obs.serves (serving l) :=
  List.foldl_append

theorem Outcome.append {ms : List Bytes} {hadError : Bool} {rest : List Obs} (more : List Obs)
    (h : Outcome w ms hadError rest) : Outcome w ms hadError (rest ++ more) := by
  cases h with
  | success hnone => exact .success hnone
  | error its pending herror => exact .error its pending herror

/-- More is said after all that. -/
theorem Answered.append {was log l m : List Obs} (h : Answered w was l)
    (hlog : Overflowed was → Overflowed log)
    (hm : ∀ before hadError rest, m = before ++ .completed hadError :: rest →
      match before.foldl Obs.serves (serving l) with
      | some data => ∃ ms, (∀ m ∈ ms, Framing.Framed m) ∧ Talk.Final ms ∧ data = ms.flatten ∧
          Outcome w ms hadError rest
      | none => Overflowed log) : Answered w log (l ++ m) := by
  intro before hadError rest heq
  rcases List.append_eq_append_iff.mp heq with ⟨mid, hbefore, hm'⟩ | ⟨mid, hl, hrest⟩
  · have hlast := hm mid hadError rest hm'
    rwa [hbefore, serving_append]
  · cases mid with
    | nil =>
        rw [List.append_nil] at hl
        have hlast := hm [] hadError rest hrest.symm
        rwa [← hl]
    | cons o mid =>
        obtain ⟨rfl, rfl⟩ := List.cons.inj hrest
        have hold := h before hadError mid hl
        revert hold
        cases serving before with
        | none => exact hlog
        | some data =>
            rintro ⟨ms, hframed, hfinal, hdata, hout⟩
            exact ⟨ms, hframed, hfinal, hdata, hout.append m⟩

/-! ### The pipeline that runs -/

/-- What the history tells of the pipeline that runs: the messages that came for it are those of its
status and of the response that is buffered. -/
structure Talk.Served (w : Pqwire) (d : Talk) (data : Option Bytes) (log : List Obs) : Prop where
  runs : ∀ bytes, data = some bytes → d.wait.Runs ∧ d.status.complete = false ∧
    ∃ ms, (∀ m ∈ ms, Framing.Framed m) ∧ bytes = ms.flatten ∧
      d.status = PipelineStatus.init.fedAll ms ∧ d.resp = keptBytes w true ms
  cut : d.wait.Runs → data = none → Overflowed log

namespace Talk.Served

variable {d d' : Talk} {data : Option Bytes} {was log l : List Obs}

theorem eq_none (h : d.Served w data was) (hwait : ¬ d.wait.Runs) : data = none := by
  cases data with
  | none => rfl
  | some bytes => exact absurd (h.runs bytes rfl).1 hwait

/-- Nothing runs. -/
theorem idle (hwait : ¬ d.wait.Runs) : d.Served w none log := ⟨nofun, fun h => absurd h hwait⟩

/-- The pipeline is left alone. -/
theorem same (h : d.Served w data was) (hlog : Overflowed was → Overflowed log)
    (hwait : d'.wait.Runs ↔ d.wait.Runs) (hstatus : d'.status = d.status) (hresp : d'.resp = d.resp) :
    d'.Served w data log where
  runs bytes hdata := by
    rw [hwait, hstatus, hresp]
    exact h.runs bytes hdata
  cut hruns hdata := hlog (h.cut (hwait.mp hruns) hdata)

/-- More messages come. -/
theorem hears (h : d.Served w data was) (hlog : Overflowed was → Overflowed log) {ms : List Bytes}
    (hms : d.Hears w ms d') (hmore : ∀ m ∈ ms, Framing.typeOf m ≠ some msgReadyForQuery) :
    d'.Served w (data.map (· ++ ms.flatten)) log := by
  rw [hms.after]
  constructor
  · intro bytes hdata
    obtain ⟨old, hold, rfl⟩ := Option.map_eq_some_iff.mp hdata
    obtain ⟨hruns, -, ns, hns, rfl, hstatus, hresp⟩ := h.runs old hold
    refine ⟨hruns, fedAll_complete _ _ hms.fresh hmore, ns ++ ms, ?_, ?_, ?_, ?_⟩
    · exact fun m hm => (List.mem_append.mp hm).elim (hns m) (hms.framed m)
    · rw [List.flatten_append]
    · rw [fedAll_append, hstatus]
    · rw [keptBytes_append, hresp]
  · intro hruns hdata
    exact hlog (h.cut hruns (by simpa using hdata))

end Talk.Served

/-- What is said at the end of a pipeline. -/
def Talk.saidBehind (d : Talk) (pending : Bytes) (d' : Talk) : List Obs :=
  if d'.status.sawError then [.discarded d.queue, .handed pending d'.resp]
  else if d.sync then [.replied .bindComplete, .handed pending d'.resp]
  else [.replied .bindComplete]

theorem Talk.resultOf_eq (d : Talk) (ms : List Bytes) (pending : Bytes) (d' : Talk) :
    d.resultOf ms pending d' =
      .beData ms.flatten :: .completed d'.status.sawError :: d.saidBehind pending d' := by
  unfold Talk.resultOf Talk.saidBehind
  cases d'.status.sawError <;> cases d.sync <;> rfl

/-- The last messages come, and the outcome is that of all of them. -/
theorem Talk.Served.outcome {d d' : Talk} {data : Option Bytes} {was log : List Obs} {ms : List Bytes}
    (h : d.Served w data was) (hlog : Overflowed was → Overflowed log) (hears : d.Hears w ms d')
    (hfinal : Talk.Final ms) (pending : Bytes) : match data.map (· ++ ms.flatten) with
      | some bytes => ∃ ns, (∀ m ∈ ns, Framing.Framed m) ∧ Talk.Final ns ∧ bytes = ns.flatten ∧
          Outcome w ns d'.status.sawError (d.saidBehind pending d')
      | none => Overflowed log := by
  cases data with
  | none => exact hlog (h.cut hears.runs rfl)
  | some old =>
      obtain ⟨-, hcomplete, ns, hns, rfl, hstatus, hresp⟩ := h.runs old rfl
      have hnone : ∀ m ∈ ns, Framing.typeOf m ≠ some msgReadyForQuery := fun m hm htype => by
        rw [hstatus, (fedAll_complete_iff _ ns).mpr (Or.inr ⟨m, hm, htype⟩)] at hcomplete
        exact absurd hcomplete nofun
      have hstatus' : d'.status = PipelineStatus.init.fedAll (ns ++ ms) := by
        rw [hears.after, fedAll_append, ← hstatus]
      have hresp' : d'.resp = keptBytes w true (ns ++ ms) := by
        rw [hears.after, keptBytes_append, ← hresp]
      have herror := fedAll_sawError_iff PipelineStatus.init (ns ++ ms)
      rw [← hstatus'] at herror
      refine ⟨ns ++ ms, ?_, ?_, ?_, ?_⟩
      · exact fun m hm => (List.mem_append.mp hm).elim (hns m) (hears.framed m)
      · obtain ⟨init, last, rfl, hinit, hlast⟩ := hfinal
        refine ⟨ns ++ init, last, (List.append_assoc ..).symm, fun m hm => ?_, hlast⟩
        exact (List.mem_append.mp hm).elim (hnone m) (hinit m)
      · rw [List.flatten_append]
      · unfold Talk.saidBehind
        cases hsaw : d'.status.sawError with
        | true =>
            rw [if_pos rfl, hresp']
            exact .error d.queue pending ((herror.mp hsaw).resolve_left nofun)
        | false =>
            have hnone : ∀ m ∈ ns ++ ms, Framing.typeOf m ≠ some msgErrorResponse :=
              fun m hm htype => by
                rw [herror.mpr (Or.inr ⟨m, hm, htype⟩)] at hsaw
                exact absurd hsaw nofun
            rw [if_neg (by nofun)]
            split
            · exact .success hnone
            · exact .success hnone

/-- What a step tells of the pipelines. -/
structure Talk.Tells (w : Pqwire) (data : Option Bytes) (log l : List Obs) (d' : Talk) : Prop where
  served : d'.Served w (l.foldl Obs.serves data) log
  answered : ∀ before hadError rest, l = before ++ .completed hadError :: rest →
    match before.foldl Obs.serves data with
    | some bytes => ∃ ms, (∀ m ∈ ms, Framing.Framed m) ∧ Talk.Final ms ∧ bytes = ms.flatten ∧
        Outcome w ms hadError rest
    | none => Overflowed log

namespace Talk

variable {hasPool : Bool} {d d' : Talk} {data : Option Bytes} {was log l : List Obs}

/-- Entries that tell nothing of a pipeline. -/
def Quiet (l : List Obs) : Prop := ∀ o ∈ l, (∀ data, o.serves data = data) ∧ ∀ e, o ≠ .completed e

theorem Quiet.serves (h : Quiet l) (data : Option Bytes) : l.foldl Obs.serves data = data := by
  induction l with
  | nil => rfl
  | cons o l ih =>
      rw [List.foldl_cons, (h o List.mem_cons_self).1]
      exact ih fun a ha => h a (List.mem_cons_of_mem o ha)

/-- No pipeline ends. -/
theorem Tells.of_served (hd : d'.Served w (l.foldl Obs.serves data) log)
    (hnone : ∀ e, .completed e ∉ l) : Tells w data log l d' where
  served := hd
  answered := by
    rintro before hadError rest rfl
    exact absurd (List.mem_append_right _ List.mem_cons_self) (hnone hadError)

theorem Quiet.completed (h : Quiet l) (e : Bool) : .completed e ∉ l := fun hmem => (h _ hmem).2 e rfl

theorem Quiet.tells (h : Quiet l) (hd : d'.Served w data log) : Tells w data log l d' := by
  refine .of_served ?_ h.completed
  rw [h.serves]
  exact hd

theorem Takes.quiet {it : FeqItem} {o : Obs} (h : Takes d it o d') : Quiet [o] := by
  cases h <;> simp [Quiet, Obs.serves]

theorem TakesBind.quiet {src : BindSource} (h : TakesBind d src l d') : Quiet l := by
  cases h <;> simp [Quiet, Obs.serves]

theorem Answer.quiet {it : FeqItem} (h : Answer w hasPool log d it l d') : Quiet l := by
  cases h <;> simp [Quiet, Obs.serves]

theorem Quiet.append {m : List Obs} (h : Quiet l) (k : Quiet m) : Quiet (l ++ m) :=
  fun o ho => (List.mem_append.mp ho).elim (h o) (k o)

theorem quiet_dropped (drops : List FeqItem) : Quiet (drops.map .dropped) := by
  simp [Quiet, Obs.serves]

theorem quiet_dropReplies (e : Event) : Quiet (dropReplies e) := by
  cases e <;> simp [Quiet, Obs.serves, dropReplies]

theorem Served.ended (h : d.Served w data was) (hlog : Overflowed was → Overflowed log) {d₁ : Talk}
    {ms : List Bytes} (hears : d.Hears w ms d₁) (hfinal : Final ms) (pending : Bytes)
    (hover : d'.wait.Runs → Overflowed log) : Tells w data log (d.resultOf ms pending d₁) d' where
  served := by
    have hnone : (d.resultOf ms pending d₁).foldl Obs.serves data = none := by
      rw [resultOf_eq]
      unfold saidBehind
      split
      · rfl
      · split <;> rfl
    rw [hnone]
    exact ⟨nofun, fun hruns _ => hover hruns⟩
  answered := by
    intro before hadError rest heq
    have hout := h.outcome hlog hears hfinal pending
    have hsaid : ∀ o ∈ d.saidBehind pending d₁, ∀ e, o ≠ .completed e := by
      unfold saidBehind
      split
      · simp
      · split <;> simp
    rw [resultOf_eq] at heq
    match before, heq with
    | [.beData _], heq =>
        cases heq
        exact hout
    | _ :: _ :: before, heq =>
        have hrest := (List.cons.inj (List.cons.inj heq).2).2
        refine absurd rfl (hsaid (.completed hadError) ?_ hadError)
        rw [hrest]
        exact List.mem_append_right _ List.mem_cons_self

theorem Step.tells (h : Step w hasPool was log d l d') (hlog : Overflowed was → Overflowed log)
    (hd : d.Served w data was) : Tells w data log l d' := by
  have hnot : ∀ {wait : BeWait}, wait = .idle ∨ wait = .waitingPool → ¬ wait.Runs := by
    rintro wait (rfl | rfl) hruns
    · exact hruns.ne.1 rfl
    · exact hruns.ne.2 rfl
  -- nothing runs before or after
  have hidle : Quiet l → (d.wait = .idle ∨ d.wait = .waitingPool) →
      (d'.wait = .idle ∨ d'.wait = .waitingPool) → Tells w data log l d' := fun hquiet hwait hwait' => by
    refine hquiet.tells ?_
    rw [hd.eq_none (hnot hwait)]
    exact .idle (hnot hwait')
  have hsame : Quiet l → (d'.wait.Runs ↔ d.wait.Runs) → d'.status = d.status → d'.resp = d.resp →
      Tells w data log l d' := fun hquiet hwait hstatus hresp =>
    hquiet.tells (hd.same hlog hwait hstatus hresp)
  cases h with
  | silent => exact hsame (by simp [Quiet]) Iff.rfl rfl rfl
  | switch wait hwait hwait' => exact hsame (by simp [Quiet]) (iff_of_true hwait' hwait) rfl rfl
  | startup | ignore | terminate | push | closed =>
      exact hsame (by simp [Quiet, Obs.serves]) Iff.rfl rfl rfl
  | @drop e it hbusy hwork =>
      have hquiet : Quiet ([.received e d.wait, .dropped it] ++ dropReplies e) :=
        .append (by simp [Quiet, Obs.serves]) (quiet_dropReplies e)
      exact hsame hquiet Iff.rfl rfl rfl
  | answer htake hanswer =>
      have hwait : d.wait = .idle := by cases htake <;> assumption
      have hwait' := hanswer.same.2.1.trans (htake.same.1.trans hwait)
      exact hidle (htake.quiet.append hanswer.quiet) (Or.inl hwait) (Or.inl hwait')
  | begin htake =>
      refine .of_served ?_ fun e hmem => ?_
      · rw [List.foldl_append, htake.quiet.serves]
        refine ⟨?_, nofun⟩
        rintro bytes ⟨⟩
        exact ⟨Or.inl rfl, rfl, [], nofun, rfl, rfl, rfl⟩
      · exact (List.mem_append.mp hmem).elim (htake.quiet.completed e) (by simp)
  | park drops htake =>
      exact hidle ((htake.quiet.append (quiet_dropped drops)).append (by simp [Quiet, Obs.serves]))
        (Or.inl htake.same.1) (Or.inr rfl)
  | putBack drops htake =>
      exact hidle ((htake.quiet.append (quiet_dropped drops)).append (by simp [Quiet, Obs.serves]))
        (Or.inl htake.same.1) (Or.inr rfl)
  | ran drops out htake =>
      exact hidle ((htake.quiet.append (quiet_dropped drops)).append (by simp [Quiet, Obs.serves]))
        (Or.inl htake.same.1) (Or.inl htake.same.2.1)
  | stub drops why written resp htake =>
      exact hidle ((htake.quiet.append (quiet_dropped drops)).append (by simp [Quiet, Obs.serves]))
        (Or.inl htake.same.1) (Or.inl htake.same.2.1)
  | unpark hwait => exact hidle (by simp [Quiet]) (Or.inr hwait) (Or.inl rfl)
  | data hears hmore =>
      exact .of_served (hd.hears hlog hears hmore) (by simp)
  | ended pending hears hfinal => exact hd.ended hlog hears hfinal pending fun hruns => absurd rfl hruns.ne.1
  | endedCut pending resp hears hfinal hcut => exact hd.ended hlog hears hfinal pending fun _ => hcut
  | lost hwait => exact .of_served (.idle (hnot (Or.inl rfl))) (by simp)
  | lostCut hwait hcut => exact .of_served ⟨nofun, fun _ _ => hcut⟩ (by simp)
  | stray hcut hruns hover hlanding =>
      -- the pipeline is over already, and none begins
      have hnone : data = none := by
        cases data with
        | none => rfl
        | some bytes => exact absurd ((hd.runs bytes rfl).2.1.symm.trans hover) nofun
      have hstill : ∀ m : List Obs, (∀ o ∈ m, o.landing) → m.foldl Obs.serves none = none := by
        intro m
        induction m with
        | nil => exact fun _ => rfl
        | cons o m ih =>
            intro hm
            have ho : o.serves none = none := by
              have := hm o List.mem_cons_self
              cases o <;> first | rfl | exact absurd this nofun
            rw [List.foldl_cons, ho]
            exact ih fun a ha => hm a (List.mem_cons_of_mem o ha)
      rw [hnone]
      refine ⟨?_, ?_⟩
      · rw [hstill l hlanding]
        exact ⟨nofun, fun _ _ => hlog hcut⟩
      · rintro before hadError rest rfl
        rw [hstill before fun o ho => hlanding o (List.mem_append_left _ ho)]
        exact hlog hcut
  | discarded => exact .of_served (.idle (hnot (Or.inl rfl))) (by simp)

/-- Every pipeline of a conversation that ended was answered. -/
theorem Run.answered (h : Run w hasPool log d) : Answered w log (spoken log) ∧
    d.Served w (serving (spoken log)) log := by
  induction h with
  | new =>
      refine ⟨fun before hadError rest heq => ?_, .idle fun hruns => hruns.ne.1 rfl⟩
      exact absurd (congrArg List.length heq) (by simp [spoken])
  | @step was l d d' hrun hstep ih =>
      have hlog : Overflowed was → Overflowed (was ++ l) := fun h => h.append_left l
      obtain ⟨hserved, hanswered⟩ := hstep.tells hlog ih.2
      rw [spoken_append]
      exact ⟨ih.1.append hlog hanswered, by rw [serving_append]; exact hserved⟩

end Talk

/-- What a blocking run returned is a whole response. -/
theorem Talk.Run.ran {hasPool : Bool} {log : List Obs} {d : Talk} (hw : w.FollowsPipeline)
    (h : Talk.Run w hasPool log d) (out : Bytes) (hout : .ran out ∈ spoken log) : Whole out := by
  induction h with
  | new => exact absurd hout (by simp [spoken])
  | @step was l d d' hrun hstep ih =>
      rw [spoken_append] at hout
      refine (List.mem_append.mp hout).elim ih fun hmem => ?_
      generalize spoken l = m at hstep hmem
      have htaken : ∀ {src : BindSource} {l : List Obs} {d₁ : Talk}, d.TakesBind src l d₁ →
          .ran out ∉ l := fun htake => by cases htake <;> simp
      cases hstep with
      | @drop e => cases e <;> simp [dropReplies] at hmem
      | @answer d₁ _ it o l' htake hanswer =>
          rcases List.mem_cons.mp hmem with rfl | hmem
          · cases htake
          · cases hanswer <;> simp at hmem
      | begin htake => exact absurd hmem (by simp [htaken htake])
      | park drops htake => exact absurd hmem (by simp [htaken htake])
      | putBack drops htake => exact absurd hmem (by simp [htaken htake])
      | stub drops why written resp htake => exact absurd hmem (by simp [htaken htake])
      | ran drops out' htake hsound =>
          have heq : out = out' := by simpa [htaken htake] using hmem
          rw [heq]
          exact hsound hw
      | ended pending hears hfinal | endedCut pending resp hears hfinal =>
          rw [Talk.resultOf_eq] at hmem
          unfold Talk.saidBehind at hmem
          split at hmem
          · simp at hmem
          · split at hmem <;> simp at hmem
      | stray hcut hruns hover hlanding => exact absurd (hlanding _ hmem) (by simp [Obs.landing, Obs.output])
      | _ => simp at hmem

/-- The history tells the queue, and why each acknowledgement was sent. -/
structure Conn.Recorded (c : Conn) : Prop where
  queue : Ledger [] c.log c.feQ.toList
  explained : Explained c.log
  tag : ∀ t, .replied (.commandComplete t) ∈ c.log → t = "SELECT 0".toList

theorem Conn.Recorded.fits (hw : w.Appends) {c c' : Conn} {l : List Obs} (hc : c.Recorded)
    (hlog : c'.log = c.log ++ l) (hfits : Fits w c l c') : c'.Recorded where
  queue := by
    rw [hlog]
    exact hc.queue.append hfits.queue
  explained := by
    rw [hlog]
    exact hc.explained.append (hfits.explained hw)
  tag t ht := by
    rw [hlog] at ht
    exact (List.mem_append.mp ht).elim (hc.tag t) (hfits.tag t)

theorem recorded_stable (hw : w.Appends) (cfg : Config) (tls hasPool : Bool) :
    Conn.Stable w cfg tls hasPool (fun _ => False) (fun _ _ => True) Conn.Recorded where
  fresh _ := ⟨.nil, explained_nil, nofun⟩
  admits _ _ hadmits := by
    cases hadmits <;> exact ⟨.nil, explained_nil, nofun⟩
  act _ ha _ hc := by
    obtain ⟨l, hlog, hfits⟩ := ha.grows.log
    exact hc.fits hw hlog hfits
  land {r c c' h h'} _ _ hl _ hc := by
    obtain ⟨l, hlog, hfits⟩ := hl.grows.log
    have hlanded : (c.conn.landed r.op).Recorded := by
      cases r.op <;> exact ⟨hc.queue, hc.explained, hc.tag⟩
    exact hlanded.fits hw hlog hfits
  delivered {r c} _ _ hc := by
    cases r.op <;> exact ⟨hc.queue, hc.explained, hc.tag⟩
  abandon {c} _ hc := by
    refine ⟨hc.queue.append (.other .nil (fun h => h)), hc.explained.append ?_, fun t ht => ?_⟩
    · exact explained_singleton (by simp [Obs.Opens]) (by simp [Obs.Pends, Obs.Acknowledged])
    · exact hc.tag t ((List.mem_append.mp ht).resolve_right (by simp))
  close {c} _ _ _ hc := by
    refine ⟨hc.queue.append (.discarded .nil), hc.explained.append ?_, fun t ht => ?_⟩
    · exact explained_singleton (by simp [Obs.Opens]) (by simp [Obs.Pends, Obs.Acknowledged])
    · exact hc.tag t ((List.mem_append.mp ht).resolve_right (by simp))

theorem run_recorded (hw : w.Appends) (env : Env) (cfg : Config) (nonblock : Bool) (now : Nat)
    (inputs : List Input) (i : Slot) :
    ((Runs.run (step w env) (start env cfg nonblock now) inputs).conns i).Recorded :=
  (recorded_stable hw cfg (!cfg.plain) _).run (Server.Stable.along_any _ inputs) i

/-- The split of a history at an entry about the queue. -/
theorem Ledger.split {q q' : List FeqItem} {l m : List Obs} (h : Ledger q (l ++ m) q') :
    ∃ q₁, Ledger q l q₁ ∧ Ledger q₁ m q' := by
  induction l generalizing q with
  | nil => exact ⟨q, .nil, h⟩
  | cons o l ih =>
      cases h with
      | pushed h => exact (ih h).imp fun _ h => ⟨h.1.pushed, h.2⟩
      | took h => exact (ih h).imp fun _ h => ⟨h.1.took, h.2⟩
      | putBack h => exact (ih h).imp fun _ h => ⟨h.1.putBack, h.2⟩
      | discarded h => exact (ih h).imp fun _ h => ⟨h.1.discarded, h.2⟩
      | other h ho => exact (ih h).imp fun _ h => ⟨h.1.other ho, h.2⟩

/-! ### Binds -/

/-- A Bind that comes while a pipeline runs. -/
def Obs.busyBind : Obs → Bool
  | .received (.bind _) wait => decide (wait ≠ .idle)
  | _ => false

/-- A Bind that comes while a pipeline runs is put into the queue, or refused with an error. -/
def QueuesBinds (log : List Obs) : Prop :=
  ∀ before o rest, log = before ++ o :: rest → o.busyBind = true →
    ∃ it behind, rest = .pushed it :: behind ∨
      rest = .dropped it :: .replied queueFullError :: .replied .readyForQuery :: behind

theorem QueuesBinds.append {l m : List Obs} (h : QueuesBinds l) (k : QueuesBinds m) : QueuesBinds (l ++ m) := by
  intro before o rest heq ho
  rcases List.append_eq_append_iff.mp heq with ⟨mid, -, hm⟩ | ⟨mid, hl, hrest⟩
  · exact k mid o rest hm ho
  · cases mid with
    | nil => exact k [] o rest hrest.symm ho
    | cons a mid =>
        obtain ⟨rfl, rfl⟩ := List.cons.inj hrest
        obtain ⟨it, behind, rfl | rfl⟩ := h before o mid hl ho
        · exact ⟨it, behind ++ m, Or.inl rfl⟩
        · exact ⟨it, behind ++ m, Or.inr rfl⟩

theorem queuesBinds_of_none {l : List Obs} (h : ∀ o ∈ l, o.busyBind = false) : QueuesBinds l := by
  rintro before o rest rfl ho
  have hnone := h o (List.mem_append_right _ List.mem_cons_self)
  rw [ho] at hnone
  cases hnone

/-- Only the first of these entries can be such a Bind. -/
theorem queuesBinds_cons {o : Obs} {l : List Obs} (hl : ∀ a ∈ l, a.busyBind = false)
    (ho : o.busyBind = true → ∃ it behind, l = .pushed it :: behind ∨
      l = .dropped it :: .replied queueFullError :: .replied .readyForQuery :: behind) :
    QueuesBinds (o :: l) := by
  intro before a rest heq ha
  cases before with
  | nil =>
      obtain ⟨rfl, rfl⟩ := List.cons.inj heq
      exact ho ha
  | cons b before => exact queuesBinds_of_none hl before a rest (List.cons.inj heq).2 ha

namespace Talk

variable {hasPool : Bool} {d d' : Talk} {was log l : List Obs}

theorem TakesBind.idle {src : BindSource} (h : TakesBind d src l d') : ∀ o ∈ l, o.busyBind = false := by
  cases h <;> simp [Obs.busyBind]

theorem Answer.idle {it : FeqItem} (h : Answer w hasPool log d it l d') :
    ∀ o ∈ l, o.busyBind = false := by
  cases h <;> simp [Obs.busyBind]

theorem Takes.idle {it : FeqItem} {o : Obs} (h : Takes d it o d') : o.busyBind = false := by
  cases h with
  | @direct e it hwork => cases e <;> rfl
  | popped => rfl

theorem Step.queuesBinds (h : Step w hasPool was log d l d') : QueuesBinds l := by
  have htaken : ∀ {src : BindSource} {l m : List Obs} {d₁ : Talk} (drops : List FeqItem),
      d.TakesBind src l d₁ → (∀ o ∈ m, o.busyBind = false) →
        QueuesBinds (l ++ drops.map .dropped ++ m) := fun drops htake hm =>
    ((queuesBinds_of_none htake.idle).append (queuesBinds_of_none (by simp [Obs.busyBind]))).append
      (queuesBinds_of_none hm)
  cases h with
  | @push e it hbusy hitem => exact queuesBinds_cons (by simp [Obs.busyBind]) fun _ => ⟨it, [], Or.inl rfl⟩
  | @drop e it hbusy hwork =>
      refine queuesBinds_cons ?_ fun he => ?_
      · cases e <;> simp [dropReplies, Obs.busyBind]
      · cases e with
        | bind bind => exact ⟨it, [], Or.inr rfl⟩
        | _ => cases he
  | answer htake hanswer =>
      refine queuesBinds_of_none fun o ho => ?_
      rcases List.mem_cons.mp ho with rfl | ho
      · exact htake.idle
      · exact hanswer.idle o ho
  | begin htake => exact (queuesBinds_of_none htake.idle).append (queuesBinds_of_none (by simp [Obs.busyBind]))
  | park drops htake => exact htaken drops htake (by simp [Obs.busyBind])
  | putBack drops htake => exact htaken drops htake (by simp [Obs.busyBind])
  | ran drops out htake => exact htaken drops htake (by simp [Obs.busyBind])
  | stub drops why written resp htake => exact htaken drops htake (by simp [Obs.busyBind])
  | ended pending hears hfinal | endedCut pending resp hears hfinal =>
      refine queuesBinds_of_none ?_
      rw [resultOf_eq]
      unfold saidBehind
      split
      · simp [Obs.busyBind]
      · split <;> simp [Obs.busyBind]
  | stray hcut hruns hover hlanding =>
      refine queuesBinds_of_none fun o ho => ?_
      have hland := hlanding o ho
      cases o with
      | received => cases hland
      | _ => rfl
  | _ => exact queuesBinds_of_none (by simp [Obs.busyBind])

theorem Run.queuesBinds (h : Run w hasPool log d) : QueuesBinds (spoken log) := by
  induction h with
  | new => exact queuesBinds_of_none (by simp [spoken])
  | step hrun hstep ih =>
      rw [spoken_append]
      exact ih.append hstep.queuesBinds

end Talk

/-- What the history tells of the Binds that no backend ran. -/
structure Conn.Accounts (hasPool : Bool) (c : Conn) : Prop where
  unrun : ∀ why written, .stub why written ∈ c.log →
    why.pool = hasPool ∧ why.ready = c.identityReady ∧ c.state ≠ .tlsHs
  parked : .parked true ∈ c.log → ∃ o ∈ c.log, o.hopeless = true

/-- What a new entry tells of them. -/
def Obs.Accounted (hasPool : Bool) (c c' : Conn) : Obs → Prop
  | .stub why _ => why.pool = hasPool ∧ why.ready = c.identityReady ∧ c.Open
  | .parked free => free = true → ∃ o ∈ c'.log, o.hopeless = true
  | _ => True

theorem accounted_of_tells {cfg : Config} {hasPool : Bool} {c c' : Conn} {o : Obs}
    (h : o.Tells cfg hasPool c c') : o.Accounted hasPool c c' := by
  cases o with
  | stub => exact h
  | parked free =>
      intro hfree
      rcases h hfree with ⟨held, hmem⟩ | hmem | hmem
      · exact ⟨_, hmem, rfl⟩
      · exact ⟨_, hmem, rfl⟩
      · exact ⟨_, hmem, rfl⟩
  | _ => trivial

theorem Conn.Accounts.goesOn {hasPool : Bool} {c c' : Conn} (h : c.Accounts hasPool)
    (henters : Enters (Obs.Accounted hasPool c c') c c')
    (hready : c.state ≠ .tlsHs → c'.identityReady = c.identityReady)
    (hstate : c'.state = .tlsHs → c.state = .tlsHs) : c'.Accounts hasPool where
  unrun why written hmem := by
    rcases henters.mem hmem with hold | ⟨hpool, hwhy, hopen⟩
    · obtain ⟨hpool, hwhy, hne⟩ := h.unrun why written hold
      exact ⟨hpool, hwhy.trans (hready hne).symm, fun hhs => hne (hstate hhs)⟩
    · exact ⟨hpool, hwhy.trans (hready hopen.2).symm, fun hhs => hopen.2 (hstate hhs)⟩
  parked hmem := by
    rcases henters.mem hmem with hold | hnew
    · obtain ⟨o, ho, hhopeless⟩ := h.parked hold
      obtain ⟨l, hlog, -⟩ := henters
      exact ⟨o, hlog ▸ List.mem_append_left l ho, hhopeless⟩
    · exact hnew rfl

theorem accounts_stable (cfg : Config) (tls hasPool : Bool) : Conn.Stable w cfg tls hasPool
    (fun _ => False) (fun _ _ => True) (Conn.Accounts hasPool) where
  fresh _ := ⟨nofun, nofun⟩
  admits _ _ hadmits := by
    cases hadmits <;> exact ⟨nofun, nofun⟩
  act ht ha _ hc := hc.goesOn ((ha.tells ht).mono fun _ => accounted_of_tells)
    (fun hne => (ha.grows.keeps.identity hne).2) ha.grows.keeps.hs
  land {_ c c' _ _} ht _ hl _ hc :=
    hc.goesOn ((hl.tells cfg hasPool c.conn c'.conn).mono fun _ => accounted_of_tells)
      (fun hne => (hl.keeps.identity hne).2) hl.keeps.hs
  delivered {r c} _ _ hc := by
    cases r.op <;> exact hc.goesOn (.of_log rfl) (fun _ => rfl) id
  abandon {c} _ hc := by
    have hnote : Enters (Obs.Accounted hasPool c { c.note .closed with be := none }) c (c.note .closed) :=
      .note c trivial
    exact hc.goesOn (hnote.trans (.of_log rfl)) (fun _ => rfl) id
  close {c} _ _ _ hc :=
    hc.goesOn ⟨[.discarded c.feQ.toList], rfl, by simp [Obs.Accounted]⟩ (fun _ => rfl) nofun

theorem run_accounts (env : Env) (cfg : Config) (nonblock : Bool) (now : Nat) (inputs : List Input)
    (i : Slot) : ((Runs.run (step w env) (start env cfg nonblock now) inputs).conns i).Accounts
      (start env cfg nonblock now).pool.isSome :=
  (accounts_stable cfg (!cfg.plain) _).run (Server.Stable.along_any _ inputs) i

/-- There is always an entry for a request; only a write of an earlier pipeline can be in the way. -/
theorem run_upset {env : Env} {cfg : Config} {nonblock : Bool} {now : Nat} {inputs : List Input} {i : Slot}
    (h : ((Runs.run (step w env) (start env cfg nonblock now) inputs).conns i).Upset) :
    .crossed ∈ ((Runs.run (step w env) (start env cfg nonblock now) inputs).conns i).log :=
  h.resolve_left fun hmem => (run_attends env cfg nonblock now inputs).calm i _ hmem rfl

/-- A BindComplete follows the end of a pipeline without error, a blocking run, or the local stub for a
Bind that no backend could run; the server completes no command of a Bind that was not run. A pipeline
that is lost is reported, and a connection waits for the pool only while no idle backend is there. -/
structure Conn.Acknowledges (w : Pqwire) (hasPool : Bool) (c : Conn) : Prop where
  reason : ∀ before rest, c.log = before ++ .replied .bindComplete :: rest →
    ∃ o ∈ before.getLast?, o.Acknowledged
  unrun : ∀ why written, .stub why written ∈ c.log → why.pool = hasPool ∧ why.ready = c.identityReady
  completes : Requests.All Requests.completes c.log
  tag : ∀ t, .replied (.commandComplete t) ∈ c.log → t = "SELECT 0".toList
  lost : ∀ before rest, c.log = before ++ .lost :: rest →
    ∃ behind, rest = .replied pipelineError :: .replied .readyForQuery :: behind
  waits : .parked true ∉ c.log
  refused : .crossed ∉ c.log → QueuesBinds (spoken c.log)
  ran : .crossed ∉ c.log → ∀ out, .ran out ∈ c.log → Whole out
  answered : .crossed ∉ c.log → Answered w c.log (spoken c.log)

/-- A whole pipeline comes in one chunk. -/
def pipelineInputs : List Input :=
  [accepts 0, receives 0 [.startup, .parse smallParse, .bind smallBind, .execute, .sync]]

/-- The backend runs it. The Execute finds no response any more, since that was handed over for the Sync
behind it. -/
def servedInputs : List Input :=
  pipelineInputs ++ [.complete 0 1 (.sent 77), .complete 0 3 (.data bareResponse.bytes)]

/-- The backend goes away. -/
def lostInputs : List Input := pipelineInputs ++ [.complete 0 1 .eof]

/-- The response of a whole pipeline has one ReadyForQuery. -/
theorem keptBytes_final (hw : w.FollowsPipeline) {ms : List Bytes}
    (hms : ∀ m ∈ ms, Framing.Framed m) (hfinal : Talk.Final ms) :
    Framing.Aligned (keptBytes w true ms) ∧
      Framing.countType msgReadyForQuery (keptBytes w true ms) = 1 := by
  obtain ⟨init, last, rfl, hinit, hlast⟩ := hfinal
  have hkept : ∀ m ∈ (init ++ [last]).filter (fun m => !w.filterBackendType (m.headD 0) true),
      Framing.Framed m := fun m hm => hms m (List.mem_filter.mp hm).1
  refine ⟨Framing.aligned_flatten hkept, ?_⟩
  have hhead : last.headD 0 = msgReadyForQuery := by
    rw [List.headD_eq_head?_getD]
    exact congrArg (Option.getD · 0) hlast
  have hnone : (init.filter fun m => !w.filterBackendType (m.headD 0) true).filter
      (fun m => Framing.typeOf m == some msgReadyForQuery) = [] := by
    refine List.filter_eq_nil_iff.mpr fun m hm => ?_
    simpa using hinit m (List.mem_filter.mp hm).1
  rw [Framing.countType, keptBytes, Framing.ofType_flatten _ hkept, List.filter_append,
    List.filter_append, hnone, List.filter_cons_of_pos (by rw [hhead, (hw.keeps true).1]; rfl)]
  simp [hlast]

/-- An ErrorResponse is passed on. -/
theorem keptBytes_error (hw : w.FollowsPipeline) {ms : List Bytes} (hms : ∀ m ∈ ms, Framing.Framed m)
    (herror : ∃ m ∈ ms, Framing.typeOf m = some msgErrorResponse) :
    0 < Framing.countType msgErrorResponse (keptBytes w true ms) := by
  obtain ⟨m, hm, htype⟩ := herror
  have hkept : ∀ m ∈ ms.filter (fun m => !w.filterBackendType (m.headD 0) true),
      Framing.Framed m := fun m hm => hms m (List.mem_filter.mp hm).1
  have hhead : m.headD 0 = msgErrorResponse := by
    rw [List.headD_eq_head?_getD]
    exact congrArg (Option.getD · 0) htype
  have hkeep : m ∈ ms.filter (fun m => !w.filterBackendType (m.headD 0) true) :=
    List.mem_filter.mpr ⟨hm, by rw [hhead, (hw.keeps true).2.1]; rfl⟩
  rw [Framing.countType, keptBytes, Framing.ofType_flatten _ hkept]
  exact List.length_pos_of_mem (List.mem_filter.mpr ⟨hkeep, by simp [htype]⟩)

/-- What follows a pipeline that ended with an error: all requests that wait are discarded, and the
response with its ErrorResponse and its ReadyForQuery is handed over. Requests that come later start
from an empty queue, and none is taken up that stands before the next Sync. -/
structure Conn.Recovers (c : Conn) : Prop where
  discards : ∀ before rest, c.log = before ++ .completed true :: rest →
    ∃ its behind, rest = .discarded its :: behind ∧ Ledger [] before its ∧ Ledger [] behind c.feQ.toList
  answers : .crossed ∉ c.log → ∀ before rest, spoken c.log = before ++ .completed true :: rest →
    if serving before = none then Overflowed c.log
    else ∃ its pending resp behind, rest = .discarded its :: .handed pending resp :: behind ∧
      Framing.Aligned resp ∧ Framing.countType msgReadyForQuery resp = 1 ∧
      0 < Framing.countType msgErrorResponse resp
  skips : .crossed ∉ c.log → ¬ Overflowed c.log → Requests.All (Requests.heeds .error) (spoken c.log)

/-- A pipeline with an error. -/
def errorResponse : Bytes := [69, 0, 0, 0, 4, 90, 0, 0, 0, 5, 73]

/-- Two pipelines are sent, and the first ends with an error; then a third one comes. -/
def failingInputs : List Input :=
  [accepts 0, receives 0 [.startup, .parse smallParse, .bind smallBind, .execute, .sync, .bind smallBind,
    .execute, .sync], .complete 0 1 (.sent 77), .complete 0 3 (.data errorResponse),
    receives 2 [.bind smallBind, .execute, .sync]]

/-- The Execute and the Sync come when their pipeline has ended with an error. -/
def lateInputs : List Input :=
  [accepts 0, receives 0 [.startup, .parse smallParse, .bind smallBind], .complete 0 1 (.sent 77),
    .complete 0 3 (.data errorResponse), receives 2 [.execute, .sync]]

end
