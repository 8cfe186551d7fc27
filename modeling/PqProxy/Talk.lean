import PqProxy.LoopEntries

/-! The conversation of one connection as an abstract machine: its queue, what its pipeline is doing and
the response that is buffered, with one rule for each thing that can happen and what is said at that
occasion. -/

/-- The entries that belong to the conversation: all but those about the output, about submission queue
entries and about identities, and those that only mark what is taken up. -/
def Obs.spoken : Obs → Bool
  | .queued _ | .refused _ | .noSqe | .unarmed | .crossed | .authenticated .. | .fed .. | .checkout ..
  | .parked _ | .executing _ => false
  | _ => true

/-- The conversation. -/
def spoken (log : List Obs) : List Obs := log.filter Obs.spoken

@[simp] theorem spoken_append (l m : List Obs) : spoken (l ++ m) = spoken l ++ spoken m :=
  List.filter_append ..

/-- The state of a conversation. `status` is that of the pipeline that runs. -/
structure Talk where
  queue : List FeqItem
  wait : BeWait
  sync : Bool
  resp : Bytes
  status : PipelineStatus

/-- A pipeline runs. -/
def BeWait.Runs (wait : BeWait) : Prop := wait = .sending ∨ wait = .reading

theorem BeWait.Runs.ne {wait : BeWait} (h : wait.Runs) : wait ≠ .idle ∧ wait ≠ .waitingPool := by
  rcases h with rfl | rfl <;> exact ⟨nofun, nofun⟩

/-- What a client is told when its request does not fit the queue. -/
def dropReplies : Event → List Obs
  | .parse _ => [.replied queueFullError]
  | .bind _ | .query _ => [.replied queueFullError, .replied .readyForQuery]
  | _ => []

namespace Talk

/-- A request other than a Bind is taken up when it comes, or from the queue. -/
inductive Takes : Talk → FeqItem → Obs → Talk → Prop where
  | direct {d : Talk} {e : Event} {it : FeqItem} (hwork : e.work = some it) (hidle : d.wait = .idle)
      (hqueue : d.queue = []) : Takes d it (.received e .idle) d
  | popped {d : Talk} {it : FeqItem} {rest : List FeqItem} (hidle : d.wait = .idle)
      (hqueue : d.queue = it :: rest) : Takes d it (.took it) { d with queue := rest }

/-- So is a Bind. A new one discards the response that is buffered. -/
inductive TakesBind : Talk → BindSource → List Obs → Talk → Prop where
  | direct {d : Talk} (bind : PqBind) (startable : Bool) (hidle : d.wait = .idle)
      (hqueue : d.queue = []) :
      TakesBind d (.event bind)
        [.received (.bind bind) .idle, .binding d.resp.length startable]
        { d with resp := [], sync := false }
  | popped {d : Talk} {it : BindItem} {rest : List FeqItem} (startable : Bool) (hidle : d.wait = .idle)
      (hqueue : d.queue = .bind it :: rest) :
      TakesBind d (.queue it) [.took (.bind it), .binding d.resp.length startable]
        { d with queue := rest }

section

variable (w : Pqwire) (hasPool : Bool) (was log : List Obs)

/-- The answer to a request other than a Bind. -/
inductive Answer : Talk → FeqItem → List Obs → Talk → Prop where
  | none {d : Talk} : Answer d .none [] d
  | parse {d : Talk} (msg : PqParse) : Answer d (.parse msg) [.replied .parseComplete] d
  | full {d : Talk} (msg : PqParse) :
      Answer d (.parse msg) [.cacheFull, .replied cacheFullError, .replied .readyForQuery] d
  | stub {d : Talk} (hresp : hasPool = false ∨ d.resp = []) :
      Answer d .execute [.replied (.commandComplete "SELECT 0".toList)] d
  | done {d : Talk} (hpool : hasPool = true) (hresp : d.resp ≠ []) : Answer d .execute [] d
  | ready {d : Talk} (hresp : d.resp = []) : Answer d .sync [.replied .readyForQuery] d
  | flush {d : Talk} (pending : Bytes) (hresp : d.resp ≠ []) :
      Answer d .sync [.handed pending d.resp] { d with resp := [] }
  | flushCut {d : Talk} (pending : Bytes) (hresp : d.resp ≠ []) (hcut : Overflowed log) :
      Answer d .sync [.handed pending d.resp] d
  | reject {d : Talk} (sql code message : Text) :
      Answer d (.query sql)
        [.replied (.errorResponse "ERROR".toList code message), .replied .readyForQuery] d
  | forward {d : Talk} (sql : Text) (pending out resp : Bytes) (hout : w.FollowsPipeline → Whole out)
      (hresp : resp.length = d.resp.length) :
      Answer d (.query sql) [.forwarded d.resp.length, .handed pending out] { d with resp := resp }
  | failed {d : Talk} (sql : Text) (resp : Bytes) (hresp : resp.length = d.resp.length) :
      Answer d (.query sql)
        [.forwarded d.resp.length, .replied forwardError, .replied .readyForQuery]
        { d with resp := resp }
  | terminate {d : Talk} : Answer d .terminate [] d

/-- The pipeline that runs receives messages. -/
structure Hears (d : Talk) (ms : List Bytes) (d' : Talk) : Prop where
  runs : d.wait.Runs
  fresh : d.status.complete = false
  framed : ∀ m ∈ ms, Framing.Framed m
  after : d' = { d with status := d.status.fedAll ms, resp := d.resp ++ keptBytes w true ms }

/-- The messages end with the only ReadyForQuery. -/
def Final (ms : List Bytes) : Prop := ∃ init last, ms = init ++ [last] ∧
  (∀ m ∈ init, Framing.typeOf m ≠ some msgReadyForQuery) ∧ Framing.typeOf last = some msgReadyForQuery

/-- What is said when a pipeline is over. -/
def resultOf (d : Talk) (ms : List Bytes) (pending : Bytes) (d' : Talk) : List Obs :=
  .beData ms.flatten ::
    if d'.status.sawError then [.completed true, .discarded d.queue, .handed pending d'.resp]
    else if d.sync then [.completed false, .replied .bindComplete, .handed pending d'.resp]
    else [.completed false, .replied .bindComplete]

/-- The queue that a pipeline that is over leaves. -/
def queueAfter (d d' : Talk) : List FeqItem := if d'.status.sawError then [] else d.queue

/-- The response that a pipeline that is over leaves. -/
def respAfter (d d' : Talk) : Bytes := if d'.status.sawError ∨ d.sync then [] else d'.resp

/-- One thing happens, and this is said. `was` is the history before, and `log` the one after. -/
inductive Step : Talk → List Obs → Talk → Prop where
  | silent {d : Talk} : Step d [] d
  | switch {d : Talk} (wait : BeWait) (hwait : d.wait.Runs) (hwait' : wait.Runs) :
      Step d [] { d with wait := wait }
  | startup {d : Talk} :
      Step d [.received .startup d.wait, .replied .authOk, .replied .readyForQuery] d
  | ignore {d : Talk} : Step d [.received .other d.wait] d
  | terminate {d : Talk} (hquiet : d.wait = .idle → d.queue = []) :
      Step d [.received .terminate d.wait] d
  | push {d : Talk} {e : Event} {it : FeqItem} (hbusy : d.wait ≠ .idle) (hitem : e.item w = some it) :
      Step d [.received e d.wait, .pushed it]
        { d with queue := d.queue ++ [it], sync := d.sync || decide (e = .sync) }
  | drop {d : Talk} {e : Event} (it : FeqItem) (hbusy : d.wait ≠ .idle)
      (hwork : e.work ≠ none ∨ ∃ bind, e = .bind bind) :
      Step d (.received e d.wait :: .dropped it :: dropReplies e)
        { d with sync := d.sync || decide (e = .sync) }
  | answer {d d₁ d' : Talk} {it : FeqItem} {o : Obs} {l : List Obs} (htake : Takes d it o d₁)
      (hanswer : Answer w hasPool log d₁ it l d') : Step d (o :: l) d'
  | begin {d d₁ : Talk} {src : BindSource} {l : List Obs} (htake : TakesBind d src l d₁) :
      Step d (l ++ [.began])
        { d₁ with resp := [], sync := false, status := .init, wait := .sending }
  | park {d d₁ : Talk} {bind : PqBind} {l : List Obs} {it : BindItem} (drops : List FeqItem)
      (htake : TakesBind d (.event bind) l d₁) (hitem : bindItem w bind = some it) :
      Step d (l ++ drops.map .dropped ++ [.pushed (.bind it)])
        { d₁ with queue := d₁.queue ++ [.bind it], wait := .waitingPool }
  | putBack {d d₁ : Talk} {it : BindItem} {l : List Obs} (drops : List FeqItem)
      (htake : TakesBind d (.queue it) l d₁) :
      Step d (l ++ drops.map .dropped ++ [.putBack (.bind it)])
        { d₁ with queue := .bind it :: d₁.queue, wait := .waitingPool }
  | ran {d d₁ : Talk} {src : BindSource} {l : List Obs} (drops : List FeqItem) (out : Bytes)
      (htake : TakesBind d src l d₁) (hout : w.FollowsPipeline → Whole out) :
      Step d (l ++ drops.map .dropped ++ [.ran out, .replied .bindComplete]) { d₁ with resp := out }
  | stub {d d₁ : Talk} {src : BindSource} {l : List Obs} (drops : List FeqItem) (why : Unrun)
      (written resp : Bytes) (htake : TakesBind d src l d₁) (hresp : resp.length = d₁.resp.length)
      (hkept : written = [] → resp = d₁.resp) :
      Step d (l ++ drops.map .dropped ++ [.stub why written, .replied .bindComplete])
        { d₁ with resp := resp }
  | unpark {d : Talk} (hwait : d.wait = .waitingPool) : Step d [] { d with wait := .idle }
  | data {d d' : Talk} {ms : List Bytes} (hears : Hears w d ms d')
      (hmore : ∀ m ∈ ms, Framing.typeOf m ≠ some msgReadyForQuery) :
      Step d [.beData ms.flatten] d'
  | ended {d d' : Talk} {ms : List Bytes} (pending : Bytes) (hears : Hears w d ms d') (hfinal : Final ms) :
      Step d (resultOf d ms pending d')
        { d' with queue := queueAfter d d', resp := respAfter d d', sync := false, wait := .idle }
  | endedCut {d d' : Talk} {ms : List Bytes} (pending resp : Bytes) (hears : Hears w d ms d')
      (hfinal : Final ms) (hcut : Overflowed log) :
      Step d (resultOf d ms pending d') { d' with queue := queueAfter d d', resp := resp }
  | lost {d : Talk} (hwait : d.wait.Runs) :
      Step d [.lost, .replied pipelineError, .replied .readyForQuery]
        { d with resp := [], sync := false, wait := .idle }
  | lostCut {d : Talk} (hwait : d.wait.Runs) (hcut : Overflowed log) :
      Step d [.lost, .replied pipelineError, .replied .readyForQuery] { d with resp := [] }
  | stray {d d' : Talk} {l : List Obs} (hcut : Overflowed was) (hruns : d.wait.Runs)
      (hover : d.status.complete = true) (hlanding : ∀ o ∈ l, o.landing) : Step d l d'
  | closed {d : Talk} : Step d [.closed] d
  | discarded {d : Talk} : Step d [.discarded d.queue] { d with queue := [], wait := .idle }

end

/-- A conversation that begins. -/
def new : Talk := ⟨[], .idle, false, [], .init⟩

/-- A conversation with its history, up to some state. -/
inductive Run (w : Pqwire) (hasPool : Bool) : List Obs → Talk → Prop where
  | new : Run w hasPool [] new
  | step {was l : List Obs} {d d' : Talk} (hrun : Run w hasPool was d)
      (hstep : Step w hasPool was (was ++ l) d (spoken l) d') : Run w hasPool (was ++ l) d'

section

variable {w : Pqwire} {hasPool : Bool} {was log l : List Obs} {d d' : Talk}

theorem Takes.same {it : FeqItem} {o : Obs} (h : Takes d it o d') :
    d'.wait = d.wait ∧ d'.status = d.status ∧ d'.resp = d.resp ∧ d'.sync = d.sync := by
  cases h <;> exact ⟨rfl, rfl, rfl, rfl⟩

theorem Answer.same {it : FeqItem} (h : Answer w hasPool log d it l d') :
    d'.queue = d.queue ∧ d'.wait = d.wait ∧ d'.status = d.status ∧ d'.sync = d.sync := by
  cases h <;> exact ⟨rfl, rfl, rfl, rfl⟩

theorem TakesBind.same {src : BindSource} (h : TakesBind d src l d') :
    d.wait = .idle ∧ d'.wait = .idle ∧ d'.status = d.status := by
  cases h with
  | direct bind startable hidle => exact ⟨hidle, hidle, rfl⟩
  | popped startable hidle => exact ⟨hidle, hidle, rfl⟩

/-- A pipeline that runs is not over, unless bytes were refused when it was. -/
def Goes (log : List Obs) (d : Talk) : Prop := d.wait.Runs → d.status.complete = false ∨ Overflowed log

theorem Step.goes (h : Step w hasPool was log d l d') (hcut : Overflowed was → Overflowed log) (hd : Goes was d) :
    Goes log d' := by
  have hsame : d'.wait = d.wait → d'.status = d.status → Goes log d' := fun hwait hstatus hruns => by
    rw [hstatus]
    exact (hd (hwait ▸ hruns)).imp_right hcut
  have hnever : d'.wait = .idle ∨ d'.wait = .waitingPool → Goes log d' := by
    rintro (hwait | hwait) hruns
    · exact absurd hwait hruns.ne.1
    · exact absurd hwait hruns.ne.2
  cases h with
  | silent | startup | ignore | terminate | push | drop | closed => exact hsame rfl rfl
  | switch wait hwait => exact fun _ => (hd hwait).imp_right hcut
  | answer htake hanswer =>
      obtain ⟨hwait₁, hstatus₁, -⟩ := htake.same
      obtain ⟨-, hwait, hstatus, -⟩ := hanswer.same
      exact hsame (hwait.trans hwait₁) (hstatus.trans hstatus₁)
  | begin => exact fun _ => Or.inl rfl
  | park | putBack => exact hnever (Or.inr rfl)
  | ran drops out htake | stub drops why written resp htake => exact hnever (Or.inl htake.same.2.1)
  | unpark | ended | lost | discarded => exact hnever (Or.inl rfl)
  | data hears hmore =>
      rw [hears.after]
      exact fun _ => Or.inl (fedAll_complete _ _ hears.fresh hmore)
  | endedCut _ _ _ _ hrefused | lostCut _ hrefused => exact fun _ => Or.inr hrefused
  | stray hrefused => exact fun _ => Or.inr (hcut hrefused)

theorem Run.goes (h : Run w hasPool log d) : Goes log d := by
  induction h with
  | new => exact fun hruns => absurd rfl hruns.ne.1
  | step hrun hstep ih => exact hstep.goes (·.append_left _) ih

end

end Talk
