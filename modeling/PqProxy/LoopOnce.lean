import PqProxy.LoopReady

/-! Which results a client gets. As long as nothing fails and the client sends its Execute and its Sync
for each Bind before the next one, and no Sync while a pipeline is running, each result that a backend
produced is delivered once, in order, and none is made up. -/

/-- The requests that a pipeline is made of. -/
inductive Stage where
  | bind
  | execute
  | sync
  deriving DecidableEq

def Event.stage : Event → Option Stage
  | .bind _ => some .bind
  | .execute => some .execute
  | .sync => some .sync
  | _ => none

def FeqItem.stage : FeqItem → Option Stage
  | .bind _ => some .bind
  | .execute => some .execute
  | .sync => some .sync
  | _ => Option.none

def Obs.stage : Obs → Option Stage
  | .received e _ => e.stage
  | _ => none

/-- The requests in the order in which they came. -/
def stages (log : List Obs) : List Stage := log.filterMap Obs.stage

/-- What the last requests were. -/
inductive Phase where
  | free
  | bound
  | executed
  deriving DecidableEq

namespace Phase

/-- Each Bind is followed by its Execute, and that by a Sync. -/
def after : Phase → Stage → Option Phase
  | free, .bind => some bound
  | bound, .execute => some executed
  | executed, .sync | free, .sync => some free
  | _, _ => none

def run (p : Phase) : List Stage → Option Phase
  | [] => some p
  | t :: ts => (p.after t).bind fun q => run q ts

theorem run_append (p : Phase) (ts us : List Stage) :
    p.run (ts ++ us) = (p.run ts).bind fun q => q.run us := by
  induction ts generalizing p with
  | nil => rfl
  | cons t ts ih =>
      rw [List.cons_append, run, run]
      cases p.after t with
      | none => rfl
      | some q => exact ih q

end Phase

/-- The client waits for the end of a pipeline before it sends the Sync, and for each Bind it sends one
Execute and a Sync before the next; no Query of it is forwarded while a response is buffered. -/
structure Paced (log : List Obs) : Prop where
  stages : (Phase.run .free (stages log)).isSome = true
  sync : ¬ EarlySync log
  query : ∀ held, .forwarded held ∈ log → held = 0

/-- The results that backends produced for Binds. -/
def Obs.results : Obs → List Bytes
  | .beData data | .ran data => Framing.ofType msgCommandComplete data
  | _ => []

def backendResults (log : List Obs) : List Bytes := log.flatMap Obs.results

/-- The results that a client was sent so far, and whether what comes next is the answer to a Query. -/
def Obs.deliver (d : List Bytes × Bool) : Obs → List Bytes × Bool
  | .handed _ data => (if d.2 then d.1 else d.1 ++ Framing.ofType msgCommandComplete data, false)
  | .forwarded _ => (d.1, true)
  | _ => (d.1, false)

def clientResults (log : List Obs) : List Bytes := (log.foldl Obs.deliver ([], false)).1

/-- Each result is delivered once when nothing is under way behind a Sync; none is made up, and none is
overwritten before. -/
structure Conn.DeliversOnce (c : Conn) : Prop where
  once : c.Quiescent → (stages (spoken c.log)).getLast? = some .sync →
    clientResults (spoken c.log) = backendResults (spoken c.log)
  genuine : ∀ t, .replied (.commandComplete t) ∉ c.log
  kept : ∀ held startable, .binding held startable ∈ c.log → held = 0

/-- Nothing failed, and every Bind was run. -/
def Obs.flawless : Obs → Bool
  | .stub .. => false
  | o => o.smooth

def Conn.Flawless (c : Conn) : Prop := ∀ o ∈ c.log, o.flawless = true

section

variable {w : Pqwire} {log l m : List Obs}

theorem smooth_of_flawless {o : Obs} (h : o.flawless = true) : o.smooth = true := by
  cases o <;> first | exact h | cases h

theorem Conn.Flawless.smooth {c : Conn} (h : c.Flawless) : c.Smooth :=
  fun o ho => smooth_of_flawless (h o ho)

theorem stages_append (l m : List Obs) : stages (l ++ m) = stages l ++ stages m := List.filterMap_append

theorem backendResults_append (l m : List Obs) :
    backendResults (l ++ m) = backendResults l ++ backendResults m := List.flatMap_append

/-- What is delivered behind entries that do not end with a Query that is forwarded. -/
theorem clientResults_append (h : (l.foldl Obs.deliver ([], false)).2 = false) :
    clientResults (l ++ m) = clientResults l ++ clientResults m := by
  have hshift : ∀ (m : List Obs) (rs : List Bytes) (b : Bool),
      (m.foldl Obs.deliver (rs, b)).1 = rs ++ (m.foldl Obs.deliver ([], b)).1 := by
    intro m
    induction m with
    | nil => exact fun rs b => (List.append_nil rs).symm
    | cons o m ih =>
        intro rs b
        rw [List.foldl_cons, List.foldl_cons]
        cases o with
        | handed pending data =>
            cases b with
            | true => exact ih rs false
            | false =>
                simp only [Obs.deliver, Bool.false_eq_true, if_false, List.nil_append]
                rw [ih (rs ++ _), ih (Framing.ofType msgCommandComplete data), List.append_assoc]
        | _ => exact ih rs _
  rw [clientResults, List.foldl_append, clientResults, clientResults]
  generalize l.foldl Obs.deliver ([], false) = p at h
  obtain ⟨rs, b⟩ := p
  subst h
  exact hshift m rs false

/-- The messages that are results. -/
def resultsOf (ms : List Bytes) : List Bytes :=
  ms.filter fun m => Framing.typeOf m == some msgCommandComplete

theorem resultsOf_append (ms ns : List Bytes) : resultsOf (ms ++ ns) = resultsOf ms ++ resultsOf ns :=
  List.filter_append ..

theorem ofType_result {ms : List Bytes} (h : ∀ m ∈ ms, Framing.Framed m) :
    Framing.ofType msgCommandComplete ms.flatten = resultsOf ms := Framing.ofType_flatten _ h

/-- The messages that reach the frontend. -/
def keptOf (w : Pqwire) (ms : List Bytes) : List Bytes :=
  ms.filter fun m => !w.filterBackendType (m.headD 0) true

/-- Results are kept. -/
theorem resultsOf_keptOf (hw : w.FollowsPipeline) (ms : List Bytes) : resultsOf (keptOf w ms) = resultsOf ms := by
  rw [resultsOf, keptOf, List.filter_filter]
  refine List.filter_congr fun m _ => ?_
  cases htype : Framing.typeOf m == some msgCommandComplete with
  | false => rfl
  | true =>
      have hhead : m.headD 0 = msgCommandComplete := by
        have hhead : Framing.typeOf m = some msgCommandComplete := by simpa using htype
        rw [List.headD_eq_head?_getD]
        exact congrArg (Option.getD · 0) hhead
      rw [hhead, (hw.keeps true).2.2]
      rfl

namespace Talk

variable {d d' : Talk}

/-- How a conversation stands when these messages are buffered. -/
inductive At (d : Talk) (ms : List Bytes) : Phase → Prop where
  | free (hwait : ¬ d.wait.Runs) (hempty : ms = []) : At d ms .free
  | running (hwait : d.wait.Runs) (hsync : d.sync = false) : At d ms .bound
  | bound (hwait : d.wait = .idle) (hsome : ms ≠ []) : At d ms .bound
  | executed (hwait : d.wait = .idle) (hsome : ms ≠ []) : At d ms .executed

/-- What the history tells of the results, when these requests were taken up and these messages are
buffered. -/
structure Once (d : Talk) (log : List Obs) (taken : List Stage) (p : Phase) (ms : List Bytes) : Prop where
  stages : stages log = taken ++ d.queue.filterMap FeqItem.stage
  phase : Phase.run .free taken = some p
  framed : ∀ m ∈ ms, Framing.Framed m
  resp : d.resp = ms.flatten
  stands : d.At ms p
  results : clientResults log ++ resultsOf ms = backendResults log
  settled : (log.foldl Obs.deliver ([], false)).2 = false
  genuine : ∀ t, .replied (.commandComplete t) ∉ log
  kept : ∀ held startable, .binding held startable ∈ log → held = 0

/-- What entries tell of the results, when the buffered messages change with them. -/
structure Shows (l : List Obs) (ms ms' : List Bytes) : Prop where
  results : clientResults l ++ resultsOf ms' = resultsOf ms ++ backendResults l
  settled : ∀ rs, (l.foldl Obs.deliver (rs, false)).2 = false
  genuine : ∀ t, .replied (.commandComplete t) ∉ l
  kept : ∀ held startable, .binding held startable ∈ l → held = 0

variable {taken taken' : List Stage} {p p' : Phase} {ms ms' : List Bytes}

theorem Once.goesOn (h : Once d log taken p ms) (hl : Shows l ms ms')
    (hstages : taken' ++ d'.queue.filterMap FeqItem.stage =
      taken ++ d.queue.filterMap FeqItem.stage ++ l.filterMap Obs.stage)
    (hphase : Phase.run .free taken' = some p') (hframed : ∀ m ∈ ms', Framing.Framed m)
    (hresp : d'.resp = ms'.flatten) (hstands : d'.At ms' p') : Once d' (log ++ l) taken' p' ms' where
  stages := by
    rw [stages_append, h.stages]
    exact hstages.symm
  phase := hphase
  framed := hframed
  resp := hresp
  stands := hstands
  results := by
    rw [clientResults_append h.settled, backendResults_append, ← h.results, List.append_assoc, hl.results,
      List.append_assoc]
  settled := by
    have hold := h.settled
    rw [List.foldl_append]
    generalize log.foldl Obs.deliver ([], false) = r at hold ⊢
    obtain ⟨rs, b⟩ := r
    subst hold
    exact hl.settled rs
  genuine t hmem := (List.mem_append.mp hmem).elim (h.genuine t) (hl.genuine t)
  kept held startable hmem := (List.mem_append.mp hmem).elim (h.kept held startable) (hl.kept held startable)

/-- Entries that tell nothing of the results. -/
def mute : Obs → Bool
  | .handed .. | .forwarded _ | .beData _ | .ran _ | .replied (.commandComplete _) | .binding .. => false
  | _ => true

namespace Shows

theorem append {ms₁ : List Bytes} (h : Shows l ms ms₁) (k : Shows m ms₁ ms') : Shows (l ++ m) ms ms' where
  results := by
    rw [clientResults_append (h.settled []), backendResults_append, List.append_assoc, k.results,
      ← List.append_assoc, h.results, List.append_assoc]
  settled rs := by
    have hold := h.settled rs
    rw [List.foldl_append]
    generalize l.foldl Obs.deliver (rs, false) = r at hold ⊢
    obtain ⟨rs', b⟩ := r
    subst hold
    exact k.settled rs'
  genuine t hmem := (List.mem_append.mp hmem).elim (h.genuine t) (k.genuine t)
  kept held startable hmem := (List.mem_append.mp hmem).elim (h.kept held startable) (k.kept held startable)

theorem of_mute (h : ∀ o ∈ l, mute o = true) : Shows l ms ms := by
  have hfold : ∀ rs, l.foldl Obs.deliver (rs, false) = (rs, false) := by
    induction l with
    | nil => exact fun _ => rfl
    | cons o l ih =>
        intro rs
        have ho := h o List.mem_cons_self
        have hstep : Obs.deliver (rs, false) o = (rs, false) := by
          cases o <;> first | rfl | cases ho
        rw [List.foldl_cons, hstep]
        exact ih (fun a ha => h a (List.mem_cons_of_mem o ha)) rs
  have hresults : backendResults l = [] := by
    refine List.flatMap_eq_nil_iff.mpr fun o ho => ?_
    have hmute := h o ho
    cases o <;> first | rfl | cases hmute
  refine ⟨?_, fun rs => congrArg Prod.snd (hfold rs), fun t hmem => ?_, fun held startable hmem => ?_⟩
  · rw [clientResults, hfold, hresults, List.append_nil]
    rfl
  · cases h _ hmem
  · cases h _ hmem

/-- A response is handed over. -/
theorem handed (pending : Bytes) (h : ∀ m ∈ ms, Framing.Framed m) :
    Shows [.handed pending ms.flatten] ms [] where
  results := by
    have hfold : clientResults [.handed pending ms.flatten] = resultsOf ms := ofType_result h
    rw [hfold]
    rfl
  settled _ := rfl
  genuine := by simp
  kept := by simp

/-- Messages come from a backend, and some of them are kept. -/
theorem beData (hw : w.FollowsPipeline) {ns : List Bytes} (h : ∀ m ∈ ns, Framing.Framed m) :
    Shows [.beData ns.flatten] ms (ms ++ keptOf w ns) where
  results := by
    have hresults : backendResults [.beData ns.flatten] = resultsOf ns := by
      rw [← ofType_result h]
      exact List.append_nil _
    rw [hresults, resultsOf_append, resultsOf_keptOf hw]
    rfl
  settled _ := rfl
  genuine := by simp
  kept := by simp

/-- A Bind is run by blocking calls. -/
theorem ran (h : ∀ m ∈ ms', Framing.Framed m) : Shows [.ran ms'.flatten] [] ms' where
  results := by
    have hresults : backendResults [.ran ms'.flatten] = resultsOf ms' := by
      rw [← ofType_result h]
      exact List.append_nil _
    rw [hresults]
    rfl
  settled _ := rfl
  genuine := by simp
  kept := by simp

/-- A Query is answered by its backend while nothing is buffered. -/
theorem forwarded (held : Nat) (pending data : Bytes) :
    Shows [.forwarded held, .handed pending data] ms ms where
  results := (List.append_nil _).symm
  settled _ := rfl
  genuine := by simp
  kept := by simp

theorem failed (held : Nat) {r r' : Reply} (hr : ∀ t, r ≠ .commandComplete t)
    (hr' : ∀ t, r' ≠ .commandComplete t) : Shows [.forwarded held, .replied r, .replied r'] ms ms where
  results := (List.append_nil _).symm
  settled _ := rfl
  genuine t hmem := by
    simp only [List.mem_cons, Obs.replied.injEq, List.not_mem_nil, or_false, reduceCtorEq, false_or] at hmem
    exact hmem.elim (fun h => hr t h.symm) fun h => hr' t h.symm
  kept := by simp

/-- A Bind is taken up while nothing is buffered. -/
theorem binding (startable : Bool) : Shows [.binding 0 startable] ms ms where
  results := (List.append_nil _).symm
  settled _ := rfl
  genuine := by simp
  kept held s hmem := by
    simp at hmem
    exact hmem.1

end Shows

/-- The requests that were taken up, with the next one, are in order. -/
theorem Once.phase_of (h : Once d log taken p ms) {s : Stage} {rest : List Stage}
    (hpaced : (Phase.run .free (taken ++ s :: rest)).isSome = true) :
    ∃ q, p.after s = some q ∧ Phase.run .free (taken ++ [s]) = some q := by
  rw [Phase.run_append, h.phase] at hpaced ⊢
  change ((p.after s).bind fun q => q.run rest).isSome = true at hpaced
  change ∃ q, p.after s = some q ∧ ((p.after s).bind fun q => some q) = some q
  cases hq : p.after s with
  | none =>
      rw [hq] at hpaced
      cases hpaced
  | some q => exact ⟨q, rfl, rfl⟩

/-- Nothing is taken up, and what is buffered stays. -/
theorem Once.still (h : Once d log taken p ms) (hl : Shows l ms ms)
    (hqueue : d'.queue.filterMap FeqItem.stage =
      d.queue.filterMap FeqItem.stage ++ l.filterMap Obs.stage)
    (hresp : d'.resp = d.resp) (hstands : d'.At ms p) : Once d' (log ++ l) taken p ms := by
  refine h.goesOn hl ?_ h.phase h.framed (hresp.trans h.resp) hstands
  rw [hqueue, List.append_assoc]

theorem At.congr (h : d.At ms p) (hwait : d'.wait = d.wait) (hsync : d'.sync = d.sync) : d'.At ms p := by
  cases h with
  | free hruns hempty => exact .free (hwait ▸ hruns) hempty
  | running hruns hoff => exact .running (hwait ▸ hruns) (hsync.trans hoff)
  | bound hidle hsome => exact .bound (hwait.trans hidle) hsome
  | executed hidle hsome => exact .executed (hwait.trans hidle) hsome

/-- An idle conversation has a response buffered from its Bind to its Sync. -/
theorem At.of_idle (h : d.At ms p) (hwait : d.wait = .idle) : p = .free ↔ ms = [] := by
  cases h with
  | free hruns hempty => exact iff_of_true rfl hempty
  | running hruns => exact absurd (hwait ▸ hruns) fun h => h.ne.1 rfl
  | bound hidle hsome => exact iff_of_false nofun hsome
  | executed hidle hsome => exact iff_of_false nofun hsome

theorem Once.resp_eq_nil (h : Once d log taken p ms) : d.resp = [] ↔ ms = [] := by
  rw [h.resp]
  constructor
  · intro hnil
    cases ms with
    | nil => rfl
    | cons m ms =>
        have hm := (h.framed m List.mem_cons_self).ne_nil
        exact absurd (List.append_eq_nil_iff.mp hnil).1 hm
  · rintro rfl
    rfl

/-- A request is taken up: it came before, or comes just now. -/
theorem Takes.stages {it : FeqItem} {o : Obs} (h : Takes d it o d') :
    it.stage.toList ++ d'.queue.filterMap FeqItem.stage =
      d.queue.filterMap FeqItem.stage ++ [o].filterMap Obs.stage := by
  cases h with
  | @direct e it hwork hidle hqueue =>
      rw [hqueue]
      cases e <;> cases hwork <;> rfl
  | popped hidle hqueue =>
      rw [hqueue, List.filterMap_cons]
      cases it <;> simp [FeqItem.stage, Obs.stage]

theorem TakesBind.stages {src : BindSource} (h : TakesBind d src l d') :
    .bind :: d'.queue.filterMap FeqItem.stage =
      d.queue.filterMap FeqItem.stage ++ l.filterMap Obs.stage := by
  cases h with
  | direct bind startable hidle hqueue =>
      rw [hqueue]
      rfl
  | popped startable hidle hqueue =>
      rw [hqueue]
      exact (List.append_nil _).symm

theorem Answer.stages {hasPool : Bool} {it : FeqItem} (h : Answer w hasPool m d it l d') :
    l.filterMap Obs.stage = [] := by
  cases h <;> rfl

theorem Takes.mute {it : FeqItem} {o : Obs} (h : Takes d it o d') : mute o = true := by
  cases h <;> rfl

/-- A request other than a Bind is answered: an Execute whose response is buffered gets nothing of its
own, and a Sync behind it gets the response. -/
theorem Once.answers (h : Once d log taken p ms) {it : FeqItem} {o : Obs} {d₁ : Talk}
    (htake : Takes d it o d₁) (hanswer : Answer w true m d₁ it l d') (hcut : ¬ Overflowed m)
    (hfull : .cacheFull ∉ l) (hforward : ∀ held, .forwarded held ∈ l → held = 0)
    (hpaced : (Phase.run .free (taken ++ d.queue.filterMap FeqItem.stage ++
      (o :: l).filterMap Obs.stage)).isSome = true) :
    ∃ taken' p' ms', Once d' (log ++ o :: l) taken' p' ms' := by
  have hidle : d.wait = .idle := by cases htake <;> assumption
  have hwait' : d'.wait = .idle := hanswer.same.2.1.trans (htake.same.1.trans hidle)
  have hsync' : d'.sync = d.sync := hanswer.same.2.2.2.trans htake.same.2.2.2
  have hstages : d.queue.filterMap FeqItem.stage ++ (o :: l).filterMap Obs.stage =
      it.stage.toList ++ d'.queue.filterMap FeqItem.stage := by
    rw [hanswer.same.1, htake.stages, ← List.singleton_append, List.filterMap_append, hanswer.stages,
      List.append_nil]
  rw [List.append_assoc, hstages] at hpaced
  have hresp : d₁.resp = d.resp := htake.same.2.2.1
  have hshow : ∀ {ms' : List Bytes}, Shows l ms ms' → Shows (o :: l) ms ms' := fun hl =>
    (Shows.of_mute (l := [o]) (by simpa using htake.mute)).append hl
  -- a request that is no part of a pipeline leaves what is buffered
  have hother : it.stage = none → Shows l ms ms → d'.resp = d.resp →
      ∃ taken' p' ms', Once d' (log ++ o :: l) taken' p' ms' := fun hnone hl hsame => by
    refine ⟨taken, p, ms, h.goesOn (hshow hl) ?_ h.phase h.framed (hsame.trans h.resp)
      (h.stands.congr (hwait'.trans hidle.symm) hsync')⟩
    rw [List.append_assoc, hstages, hnone]
    rfl
  have htakes : ∀ {s : Stage} {q : Phase} {ms' : List Bytes}, it.stage = some s →
      Phase.run .free (taken ++ [s]) = some q → Shows l ms ms' → (∀ m ∈ ms', Framing.Framed m) →
        d'.resp = ms'.flatten → d'.At ms' q → ∃ taken' p' ms', Once d' (log ++ o :: l) taken' p' ms' :=
    fun {s q ms'} hstage hphase hl hframed hnext hstands => by
      refine ⟨taken ++ [s], q, ms', h.goesOn (hshow hl) ?_ hphase hframed hnext hstands⟩
      rw [List.append_assoc, List.append_assoc, hstages, hstage]
      rfl
  have hempty : ms = [] ↔ p = .free := (h.stands.of_idle hidle).symm
  cases hanswer with
  | none | terminate => exact hother rfl (.of_mute (by simp)) hresp
  | parse | reject => exact hother rfl (.of_mute (by simp [mute])) hresp
  | full => exact absurd List.mem_cons_self hfull
  | stub hstub =>
      obtain ⟨q, hq, -⟩ := h.phase_of hpaced
      have hnil := (h.resp_eq_nil.mp (hresp ▸ hstub.resolve_left nofun))
      rw [hempty.mp hnil] at hq
      cases hq
  | done hpool hne =>
      obtain ⟨q, hq, hphase⟩ := h.phase_of hpaced
      have hsome : ms ≠ [] := fun hnil => hne (hresp.trans (h.resp_eq_nil.mpr hnil))
      refine htakes rfl hphase (.of_mute (by simp)) h.framed (hresp.trans h.resp) ?_
      cases p with
      | bound =>
          cases hq
          exact .executed hwait' hsome
      | free | executed => cases hq
  | ready hnil =>
      obtain ⟨q, hq, hphase⟩ := h.phase_of hpaced
      have hms : ms = [] := h.resp_eq_nil.mp (hresp ▸ hnil)
      rw [hempty.mp hms] at hq
      cases hq
      refine htakes rfl hphase (.of_mute (by simp [mute])) h.framed (hresp.trans h.resp) ?_
      exact .free (hwait' ▸ fun hruns => hruns.ne.1 rfl) hms
  | flush pending hne =>
      obtain ⟨q, hq, hphase⟩ := h.phase_of hpaced
      have hsome : ms ≠ [] := fun hnil => hne (hresp.trans (h.resp_eq_nil.mpr hnil))
      have hfree : q = .free := by
        cases p with
        | free => exact absurd (hempty.mpr rfl) hsome
        | bound => cases hq
        | executed =>
            cases hq
            rfl
      have hl : Shows [.handed pending d₁.resp] ms [] := by
        rw [hresp, h.resp]
        exact .handed pending h.framed
      refine htakes rfl hphase hl (fun m hm => absurd hm List.not_mem_nil) rfl ?_
      rw [hfree]
      exact .free (hwait' ▸ fun hruns => hruns.ne.1 rfl) rfl
  | flushCut pending hne hover => exact absurd hover hcut
  | forward sql pending out resp hout hlen =>
      have hzero := List.length_eq_zero_iff.mp (hforward _ List.mem_cons_self)
      rw [hzero] at hlen
      refine hother rfl (.forwarded ..) ?_
      exact (List.length_eq_zero_iff.mp hlen).trans (hresp ▸ hzero).symm
  | failed sql resp hlen =>
      have hzero := List.length_eq_zero_iff.mp (hforward _ List.mem_cons_self)
      rw [hzero] at hlen
      refine hother rfl (.failed _ nofun nofun) ?_
      exact (List.length_eq_zero_iff.mp hlen).trans (hresp ▸ hzero).symm

/-- The pipeline is over, and its response waits for the Sync. -/
theorem Once.ended (hw : w.FollowsPipeline) (h : Once d log taken p ms) {d₁ : Talk} {ns : List Bytes}
    (pending : Bytes) (hears : d.Hears w ns d₁) (hfinal : Final ns)
    (hsmooth : ∀ o ∈ d.resultOf ns pending d₁, o.smooth = true) :
    ∃ ms', Once { d₁ with queue := d.queueAfter d₁, resp := d.respAfter d₁, sync := false, wait := .idle }
      (log ++ d.resultOf ns pending d₁) taken p ms' := by
  have hok : d₁.status.sawError = false := by
    by_contra hsaw
    rw [Bool.not_eq_false] at hsaw
    rw [resultOf_eq, hsaw] at hsmooth
    exact absurd (hsmooth (.completed true) (by simp)) nofun
  obtain ⟨hsync, rfl⟩ : d.sync = false ∧ p = .bound := by
    cases h.stands with
    | free hwait => exact absurd hears.runs hwait
    | running hwait hsync => exact ⟨hsync, rfl⟩
    | bound hidle => exact absurd (hidle ▸ hears.runs) fun h => h.ne.1 rfl
    | executed hidle => exact absurd (hidle ▸ hears.runs) fun h => h.ne.1 rfl
  have hsaid : d.resultOf ns pending d₁ = [.beData ns.flatten] ++ [.completed false, .replied .bindComplete] := by
    simp [resultOf, hok, hsync]
  have hresp : d.respAfter d₁ = (ms ++ keptOf w ns).flatten := by
    rw [respAfter, if_neg (by simp [hok, hsync]), hears.after, List.flatten_append, ← h.resp]
    rfl
  have hqueue : d.queueAfter d₁ = d.queue := if_neg (by simp [hok])
  refine ⟨ms ++ keptOf w ns, ?_⟩
  rw [hsaid]
  refine h.goesOn ((Shows.beData hw hears.framed).append (.of_mute (by simp [mute]))) ?_ h.phase ?_ hresp ?_
  · rw [hqueue]
    exact (List.append_nil _).symm
  · exact fun m hm => (List.mem_append.mp hm).elim (h.framed m) fun h => hears.framed m (List.mem_filter.mp h).1
  · refine .bound rfl fun hnil => ?_
    -- the ReadyForQuery is kept
    obtain ⟨init, last, rfl, -, hlast⟩ := hfinal
    have hhead : last.headD 0 = msgReadyForQuery := by
      rw [List.headD_eq_head?_getD]
      exact congrArg (Option.getD · 0) hlast
    have hmem : last ∈ keptOf w (init ++ [last]) :=
      List.mem_filter.mpr ⟨by simp, by rw [hhead, (hw.keeps true).1]; rfl⟩
    have hin := List.mem_append_right ms hmem
    rw [hnil] at hin
    exact absurd hin List.not_mem_nil

/-- A Bind is taken up while nothing is buffered. -/
theorem Once.takesBind (h : Once d log taken p ms) {src : BindSource} {d₁ : Talk}
    (htake : TakesBind d src l d₁) {rest : List Stage}
    (hpaced : (Phase.run .free (taken ++ d.queue.filterMap FeqItem.stage ++
      (l.filterMap Obs.stage ++ rest))).isSome = true) :
    p = .free ∧ ms = [] ∧ Phase.run .free (taken ++ [.bind]) = some .bound ∧ d₁.resp = [] ∧ Shows l [] [] := by
  rw [List.append_assoc, ← List.append_assoc (d.queue.filterMap FeqItem.stage), ← htake.stages] at hpaced
  obtain ⟨q, hq, hphase⟩ := h.phase_of hpaced
  have hfree : p = .free ∧ q = .bound := by
    cases p with
    | free =>
        cases hq
        exact ⟨rfl, rfl⟩
    | bound | executed => cases hq
  obtain ⟨rfl, rfl⟩ := hfree
  have hms : ms = [] := (h.stands.of_idle htake.same.1).mp rfl
  have hresp : d.resp = [] := h.resp_eq_nil.mpr hms
  refine ⟨rfl, hms, hphase, ?_, ?_⟩
  · cases htake with
    | direct => rfl
    | popped => exact hresp
  · cases htake with
    | direct bind startable =>
        rw [hresp]
        exact (Shows.of_mute (l := [_]) (by simp [mute])).append (.binding startable)
    | popped startable =>
        rw [hresp]
        exact (Shows.of_mute (l := [_]) (by simp [mute])).append (.binding startable)

theorem mute_dropped (drops : List FeqItem) : ∀ o ∈ drops.map Obs.dropped, mute o = true := by
  simp [mute]

theorem stages_dropped (drops : List FeqItem) : (drops.map Obs.dropped).filterMap Obs.stage = [] := by
  simp [Obs.stage]

theorem Step.once (hw : w.FollowsPipeline) {was log' : List Obs} (h : Step w true was log' d l d')
    (hd : Once d log taken p ms) (hcut : ¬ Overflowed was) (hcut' : ¬ Overflowed log')
    (hwell : ∀ o ∈ l, o.flawless = true) (hforward : ∀ held, .forwarded held ∈ l → held = 0)
    (hpaced : (Phase.run .free (taken ++ d.queue.filterMap FeqItem.stage ++
      l.filterMap Obs.stage)).isSome = true) (hearly : ¬ EarlySync l) :
    ∃ taken' p' ms', Once d' (log ++ l) taken' p' ms' := by
  have hidle : ¬ BeWait.idle.Runs := fun hruns => hruns.ne.1 rfl
  have hparked : ¬ BeWait.waitingPool.Runs := fun hruns => hruns.ne.2 rfl
  have hnever : ∀ {o : Obs} {P : Prop}, o.flawless = false → o ∈ l → P := fun ho hmem => by
    have := hwell _ hmem
    rw [ho] at this
    cases this
  have hsame : l.filterMap Obs.stage = [] → (∀ o ∈ l, mute o = true) → d' = d →
      ∃ taken' p' ms', Once d' (log ++ l) taken' p' ms' := fun hstages hmute heq => by
    refine ⟨taken, p, ms, hd.still (.of_mute hmute) ?_ (heq ▸ rfl) (heq ▸ hd.stands)⟩
    rw [heq, hstages, List.append_nil]
  cases h with
  | silent => exact hsame rfl (by simp) rfl
  | startup => exact hsame rfl (by simp [mute]) rfl
  | ignore => exact hsame rfl (by simp [mute]) rfl
  | terminate => exact hsame rfl (by simp [mute]) rfl
  | switch wait hwait hwait' =>
      refine ⟨taken, p, ms, hd.still (.of_mute (by simp)) (List.append_nil _).symm rfl ?_⟩
      cases hd.stands with
      | free hnot => exact absurd hwait hnot
      | running _ hsync => exact .running hwait' hsync
      | bound hrest => exact absurd (hrest ▸ hwait) hidle
      | executed hrest => exact absurd (hrest ▸ hwait) hidle
  | @push e it hbusy hitem =>
      refine ⟨taken, p, ms, hd.still (.of_mute (by simp [mute])) ?_ rfl ?_⟩
      · rw [List.filterMap_append]
        cases e <;> simp [Event.item] at hitem <;> first | (subst hitem; rfl) | skip
        obtain ⟨a, -, rfl⟩ := hitem
        rfl
      · cases hd.stands with
        | free hnot hempty => exact .free hnot hempty
        | running hwait hsync =>
            refine .running hwait ?_
            have hne : e ≠ .sync := by
              rintro rfl
              exact hearly ⟨d.wait, hwait, List.mem_cons_self⟩
            simp [hsync, hne]
        | bound hrest => exact absurd hrest hbusy
        | executed hrest => exact absurd hrest hbusy
  | drop => exact hnever (o := .dropped _) rfl (List.mem_cons_of_mem _ List.mem_cons_self)
  | @answer d₁ _ it o l' htake hanswer =>
      refine hd.answers htake hanswer hcut' (fun hmem => ?_) (fun held hmem => ?_) hpaced
      · exact hnever (o := .cacheFull) rfl (List.mem_cons_of_mem o hmem)
      · exact hforward held (List.mem_cons_of_mem o hmem)
  | @begin d₁ src l₁ htake =>
      rw [List.filterMap_append] at hpaced
      obtain ⟨rfl, rfl, hphase, hresp, hshow⟩ := hd.takesBind htake hpaced
      refine ⟨taken ++ [.bind], .bound, [], hd.goesOn (hshow.append (.of_mute (by simp [mute]))) ?_ hphase
        hd.framed rfl (.running (Or.inl rfl) rfl)⟩
      rw [List.filterMap_append, List.append_assoc, List.append_assoc]
      exact congrArg (taken ++ ·) (htake.stages.trans (by simp [Obs.stage]))
  | @park d₁ bind l₁ it drops htake hitem =>
      rw [List.filterMap_append, List.filterMap_append,
        List.append_assoc (l₁.filterMap Obs.stage)] at hpaced
      obtain ⟨rfl, rfl, hphase, hresp, hshow⟩ := hd.takesBind htake hpaced
      refine ⟨taken, .free, [], hd.goesOn ((hshow.append (.of_mute (mute_dropped drops))).append
        (.of_mute (by simp [mute]))) ?_ hd.phase hd.framed hresp (.free hparked rfl)⟩
      rw [List.filterMap_append (f := Obs.stage), List.filterMap_append (f := Obs.stage), stages_dropped]
      cases htake with
      | direct _ startable hwait hqueue =>
          rw [hqueue]
          simp [Obs.stage, FeqItem.stage, Event.stage]
  | @putBack d₁ it l₁ drops htake =>
      rw [List.filterMap_append, List.filterMap_append,
        List.append_assoc (l₁.filterMap Obs.stage)] at hpaced
      obtain ⟨rfl, rfl, hphase, hresp, hshow⟩ := hd.takesBind htake hpaced
      refine ⟨taken, .free, [], hd.goesOn ((hshow.append (.of_mute (mute_dropped drops))).append
        (.of_mute (by simp [mute]))) ?_ hd.phase hd.framed hresp (.free hparked rfl)⟩
      rw [List.filterMap_append (f := Obs.stage), List.filterMap_append (f := Obs.stage), stages_dropped]
      cases htake with
      | popped startable hwait hqueue =>
          rw [hqueue]
          simp [Obs.stage, FeqItem.stage]
  | @ran d₁ src l₁ drops out htake hout =>
      rw [List.filterMap_append, List.filterMap_append,
        List.append_assoc (l₁.filterMap Obs.stage)] at hpaced
      obtain ⟨rfl, rfl, hphase, hresp, hshow⟩ := hd.takesBind htake hpaced
      obtain ⟨body, last, hbody, hlast, -, rfl⟩ := hout hw
      have hframed : ∀ m ∈ body ++ [last], Framing.Framed m := fun m hm =>
        (List.mem_append.mp hm).elim (fun h => (hbody m h).1) fun h => List.mem_singleton.mp h ▸ hlast
      have hflat : body.flatten ++ last = (body ++ [last]).flatten := by simp
      rw [hflat]
      refine ⟨taken ++ [.bind], .bound, body ++ [last], hd.goesOn
        ((hshow.append (.of_mute (mute_dropped drops))).append
          ((Shows.ran hframed).append (m := [.replied .bindComplete]) (.of_mute (by simp [mute])))) ?_ hphase hframed rfl
        (.bound htake.same.2.1 (by simp))⟩
      rw [List.filterMap_append, List.filterMap_append, stages_dropped, List.append_nil, List.append_assoc,
        List.append_assoc]
      exact congrArg (taken ++ ·) (htake.stages.trans (by simp [Obs.stage]))
  | stub drops why written resp htake =>
      exact hnever (o := .stub why written) rfl (List.mem_append_right _ List.mem_cons_self)
  | unpark hwait =>
      refine ⟨taken, p, ms, hd.still (.of_mute (by simp)) (List.append_nil _).symm rfl ?_⟩
      cases hd.stands with
      | free hnot hempty => exact .free hidle hempty
      | running hruns => exact absurd (hwait ▸ hruns) hparked
      | bound hrest =>
          rw [hrest] at hwait
          cases hwait
      | executed hrest =>
          rw [hrest] at hwait
          cases hwait
  | @data _ ns hears hmore =>
      rw [hears.after]
      refine ⟨taken, p, ms ++ keptOf w ns, hd.goesOn (.beData hw hears.framed) ?_ hd.phase ?_ ?_ ?_⟩
      · exact (List.append_nil _).symm
      · exact fun m hm => (List.mem_append.mp hm).elim (hd.framed m)
          fun h => hears.framed m (List.mem_filter.mp h).1
      · rw [List.flatten_append, ← hd.resp]
        rfl
      · cases hd.stands with
        | free hnot => exact absurd hears.runs hnot
        | running hwait hsync => exact .running hwait hsync
        | bound hrest => exact absurd (hrest ▸ hears.runs) hidle
        | executed hrest => exact absurd (hrest ▸ hears.runs) hidle
  | ended pending hears hfinal =>
      obtain ⟨ms', hnext⟩ := hd.ended hw pending hears hfinal fun o ho => smooth_of_flawless (hwell o ho)
      exact ⟨taken, p, ms', hnext⟩
  | endedCut pending resp hears hfinal hover => exact absurd hover hcut'
  | lost => exact hnever (o := .lost) rfl List.mem_cons_self
  | lostCut => exact hnever (o := .lost) rfl List.mem_cons_self
  | stray hover => exact absurd hover hcut
  | closed => exact hnever (o := .closed) rfl List.mem_cons_self
  | discarded => exact hnever (o := .discarded _) rfl List.mem_cons_self

theorem Once.new : Once .new [] [] .free [] where
  stages := rfl
  phase := rfl
  framed _ hm := absurd hm List.not_mem_nil
  resp := rfl
  stands := .free (fun hruns => hruns.ne.1 rfl) rfl
  results := rfl
  settled := rfl
  genuine _ hmem := absurd hmem List.not_mem_nil
  kept _ _ hmem := absurd hmem List.not_mem_nil

theorem Run.once (hw : w.FollowsPipeline) (h : Run w true log d) (hcut : ¬ Overflowed log)
    (hwell : ∀ o ∈ log, o.flawless = true) (hpaced : Paced (spoken log)) :
    ∃ taken p ms, Once d (spoken log) taken p ms := by
  induction h with
  | new => exact ⟨[], .free, [], .new⟩
  | @step was l d d' hrun hstep ih =>
      have hcut' : ¬ Overflowed was := fun h => hcut (h.append_left l)
      rw [spoken_append] at hpaced ⊢
      obtain ⟨hstages, hsync, hquery⟩ := hpaced
      rw [stages_append] at hstages
      rw [earlySync_append, not_or] at hsync
      have hbefore : (Phase.run .free (stages (spoken was))).isSome = true := by
        rw [Phase.run_append] at hstages
        cases hrun : Phase.run .free (stages (spoken was)) with
        | none =>
            rw [hrun] at hstages
            cases hstages
        | some q => rfl
      obtain ⟨taken, p, ms, hd⟩ := ih hcut' (fun o ho => hwell o (List.mem_append_left l ho))
        ⟨hbefore, hsync.1, fun held hmem => hquery held (List.mem_append_left _ hmem)⟩
      rw [hd.stages] at hstages
      refine hstep.once hw hd hcut' hcut (fun o ho => ?_) (fun held hmem => ?_) hstages hsync.2
      · exact hwell o (List.mem_append_right was (List.mem_filter.mp ho).1)
      · exact hquery held (List.mem_append_right _ hmem)

end Talk

/-- As long as nothing fails, a client that keeps the pace gets each of its results once. -/
theorem results_delivered_once (hw : w.Appends) (hf : w.FollowsPipeline) (hp : w.Peeks) {env : Env}
    (cfg : Config) (now : Nat) (inputs : List Input) (i : Slot) :
    let s := start env cfg true now
    let c := (Runs.run (step w env) s inputs).conns i
    s.pool.isSome = true → c.Flawless → Paced (spoken c.log) → c.DeliversOnce := by
  intro s c hpool hwell hpaced
  obtain ⟨hupset, hcut⟩ := hwell.smooth.calm
  obtain ⟨d, hd⟩ := (run_converses hw hf hp env cfg true now inputs i).resolve_left hupset
  have hrun : Talk.Run w true c.log d := hpool ▸ hd.run
  obtain ⟨taken, p, ms, honce⟩ := hrun.once hf hcut hwell hpaced
  refine ⟨fun hquiet hlast => ?_, fun t hmem => ?_, fun held startable hmem => ?_⟩
  · have hidle : d.wait = .idle := hd.of.wait.symm.trans hquiet.idle
    have hqueue : d.queue = [] := hd.of.queue.symm.trans hquiet.queue
    have hfree : p = .free := by
      obtain ⟨before, hbefore⟩ := List.getLast?_eq_some_iff.mp hlast
      have hphase := honce.phase
      have hstages := honce.stages
      rw [hbefore, hqueue, List.filterMap_nil, List.append_nil] at hstages
      rw [← hstages, Phase.run_append] at hphase
      cases hp : Phase.run .free before with
      | none =>
          rw [hp] at hphase
          cases hphase
      | some q =>
          rw [hp] at hphase
          cases q <;> cases hphase <;> rfl
    have hempty : ms = [] := (honce.stands.of_idle hidle).mp hfree
    have hresults := honce.results
    rwa [hempty, show resultsOf [] = [] from rfl, List.append_nil] at hresults
  · exact honce.genuine t (List.mem_filter.mpr ⟨hmem, rfl⟩)
  · exact honce.kept held startable (List.mem_filter.mpr ⟨hmem, rfl⟩)

/-- The result of a backend, and its ReadyForQuery. -/
def resultBytes : Bytes :=
  [67, 0, 0, 0, 13, 68, 69, 76, 69, 84, 69, 32, 49, 0, 90, 0, 0, 0, 5, 73]

/-- Two pipelines, one after the other; the Sync of each comes when it is over. -/
def pacedInputs : List Input :=
  [accepts 0, receives 0 [.startup, .parse smallParse, .bind smallBind, .execute],
    .complete 0 1 (.sent 77), .complete 0 3 (.data resultBytes),
    receives 2 [.sync, .bind smallBind, .execute], .complete 0 2 (.sent 77),
    .complete 0 3 (.data resultBytes), receives 2 [.sync]]

theorem results_delivered_once_paced :
    let c := (smallRun pacedInputs).conns ⟨0, by decide⟩
    c.DeliversOnce ∧ c.Quiescent ∧ (clientResults (spoken c.log)).length = 2 := by
  have hpool : smallServer.pool.isSome = true := by decide +kernel
  have hwell : ∀ o ∈ ((smallRun pacedInputs).conns ⟨0, by decide⟩).log, o.flawless = true := by
    decide +kernel
  have hstages : (Phase.run .free
      (stages (spoken ((smallRun pacedInputs).conns ⟨0, by decide⟩).log))).isSome = true := by
    decide +kernel
  have hlate : ¬ EarlySync (spoken ((smallRun pacedInputs).conns ⟨0, by decide⟩).log) := by
    rintro ⟨wait, rfl | rfl, hmem⟩
    · exact absurd hmem (by decide +kernel)
    · exact absurd hmem (by decide +kernel)
  have hnone : ∀ o ∈ spoken ((smallRun pacedInputs).conns ⟨0, by decide⟩).log,
      (match o with | .forwarded _ => false | _ => true) = true := by decide +kernel
  have hquiet : ((smallRun pacedInputs).conns ⟨0, by decide⟩).Quiescent :=
    ⟨by decide +kernel, by decide +kernel, by decide +kernel⟩
  have hlength : (clientResults
      (spoken ((smallRun pacedInputs).conns ⟨0, by decide⟩).log)).length = 2 := by decide +kernel
  refine ⟨?_, hquiet, hlength⟩
  rw [smallServer] at hpool
  rw [smallRun, smallServer] at hwell hstages hlate hnone ⊢
  refine results_delivered_once WirePg.appends WirePg.followsPipeline WirePg.peeks smallConfig 0
    pacedInputs _ hpool hwell ⟨hstages, hlate, fun held hmem => ?_⟩
  cases hnone _ hmem

/-- A whole pipeline in one chunk: a result is made up for its Execute. -/
theorem not_delivers_once :
    let c := (smallRun servedInputs).conns ⟨0, by decide⟩
    c.Flawless ∧ stages c.log = [.bind, .execute, .sync] ∧ ¬ c.DeliversOnce := by
  have hwell : ∀ o ∈ ((smallRun servedInputs).conns ⟨0, by decide⟩).log, o.flawless = true := by
    decide +kernel
  have hstub : .replied (.commandComplete "SELECT 0".toList) ∈
      ((smallRun servedInputs).conns ⟨0, by decide⟩).log := by decide +kernel
  exact ⟨hwell, by decide +kernel, fun h => h.genuine _ hstub⟩

end
