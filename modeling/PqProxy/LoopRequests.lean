import PqProxy.LoopTalk

/-! The requests of a client, numbered in the order in which they came. The history tells which of them is
taken up and how the pipelines end; so one can tell to which Bind a request belongs, and which requests
stand between a pipeline that came to nothing and the Sync behind it. -/

/-- A message that is answered in its turn. -/
def Event.request : Event → Bool
  | .startup | .terminate | .other => false
  | _ => true

def Event.isBind : Event → Bool
  | .bind _ => true
  | _ => false

/-- How a pipeline comes to nothing: it ends with an error, or is lost. -/
inductive Failure where
  | error
  | lost

/-- What a history tells of the requests so far. -/
structure Requests where
  came : List Event
  /-- The numbers of those in the queue, and of the one that was taken up last. -/
  queued : List Nat
  current : Nat
  /-- The Binds that a backend ran up to its ReadyForQuery, or that were acknowledged without one. -/
  settled : List Nat
  /-- The Binds whose pipeline ended with an error, and those whose pipeline was lost. -/
  failed : List Nat
  lost : List Nat

namespace Requests

def new : Requests := ⟨[], [], 0, [], [], []⟩

def next (r : Requests) : Obs → Requests
  | .received e wait =>
      if e.request then
        { r with
          came := r.came ++ [e]
          current := if wait = .idle then r.came.length else r.current }
      else r
  | .pushed _ => { r with queued := r.queued ++ [r.came.length - 1] }
  | .took _ => { r with current := r.queued.headD 0, queued := r.queued.tail }
  | .putBack _ => { r with queued := r.current :: r.queued }
  | .discarded _ => { r with queued := [] }
  | .completed sawError => { r with
      settled := r.current :: r.settled
      failed := if sawError then r.current :: r.failed else r.failed }
  | .lost => { r with lost := r.current :: r.lost }
  | .ran _ | .stub .. => { r with settled := r.current :: r.settled }
  | _ => r

/-- The Bind that a request belongs to is the last one up to it. -/
def owner (r : Requests) (n : Nat) : Option Nat :=
  (List.range (n + 1)).reverse.find? fun k => r.came[k]?.any Event.isBind

/-- The Bind of the request that is taken up was run. -/
def served (r : Requests) : Bool := (r.owner r.current).all fun b => decide (b ∈ r.settled)

/-- The Binds whose pipeline came to nothing. -/
def ended (r : Requests) : Failure → List Nat
  | .error => r.failed
  | .lost => r.lost

/-- Such a pipeline skips this request: no Sync came between its Bind and the request. -/
def skips (k : Failure) (r : Requests) (n : Nat) : Bool :=
  (r.ended k).any fun b => decide (b < n) && decide (.sync ∉ (r.came.take n).drop b)

/-- An Execute that finds no response is one of a Bind that was run. -/
def supplied (r : Requests) : Obs → Bool
  | .executing held => decide (held ≠ 0) || r.served
  | _ => true

/-- The server completes no command but those of Binds that were run. -/
def completes (r : Requests) : Obs → Bool
  | .replied (.commandComplete _) => r.served
  | _ => true

/-- No request comes late, when the pipeline that it belongs to has come to nothing. -/
def timely (k : Failure) (r : Requests) : Obs → Bool
  | .received e _ => !e.request || !r.skips k r.came.length
  | _ => true

/-- No request of a pipeline waits when that is lost. -/
def alone (r : Requests) (o : Obs) : Bool :=
  o != .lost || r.queued.all fun n => !(r.next o).skips .lost n

/-- No request is taken up that is skipped. -/
def heeds (k : Failure) (r : Requests) (o : Obs) : Bool := !(r.next o).skips k (r.next o).current

/-- It is so for every entry, after what the history told before. -/
def All (p : Requests → Obs → Bool) (log : List Obs) : Prop :=
  ∀ before o after, log = before ++ o :: after → p (Runs.run next new before) o = true

theorem all_iff_along {p : Requests → Obs → Bool} {log : List Obs} :
    All p log ↔ Runs.Along next (fun r o => p r o = true) new log := by
  constructor
  · exact fun h => .of_split fun before o after => h before o after
  · rintro h before o after rfl
    exact h.holds

instance (p : Requests → Obs → Bool) (log : List Obs) : Decidable (All p log) :=
  decidable_of_iff _ all_iff_along.symm

end Requests

section

variable {w : Pqwire}

/-- The server completes the commands of Binds that were run as long as every Execute that finds no
response is one of those. -/
theorem completes_iff_supplied {log : List Obs} (h : Explained log) :
    Requests.All Requests.completes log ↔ Requests.All Requests.supplied log := by
  constructor
  · rintro hcompletes before o rest rfl
    by_cases ho : o = .executing 0
    · subst ho
      obtain ⟨o', behind, rfl, hfollows⟩ := h.next (Or.inr (Or.inr (Or.inr (Or.inr rfl))))
      obtain ⟨t, rfl⟩ := hfollows.executed.mp rfl
      have hserved := hcompletes _ _ behind (List.append_cons ..)
      rw [Runs.run_append] at hserved
      exact hserved
    · cases o with
      | executing held => simp [Requests.supplied, show held ≠ 0 from fun h => ho (h ▸ rfl)]
      | _ => rfl
  · rintro hsupplied before o rest rfl
    by_cases ho : ∃ t, o = .replied (.commandComplete t)
    · obtain ⟨t, rfl⟩ := ho
      obtain ⟨ahead, o', rfl, hfollows⟩ := h.last (Or.inr (Or.inr ⟨t, rfl⟩))
      rw [hfollows.executed.mpr ⟨t, rfl⟩]
      have hserved := hsupplied ahead o' _ (List.append_cons ..).symm
      rw [hfollows.executed.mpr ⟨t, rfl⟩] at hserved
      rw [Runs.run_append]
      exact hserved
    · cases o with
      | replied r =>
          cases r with
          | commandComplete t => exact absurd ⟨t, rfl⟩ ho
          | _ => rfl
      | _ => rfl

namespace Requests

variable {k : Failure} {r : Requests} {q : List FeqItem} {l m : List Obs}

/-- The numbers go with the queue, and no request that waits or is taken up is skipped. -/
structure Heeding (k : Failure) (r : Requests) (q : List FeqItem) : Prop where
  length : r.queued.length = q.length
  known : ∀ n ∈ r.queued, n ≤ r.came.length
  current : r.current ≤ r.came.length
  queued : ∀ n ∈ r.queued, r.skips k n = false
  taken : r.skips k r.current = false

/-- The request that came last is not skipped. -/
def Fresh (k : Failure) (r : Requests) : Prop := r.skips k (r.came.length - 1) = false

/-- Along these entries no request is taken up that is skipped. -/
structure Goes (k : Failure) (r : Requests) (l : List Obs) (q : List FeqItem) : Prop where
  along : Runs.Along next (fun r o => r.heeds k o = true) r l
  heeding : (Runs.run next r l).Heeding k q

theorem new_heeding : new.Heeding k [] where
  length := rfl
  known _ hn := absurd hn List.not_mem_nil
  current := Nat.le_refl 0
  queued _ hn := absurd hn List.not_mem_nil
  taken := by cases k <;> rfl

theorem Goes.append {q' : List FeqItem} (h : r.Goes k l q) (hm : (Runs.run next r l).Goes k m q') :
    r.Goes k (l ++ m) q' where
  along := Runs.Along.append.mpr ⟨h.along, hm.along⟩
  heeding := by
    rw [Runs.run_append]
    exact hm.heeding

theorem Goes.one {o : Obs} (h : (r.next o).Heeding k q) : r.Goes k [o] q where
  along := ⟨by simp [heeds, h.taken], trivial⟩
  heeding := h

/-- Entries that tell nothing of the requests. -/
def Tacit (o : Obs) : Prop := ∀ r : Requests, r.next o = r

theorem run_tacit (h : ∀ o ∈ l, Tacit o) : Runs.run next r l = r := by
  induction l with
  | nil => rfl
  | cons o l ih =>
      rw [Runs.run_cons, h o List.mem_cons_self]
      exact ih fun a ha => h a (List.mem_cons_of_mem o ha)

theorem Heeding.tacit (h : r.Heeding k q) (hl : ∀ o ∈ l, Tacit o) : r.Goes k l q where
  along := by
    induction l with
    | nil => trivial
    | cons o l ih =>
        have ho := hl o List.mem_cons_self
        refine ⟨by simp [heeds, ho r, h.taken], ?_⟩
        rw [ho r]
        exact ih fun a ha => hl a (List.mem_cons_of_mem o ha)
  heeding := by
    rw [run_tacit hl]
    exact h

/-- Whether a request is skipped is decided when it comes. -/
theorem skips_came (r : Requests) (e : Event) (current : Nat) {n : Nat} (h : n ≤ r.came.length) :
    ({ r with came := r.came ++ [e], current := current } : Requests).skips k n = r.skips k n := by
  cases k <;> simp only [skips, ended, List.take_append_of_le_length h]

/-- A request comes in time. -/
theorem Heeding.comes (h : r.Heeding k q) {e : Event} {wait : BeWait} (he : e.request = true)
    (htimely : r.timely k (.received e wait) = true) :
    (r.next (.received e wait)).Heeding k q ∧ (r.next (.received e wait)).Fresh k := by
  have hskips : r.skips k r.came.length = false := by simpa [timely, he] using htimely
  have hnext : r.next (.received e wait) = { r with
      came := r.came ++ [e], current := if wait = .idle then r.came.length else r.current } := if_pos he
  have hcurrent : (if wait = .idle then r.came.length else r.current) ≤ r.came.length := by
    split
    · exact Nat.le_refl _
    · exact h.current
  rw [hnext]
  refine ⟨⟨h.length, fun n hn => ?_, ?_, fun n hn => ?_, ?_⟩, ?_⟩
  · exact (h.known n hn).trans (by simp)
  · exact hcurrent.trans (by simp)
  · rw [skips_came r e _ (h.known n hn)]
    exact h.queued n hn
  · rw [skips_came r e _ hcurrent]
    split
    · exact hskips
    · exact h.taken
  · rw [Fresh, skips_came r e _ (by simp)]
    simpa using hskips

theorem Heeding.pushed (h : r.Heeding k q) (hfresh : r.Fresh k) (it : FeqItem) :
    (r.next (.pushed it)).Heeding k (q ++ [it]) where
  length := by simp [next, h.length]
  known n hn := by
    rcases List.mem_append.mp hn with hn | hn
    · exact h.known n hn
    · rw [List.mem_singleton.mp hn]
      exact Nat.sub_le _ _
  current := h.current
  queued n hn := by
    rcases List.mem_append.mp hn with hn | hn
    · exact h.queued n hn
    · rw [List.mem_singleton.mp hn]
      exact hfresh
  taken := h.taken

theorem Heeding.took {it : FeqItem} (h : r.Heeding k (it :: q)) : (r.next (.took it)).Heeding k q := by
  obtain ⟨n, ns, hqueued⟩ := List.exists_cons_of_length_eq_add_one h.length
  have hmem : ∀ a ∈ n :: ns, a ∈ r.queued := fun a ha => hqueued ▸ ha
  have hnext : r.next (.took it) = { r with current := n, queued := ns } := by
    rw [next, hqueued]
    rfl
  rw [hnext]
  refine ⟨?_, fun a ha => ?_, ?_, fun a ha => ?_, ?_⟩
  · have hlength := h.length
    rw [hqueued] at hlength
    exact Nat.succ.inj hlength
  · exact h.known a (hmem a (List.mem_cons_of_mem n ha))
  · exact h.known n (hmem n List.mem_cons_self)
  · exact h.queued a (hmem a (List.mem_cons_of_mem n ha))
  · exact h.queued n (hmem n List.mem_cons_self)

theorem Heeding.putBack (h : r.Heeding k q) (it : FeqItem) :
    (r.next (.putBack it)).Heeding k (it :: q) where
  length := congrArg (· + 1) h.length
  known n hn := (List.mem_cons.mp hn).elim (fun heq => heq ▸ h.current) (h.known n)
  current := h.current
  queued n hn := (List.mem_cons.mp hn).elim (fun heq => heq ▸ h.taken) (h.queued n)
  taken := h.taken

theorem Heeding.discarded (h : r.Heeding k q) (its : List FeqItem) :
    (r.next (.discarded its)).Heeding k [] where
  length := rfl
  known _ hn := absurd hn List.not_mem_nil
  current := h.current
  queued _ hn := absurd hn List.not_mem_nil
  taken := h.taken

/-- The Bind that was taken up last is not skipped when its own pipeline comes to nothing. -/
theorem Heeding.taken_failed (h : r.Heeding k q) (settled : List Nat) : ({ r with
    settled := settled, failed := r.current :: r.failed } : Requests).skips k r.current = false := by
  have hold := h.taken
  cases k with
  | error =>
      simp only [skips, ended, List.any_cons, Nat.lt_irrefl, decide_false, Bool.false_and,
        Bool.false_or] at hold ⊢
      exact hold
  | lost => exact hold

/-- A pipeline ends with an error: what it skips is in the queue, and that is emptied. -/
theorem Heeding.failed (h : r.Heeding k q) (its : List FeqItem) :
    r.Goes k [.completed true, .discarded its] [] := by
  have htaken := h.taken_failed (r.current :: r.settled)
  have hheeds := congrArg (!·) htaken
  refine ⟨⟨hheeds, hheeds, trivial⟩, ?_⟩
  exact { length := rfl, known := fun _ hn => absurd hn List.not_mem_nil, current := h.current,
          queued := fun _ hn => absurd hn List.not_mem_nil, taken := htaken }

/-- A pipeline is lost while nothing of it waits. -/
theorem Heeding.lost (h : r.Heeding k q) (halone : k = .lost → r.alone .lost = true) :
    r.Goes k [.lost] q := by
  refine .one ⟨h.length, h.known, h.current, ?_, ?_⟩
  · cases k with
    | error => exact h.queued
    | lost =>
        have hqueued := halone rfl
        simp only [alone, bne_self_eq_false, Bool.false_or, List.all_eq_true, Bool.not_eq_true'] at hqueued
        exact hqueued
  · have hold := h.taken
    cases k with
    | error => exact hold
    | lost =>
        simp only [next, skips, ended, List.any_cons, Nat.lt_irrefl, decide_false, Bool.false_and,
          Bool.false_or] at hold ⊢
        exact hold

/-! ### Conversations -/

variable {w : Pqwire} {hasPool : Bool} {was log : List Obs} {d d' : Talk}

theorem request_of_work {e : Event} {it : FeqItem} (h : e.work = some it) : e.request = true := by
  cases e <;> first | rfl | cases h

theorem request_of_item {e : Event} {it : FeqItem} (h : e.item w = some it) : e.request = true := by
  cases e <;> first | rfl | cases h

theorem Heeding.takes (h : r.Heeding k d.queue) {it : FeqItem} {o : Obs} (htake : d.Takes it o d')
    (htimely : Runs.Along next (fun r o => r.timely k o = true) r (o :: l)) : r.Goes k [o] d'.queue := by
  cases htake with
  | direct hwork => exact .one (h.comes (request_of_work hwork) htimely.1).1
  | popped hidle hqueue => exact .one (Heeding.took (hqueue ▸ h))

/-- A Bind is taken up; one that just came can be put into the queue. -/
theorem Heeding.takesBind (h : r.Heeding k d.queue) {src : BindSource} (htake : d.TakesBind src l d')
    (htimely : Runs.Along next (fun r o => r.timely k o = true) r (l ++ m)) :
    r.Goes k l d'.queue ∧ ∀ bind, src = .event bind → (Runs.run next r l).Fresh k := by
  cases htake with
  | direct bind startable =>
      obtain ⟨hheeding, hfresh⟩ := h.comes (e := .bind bind) rfl htimely.1
      exact ⟨(Goes.one hheeding).append (hheeding.tacit (by simp [Tacit, next])), fun _ _ => hfresh⟩
  | popped startable hidle hqueue =>
      have hheeding := Heeding.took (hqueue ▸ h)
      exact ⟨(Goes.one hheeding).append (hheeding.tacit (by simp [Tacit, next])), nofun⟩

theorem tacit_dropped (drops : List FeqItem) : ∀ o ∈ drops.map Obs.dropped, Tacit o := by
  simp [Tacit, next]

theorem tacit_answer {it : FeqItem} (h : Talk.Answer w hasPool log d it l d') : ∀ o ∈ l, Tacit o := by
  cases h <;> simp [Tacit, next]

/-- A Bind that was run, or acknowledged without a backend, is settled. -/
theorem Heeding.settles (h : r.Heeding k q) {o : Obs}
    (ho : r.next o = { r with settled := r.current :: r.settled }) (hl : ∀ o ∈ l, Tacit o) :
    r.Goes k (o :: l) q := by
  have hheeding : (r.next o).Heeding k q := by
    rw [ho]
    exact ⟨h.length, h.known, h.current, h.queued, h.taken⟩
  exact (Goes.one hheeding).append (hheeding.tacit hl)

theorem Heeding.step (h : r.Heeding k d.queue) (hstep : Talk.Step w hasPool was log d l d')
    (htimely : Runs.Along next (fun r o => r.timely k o = true) r l)
    (halone : k = .lost → Runs.Along next (fun r o => r.alone o = true) r l) (hwas : ¬ Overflowed was)
    (hlog : ¬ Overflowed log) : r.Goes k l d'.queue := by
  cases hstep with
  | silent | switch | unpark => exact h.tacit nofun
  | startup | ignore | terminate | closed => exact h.tacit (by simp [Tacit, next, Event.request])
  | data hears =>
      rw [hears.after]
      exact h.tacit (by simp [Tacit, next])
  | @push e it hbusy hitem =>
      obtain ⟨hheeding, hfresh⟩ := h.comes (request_of_item hitem) htimely.1
      exact (Goes.one hheeding).append (.one (hheeding.pushed hfresh it))
  | @drop e it hbusy hwork =>
      have he : e.request = true := by
        rcases hwork with hwork | ⟨bind, rfl⟩
        · obtain ⟨it, hwork⟩ := Option.ne_none_iff_exists'.mp hwork
          exact request_of_work hwork
        · rfl
      obtain ⟨hheeding, -⟩ := h.comes he htimely.1
      refine (Goes.one hheeding).append (m := .dropped it :: dropReplies e) (hheeding.tacit ?_)
      cases e <;> simp [dropReplies, Tacit, next]
  | @answer _ _ it o l' htake hanswer =>
      have htaken := h.takes htake htimely
      refine htaken.append (m := l') ?_
      rw [hanswer.same.1]
      exact htaken.heeding.tacit (tacit_answer hanswer)
  | begin htake =>
      have htaken := (h.takesBind htake htimely).1
      exact htaken.append (htaken.heeding.tacit (by simp [Tacit, next]))
  | park drops htake hitem =>
      rw [List.append_assoc] at htimely ⊢
      obtain ⟨htaken, hfresh⟩ := h.takesBind htake htimely
      have hdrops := htaken.heeding.tacit (tacit_dropped drops)
      refine htaken.append (hdrops.append (.one ?_))
      rw [run_tacit (tacit_dropped drops)]
      exact htaken.heeding.pushed (hfresh _ rfl) _
  | putBack drops htake =>
      rw [List.append_assoc] at htimely ⊢
      have htaken := (h.takesBind htake htimely).1
      have hdrops := htaken.heeding.tacit (tacit_dropped drops)
      exact htaken.append (hdrops.append (.one (hdrops.heeding.putBack _)))
  | ran drops out htake | stub drops why written resp htake =>
      rw [List.append_assoc] at htimely ⊢
      have htaken := (h.takesBind htake htimely).1
      have hdrops := htaken.heeding.tacit (tacit_dropped drops)
      exact htaken.append (hdrops.append (hdrops.heeding.settles rfl (by simp [Tacit, next])))
  | @ended d₁ ms pending hears hfinal =>
      have hdata : r.Goes k [.beData ms.flatten] d.queue := h.tacit (by simp [Tacit, next])
      dsimp only
      unfold Talk.resultOf Talk.queueAfter
      refine hdata.append ?_
      cases d₁.status.sawError with
      | true =>
          have hfailed := hdata.heeding.failed d.queue
          exact hfailed.append (m := [.handed pending d₁.resp]) (hfailed.heeding.tacit (by simp [Tacit, next]))
      | false =>
          simp only [Bool.false_eq_true, if_false]
          split
          · exact hdata.heeding.settles rfl (by simp [Tacit, next])
          · exact hdata.heeding.settles rfl (by simp [Tacit, next])
  | endedCut pending resp hears hfinal hcut => exact absurd hcut hlog
  | lost hwait =>
      have hlost := h.lost fun hk => (halone hk).1
      exact hlost.append (hlost.heeding.tacit (by simp [Tacit, next]))
  | lostCut hwait hcut => exact absurd hcut hlog
  | stray hcut => exact absurd hcut hwas
  | discarded => exact .one (h.discarded _)

theorem heeding_of_run (h : Talk.Run w hasPool log d) (hlog : ¬ Overflowed log)
    (htimely : Runs.Along next (fun r o => r.timely k o = true) new (spoken log))
    (halone : k = .lost → Runs.Along next (fun r o => r.alone o = true) new (spoken log)) :
    new.Goes k (spoken log) d.queue := by
  induction h with
  | new => exact new_heeding.tacit nofun
  | @step was l d d' hrun hstep ih =>
      have hwas : ¬ Overflowed was := fun h => hlog (h.append_left l)
      rw [spoken_append] at htimely halone ⊢
      obtain ⟨hbefore, hbehind⟩ := Runs.Along.append.mp htimely
      have hgoes := ih hwas hbefore fun hk => (Runs.Along.append.mp (halone hk)).1
      refine hgoes.append (hgoes.heeding.step hstep hbehind (fun hk => ?_) hwas hlog)
      exact (Runs.Along.append.mp (halone hk)).2

/-- As long as no request comes late, none is taken up that a pipeline with an error skips. -/
theorem heeds_of_timely (h : Talk.Run w hasPool log d) (hlog : ¬ Overflowed log)
    (htimely : All (timely .error) (spoken log)) : All (heeds .error) (spoken log) :=
  all_iff_along.mpr (heeding_of_run h hlog (all_iff_along.mp htimely) nofun).along

/-- The same for a pipeline that is lost, as long as no request of it waits either. -/
theorem heeds_of_alone (h : Talk.Run w hasPool log d) (hlog : ¬ Overflowed log)
    (htimely : All (timely .lost) (spoken log)) (halone : All alone (spoken log)) :
    All (heeds .lost) (spoken log) :=
  all_iff_along.mpr (heeding_of_run h hlog (all_iff_along.mp htimely)
    fun _ => all_iff_along.mp halone).along

end Requests

end
