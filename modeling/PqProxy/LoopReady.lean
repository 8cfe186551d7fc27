import PqProxy.LoopResults

/-! How often a client is told that the server is ready. As long as nothing fails, each Sync and each
Query has its ReadyForQuery, and a Sync that comes while a pipeline runs has a second one: it is kept as
a mark of the connection and as a request in the queue, and both are answered. -/

/-- How many ReadyForQuery messages an entry brings to the client. -/
def Obs.readied : Obs → Nat
  | .replied .readyForQuery => 1
  | .handed _ data => Framing.countType msgReadyForQuery data
  | _ => 0

/-- How many the client waits for. -/
def Obs.owed : Obs → Nat
  | .received .startup _ | .received .sync _ | .received (.query _) _ => 1
  | _ => 0

def readied (log : List Obs) : Nat := (log.map Obs.readied).sum

def owed (log : List Obs) : Nat := (log.map Obs.owed).sum

/-- The same for a request that waits in the queue. -/
def FeqItem.owed : FeqItem → Nat
  | .sync | .query _ => 1
  | _ => 0

def owedLater (q : List FeqItem) : Nat := (q.map FeqItem.owed).sum

/-- A Sync came while a pipeline was running. -/
def EarlySync (log : List Obs) : Prop := ∃ wait : BeWait, wait.Runs ∧ .received .sync wait ∈ log

/-- Nothing failed, nothing was cut off or too much, and the connection was not closed. -/
def Obs.smooth : Obs → Bool
  | .lost | .completed true | .dropped _ | .cacheFull | .refused _ | .noSqe | .crossed | .closed
  | .discarded _ => false
  | .stub _ written => written.isEmpty
  | _ => true

def Conn.Smooth (c : Conn) : Prop := ∀ o ∈ c.log, o.smooth = true

/-- Nothing is under way. -/
structure Conn.Quiescent (c : Conn) : Prop where
  idle : c.beWait = .idle
  queue : c.feQ.toList = []
  drained : c.frontend = []

section

variable {w : Pqwire} {log l m : List Obs}

@[simp] theorem readied_nil : readied [] = 0 := rfl

@[simp] theorem readied_cons (o : Obs) (l : List Obs) : readied (o :: l) = o.readied + readied l := by
  simp [readied]

@[simp] theorem readied_append (l m : List Obs) : readied (l ++ m) = readied l + readied m := by
  simp [readied]

@[simp] theorem owed_nil : owed [] = 0 := rfl

@[simp] theorem owed_cons (o : Obs) (l : List Obs) : owed (o :: l) = o.owed + owed l := by
  simp [owed]

@[simp] theorem owed_append (l m : List Obs) : owed (l ++ m) = owed l + owed m := by simp [owed]

@[simp] theorem owedLater_nil : owedLater [] = 0 := rfl

@[simp] theorem owedLater_cons (it : FeqItem) (q : List FeqItem) :
    owedLater (it :: q) = it.owed + owedLater q := by
  simp [owedLater]

@[simp] theorem owedLater_append (q r : List FeqItem) : owedLater (q ++ r) = owedLater q + owedLater r := by
  simp [owedLater]

@[simp] theorem readied_dropped (its : List FeqItem) : readied (its.map .dropped) = 0 := by
  induction its with
  | nil => rfl
  | cons it its ih => simpa [Obs.readied] using ih

@[simp] theorem owed_dropped (its : List FeqItem) : owed (its.map .dropped) = 0 := by
  induction its with
  | nil => rfl
  | cons it its ih => simpa [Obs.owed] using ih

/-- What only the conversation counts for is counted there. -/
theorem sum_spoken {f : Obs → Nat} (hf : ∀ o : Obs, o.spoken = false → f o = 0) (log : List Obs) :
    ((spoken log).map f).sum = (log.map f).sum := by
  induction log with
  | nil => rfl
  | cons o log ih =>
      rw [List.map_cons, List.sum_cons, ← ih, spoken]
      cases hspoken : o.spoken with
      | true => rw [List.filter_cons_of_pos hspoken, List.map_cons, List.sum_cons, spoken]
      | false => rw [List.filter_cons_of_neg (Bool.eq_false_iff.mp hspoken), hf o hspoken, Nat.zero_add, spoken]

theorem readied_spoken (log : List Obs) : readied (spoken log) = readied log :=
  sum_spoken (fun o ho => by cases o <;> first | rfl | cases ho) log

theorem owed_spoken (log : List Obs) : owed (spoken log) = owed log :=
  sum_spoken (fun o ho => by cases o <;> first | rfl | cases ho) log

theorem earlySync_spoken : EarlySync (spoken log) ↔ EarlySync log := by
  refine exists_congr fun wait => and_congr_right fun _ => ?_
  exact ⟨fun h => (List.mem_filter.mp h).1, fun h => List.mem_filter.mpr ⟨h, rfl⟩⟩

theorem earlySync_append : EarlySync (l ++ m) ↔ EarlySync l ∨ EarlySync m := by
  constructor
  · rintro ⟨wait, hruns, hmem⟩
    rcases List.mem_append.mp hmem with h | h
    · exact Or.inl ⟨wait, hruns, h⟩
    · exact Or.inr ⟨wait, hruns, h⟩
  · rintro (⟨wait, hruns, h⟩ | ⟨wait, hruns, h⟩)
    · exact ⟨wait, hruns, List.mem_append_left m h⟩
    · exact ⟨wait, hruns, List.mem_append_right l h⟩

/-- A whole response has one ReadyForQuery. -/
theorem Whole.countType {bs : Bytes} (h : Whole bs) : Framing.countType msgReadyForQuery bs = 1 := by
  obtain ⟨body, last, hbody, hlast, htype, rfl⟩ := h
  have hframed : ∀ m ∈ body ++ [last], Framing.Framed m := fun m hm =>
    (List.mem_append.mp hm).elim (fun h => (hbody m h).1) fun h => List.mem_singleton.mp h ▸ hlast
  have hnone : body.filter (fun m => Framing.typeOf m == some msgReadyForQuery) = [] :=
    List.filter_eq_nil_iff.mpr fun m hm => by simpa using (hbody m hm).2
  have hflat : body.flatten ++ last = (body ++ [last]).flatten := by simp
  rw [hflat, Framing.countType, Framing.ofType_flatten _ hframed, List.filter_append, hnone]
  simp [htype]

namespace Talk

variable {hasPool : Bool} {d d' : Talk} {was : List Obs}

/-- The books of a conversation: what is said and what waits is what was asked for, and as many more as
pipelines were over with a Sync that had come before. -/
structure Balanced (w : Pqwire) (d : Talk) (log : List Obs) : Prop where
  rests : ¬ d.wait.Runs → d.resp = [] ∨ Framing.countType msgReadyForQuery d.resp = 1
  runs : d.wait.Runs → ∃ ms, (∀ m ∈ ms, Framing.Framed m ∧ Framing.typeOf m ≠ some msgReadyForQuery) ∧
    d.resp = keptBytes w true ms
  balance : ∃ early, readied log + owedLater d.queue = owed log + early ∧
    (0 < early ∨ d.wait.Runs ∧ d.sync = true ↔ EarlySync log)

theorem Balanced.new : Balanced w .new [] where
  rests _ := Or.inl rfl
  runs h := absurd rfl h.ne.1
  balance := ⟨0, rfl, ⟨fun h => h.elim (fun h => absurd h (Nat.lt_irrefl 0)) fun h => absurd rfl h.1.ne.1,
    fun ⟨_, _, h⟩ => absurd h List.not_mem_nil⟩⟩

/-- What is said is what was asked for, and no Sync comes early. -/
theorem Balanced.goesOn (h : Balanced w d log)
    (hcount : readied l + owedLater d'.queue = owed l + owedLater d.queue) (hearly : ¬ EarlySync l)
    (hsync : d'.wait.Runs ∧ d'.sync = true ↔ d.wait.Runs ∧ d.sync = true)
    (hrests : ¬ d'.wait.Runs → d'.resp = [] ∨ Framing.countType msgReadyForQuery d'.resp = 1)
    (hruns : d'.wait.Runs → ∃ ms, (∀ m ∈ ms, Framing.Framed m ∧
      Framing.typeOf m ≠ some msgReadyForQuery) ∧ d'.resp = keptBytes w true ms) :
    Balanced w d' (log ++ l) where
  rests := hrests
  runs := hruns
  balance := by
    obtain ⟨early, hbalance, hiff⟩ := h.balance
    refine ⟨early, by rw [readied_append, owed_append]; omega, ?_⟩
    rw [hsync, hiff, earlySync_append]
    exact ⟨Or.inl, fun h => h.resolve_right hearly⟩

/-- The same while nothing runs. -/
theorem Balanced.rest (h : Balanced w d log) (hwait : ¬ d.wait.Runs) (hwait' : ¬ d'.wait.Runs)
    (hcount : readied l + owedLater d'.queue = owed l + owedLater d.queue) (hearly : ¬ EarlySync l)
    (hresp : d'.resp = [] ∨ Framing.countType msgReadyForQuery d'.resp = 1) :
    Balanced w d' (log ++ l) :=
  h.goesOn hcount hearly (iff_of_false (fun h => hwait' h.1) fun h => hwait h.1) (fun _ => hresp)
    fun hruns => absurd hruns hwait'

/-- The same while the pipeline is left alone. -/
theorem Balanced.same (h : Balanced w d log) (hwait : d'.wait.Runs ↔ d.wait.Runs) (hsync : d'.sync = d.sync)
    (hresp : d'.resp = d.resp)
    (hcount : readied l + owedLater d'.queue = owed l + owedLater d.queue) (hearly : ¬ EarlySync l) :
    Balanced w d' (log ++ l) := by
  refine h.goesOn hcount hearly ?_ ?_ ?_
  · rw [hwait, hsync]
  · rw [hwait, hresp]
    exact h.rests
  · rw [hwait, hresp]
    exact h.runs

/-- A request that is taken up was asked for when it came. -/
theorem Takes.counts {it : FeqItem} {o : Obs} (h : Takes d it o d') :
    o.readied = 0 ∧ o.owed + owedLater d.queue = it.owed + owedLater d'.queue := by
  cases h with
  | @direct e it hwork => cases e <;> cases hwork <;> exact ⟨rfl, rfl⟩
  | popped hidle hqueue =>
      rw [hqueue, owedLater_cons]
      exact ⟨rfl, Nat.zero_add _⟩

theorem TakesBind.counts {src : BindSource} (h : TakesBind d src l d') :
    readied l = 0 ∧ owed l = 0 ∧ owedLater d'.queue = owedLater d.queue := by
  cases h with
  | direct => exact ⟨rfl, rfl, rfl⟩
  | popped startable hidle hqueue =>
      rw [hqueue, owedLater_cons]
      exact ⟨rfl, rfl, (Nat.zero_add _).symm⟩

/-- A request is answered as it was asked for. -/
theorem Answer.counts (hw : w.FollowsPipeline) {it : FeqItem} (h : Answer w hasPool log d it l d')
    (hcut : ¬ Overflowed log) (hsmooth : ∀ o ∈ l, o.smooth = true)
    (hforward : ∀ held, .forwarded held ∈ l → held = 0)
    (hresp : d.resp = [] ∨ Framing.countType msgReadyForQuery d.resp = 1) :
    readied l = it.owed ∧ owed l = 0 ∧
      (d'.resp = [] ∨ Framing.countType msgReadyForQuery d'.resp = 1) := by
  -- nothing was buffered when a Query was forwarded
  have hempty : ∀ {resp : Bytes}, .forwarded d.resp.length ∈ l → resp.length = d.resp.length → resp = [] :=
    fun hmem hlen => List.length_eq_zero_iff.mp (hlen.trans (hforward _ hmem))
  cases h with
  | none | parse | stub | done | terminate => exact ⟨rfl, rfl, hresp⟩
  | full => exact absurd (hsmooth .cacheFull List.mem_cons_self) nofun
  | ready | reject => exact ⟨rfl, rfl, hresp⟩
  | flush pending hne => exact ⟨hresp.resolve_left hne, rfl, Or.inl rfl⟩
  | flushCut pending hne hover => exact absurd hover hcut
  | forward sql pending out resp hout hlen =>
      refine ⟨?_, rfl, Or.inl (hempty List.mem_cons_self hlen)⟩
      simpa [Obs.readied, FeqItem.owed] using (hout hw).countType
  | failed sql resp hlen => exact ⟨rfl, rfl, Or.inl (hempty List.mem_cons_self hlen)⟩

/-- The pipeline is over. If a Sync had come, its response is sent at once, and the Sync still waits in
the queue. -/
theorem Balanced.ended (hw : w.FollowsPipeline) (h : Balanced w d log) {d₁ : Talk} {ms : List Bytes}
    (pending : Bytes) (hears : d.Hears w ms d₁) (hfinal : Final ms)
    (hsmooth : ∀ o ∈ d.resultOf ms pending d₁, o.smooth = true) :
    Balanced w { d₁ with queue := d.queueAfter d₁, resp := d.respAfter d₁, sync := false, wait := .idle }
      (log ++ d.resultOf ms pending d₁) := by
  have hok : d₁.status.sawError = false := by
    by_contra hsaw
    rw [Bool.not_eq_false] at hsaw
    rw [resultOf_eq, hsaw] at hsmooth
    exact absurd (hsmooth (.completed true) (by simp)) nofun
  obtain ⟨ns, hns, hresp⟩ := h.runs hears.runs
  have hone : Framing.countType msgReadyForQuery d₁.resp = 1 := by
    obtain ⟨init, last, rfl, hinit, hlast⟩ := hfinal
    have hresp' : d₁.resp = keptBytes w true (ns ++ (init ++ [last])) := by
      rw [hears.after, keptBytes_append w true ns, ← hresp]
    rw [hresp']
    refine (keptBytes_final hw ?_ ?_).2
    · exact fun m hm => (List.mem_append.mp hm).elim (fun h => (hns m h).1) (hears.framed m)
    · refine ⟨ns ++ init, last, (List.append_assoc ..).symm, fun m hm => ?_, hlast⟩
      exact (List.mem_append.mp hm).elim (fun h => (hns m h).2) (hinit m)
  obtain ⟨early, hbalance, hiff⟩ := h.balance
  rw [resultOf_eq, hok]
  have hearly : ¬ EarlySync (.beData ms.flatten :: .completed false :: d.saidBehind pending d₁) := by
    rintro ⟨wait, -, hmem⟩
    unfold saidBehind at hmem
    rw [hok] at hmem
    cases hsync : d.sync <;> simp [hsync] at hmem
  have hqueue : d.queueAfter d₁ = d.queue := if_neg (by simp [hok])
  have hidle : ¬ BeWait.idle.Runs := fun hruns => hruns.ne.1 rfl
  cases hsync : d.sync with
  | true =>
      have hsaid : d.saidBehind pending d₁ = [.replied .bindComplete, .handed pending d₁.resp] := by
        simp [saidBehind, hok, hsync]
      refine ⟨fun _ => Or.inl (if_pos (Or.inr hsync)), fun hruns => absurd hruns hidle, early + 1, ?_, ?_⟩
      · rw [hsaid, hqueue]
        simp [Obs.readied, Obs.owed, hone]
        omega
      · rw [earlySync_append]
        refine iff_of_true (Or.inl (Nat.succ_pos early)) (Or.inl (hiff.mp (Or.inr ⟨hears.runs, hsync⟩)))
  | false =>
      have hsaid : d.saidBehind pending d₁ = [.replied .bindComplete] := by
        simp [saidBehind, hok, hsync]
      have hrests : d.respAfter d₁ = d₁.resp := if_neg (by simp [hok, hsync])
      refine ⟨fun _ => Or.inr (hrests ▸ hone), fun hruns => absurd hruns hidle, early, ?_, ?_⟩
      · rw [hsaid, hqueue]
        simp [Obs.readied, Obs.owed]
        omega
      · rw [earlySync_append, ← hiff]
        have hnot : ¬ (d.wait.Runs ∧ d.sync = true) := fun h => by simp [hsync] at h
        exact ⟨fun h => Or.inl (Or.inl (h.resolve_right fun hr => hidle hr.1)), fun h =>
          Or.inl ((h.resolve_right hearly).resolve_right hnot)⟩

/-- A request is put into the queue. -/
theorem Balanced.pushes (h : Balanced w d log) {e : Event} {it : FeqItem} (hitem : e.item w = some it) :
    Balanced w { d with queue := d.queue ++ [it], sync := d.sync || decide (e = .sync) }
      (log ++ [.received e d.wait, .pushed it]) where
  rests := h.rests
  runs := h.runs
  balance := by
    obtain ⟨early, hbalance, hiff⟩ := h.balance
    have howed : owed [.received e d.wait, .pushed it] = it.owed := by
      cases e <;> simp [Event.item] at hitem <;> first | (subst hitem; rfl) | skip
      obtain ⟨a, -, rfl⟩ := hitem
      rfl
    refine ⟨early, ?_, ?_⟩
    · rw [readied_append, owed_append, howed, owedLater_append]
      simp [Obs.readied]
      omega
    · rw [earlySync_append, ← hiff]
      have hnew : EarlySync [.received e d.wait, .pushed it] ↔ d.wait.Runs ∧ e = .sync := by
        constructor
        · rintro ⟨wait, hruns, hmem⟩
          simp at hmem
          exact ⟨hmem.2 ▸ hruns, hmem.1.symm⟩
        · rintro ⟨hruns, rfl⟩
          exact ⟨d.wait, hruns, List.mem_cons_self⟩
      rw [hnew, Bool.or_eq_true, decide_eq_true_eq]
      tauto

theorem Step.balanced (hw : w.FollowsPipeline) {log' : List Obs} (h : Step w hasPool was log' d l d')
    (hd : Balanced w d log) (hcut : ¬ Overflowed was) (hcut' : ¬ Overflowed log')
    (hsmooth : ∀ o ∈ l, o.smooth = true) (hforward : ∀ held, .forwarded held ∈ l → held = 0) :
    Balanced w d' (log ++ l) := by
  have hidle : ¬ BeWait.idle.Runs := fun hruns => hruns.ne.1 rfl
  have hparked : ¬ BeWait.waitingPool.Runs := fun hruns => hruns.ne.2 rfl
  have hnever : ∀ {o : Obs} {P : Prop}, o.smooth = false → o ∈ l → P := fun ho hmem => by
    have := hsmooth _ hmem
    rw [ho] at this
    cases this
  -- a Bind that is taken up
  have htaken : ∀ {src : BindSource} {l₁ : List Obs} {d₁ : Talk} (drops : List FeqItem) (l₂ : List Obs),
      d.TakesBind src l₁ d₁ → ¬ EarlySync l₂ →
        readied (l₁ ++ drops.map .dropped ++ l₂) = readied l₂ ∧
          owed (l₁ ++ drops.map .dropped ++ l₂) = owed l₂ ∧
            owedLater d₁.queue = owedLater d.queue ∧ ¬ EarlySync (l₁ ++ drops.map .dropped ++ l₂) ∧
              (d₁.resp = [] ∨ Framing.countType msgReadyForQuery d₁.resp = 1) := by
    intro src l₁ d₁ drops l₂ htake hl₂
    obtain ⟨hready, howed, hqueue⟩ := htake.counts
    refine ⟨by simp [hready], by simp [howed], hqueue, ?_, ?_⟩
    · rw [earlySync_append, earlySync_append]
      rintro ((⟨wait, hruns, hmem⟩ | ⟨wait, -, hmem⟩) | hlast)
      · cases htake <;> simp at hmem
      · simp at hmem
      · exact hl₂ hlast
    · cases htake with
      | direct => exact Or.inl rfl
      | popped startable hwait => exact hd.rests (hwait ▸ hidle)
  cases h with
  | silent => exact hd.same Iff.rfl rfl rfl rfl (by simp [EarlySync])
  | switch wait hwait hwait' =>
      exact hd.same (iff_of_true hwait' hwait) rfl rfl rfl (by simp [EarlySync])
  | startup => exact hd.same Iff.rfl rfl rfl (by simp [Obs.readied, Obs.owed]) (by simp [EarlySync])
  | ignore => exact hd.same Iff.rfl rfl rfl rfl (by simp [EarlySync])
  | terminate => exact hd.same Iff.rfl rfl rfl rfl (by simp [EarlySync])
  | @push e it hbusy hitem => exact hd.pushes hitem
  | drop => exact hnever (o := .dropped _) rfl (List.mem_cons_of_mem _ List.mem_cons_self)
  | @answer d₁ _ it o l' htake hanswer =>
      obtain ⟨ho, hcount⟩ := htake.counts
      have hwait : d.wait = .idle := by cases htake <;> assumption
      have hwait' : d'.wait = .idle := hanswer.same.2.1.trans (htake.same.1.trans hwait)
      have hrests := hd.rests (hwait ▸ hidle)
      rw [← htake.same.2.2.1] at hrests
      obtain ⟨hready, howed, hresp⟩ := hanswer.counts hw hcut' (fun a ha => hsmooth a (List.mem_cons_of_mem o ha))
        (fun held hmem => hforward held (List.mem_cons_of_mem o hmem)) hrests
      refine hd.rest (hwait ▸ hidle) (hwait' ▸ hidle) ?_ ?_ hresp
      · rw [readied_cons, owed_cons, ho, hready, howed, hanswer.same.1]
        omega
      · rintro ⟨wait, hruns, hmem⟩
        rcases List.mem_cons.mp hmem with heq | hmem
        · cases htake with
          | direct => cases heq; exact hidle hruns
          | popped => cases heq
        · cases hanswer <;> simp at hmem
  | begin htake =>
      obtain ⟨hready, howed, hqueue, hearly, -⟩ := htaken [] [.began] htake (by simp [EarlySync])
      simp only [List.map_nil, List.append_nil] at hready howed hearly
      refine hd.goesOn (by rw [hready, howed]; simpa [Obs.readied, Obs.owed] using hqueue) hearly ?_ ?_ ?_
      · exact iff_of_false (fun h => absurd h.2 nofun) fun h => hidle (htake.same.1 ▸ h.1)
      · exact fun hwait => absurd (Or.inl rfl) hwait
      · exact fun _ => ⟨[], nofun, rfl⟩
  | @park d₁ bind l₁ it drops htake hitem =>
      obtain ⟨hready, howed, hqueue, hearly, hresp⟩ :=
        htaken drops [.pushed (.bind it)] htake (by simp [EarlySync])
      refine hd.rest (htake.same.1 ▸ hidle) hparked ?_ hearly hresp
      rw [hready, howed, owedLater_append, hqueue]
      simp [Obs.readied, Obs.owed, FeqItem.owed]
  | @putBack d₁ it l₁ drops htake =>
      obtain ⟨hready, howed, hqueue, hearly, hresp⟩ :=
        htaken drops [.putBack (.bind it)] htake (by simp [EarlySync])
      refine hd.rest (htake.same.1 ▸ hidle) hparked ?_ hearly hresp
      rw [hready, howed, owedLater_cons, hqueue]
      simp [Obs.readied, Obs.owed, FeqItem.owed]
  | @ran d₁ src l₁ drops out htake hout =>
      obtain ⟨hready, howed, hqueue, hearly, -⟩ :=
        htaken drops [.ran out, .replied .bindComplete] htake (by simp [EarlySync])
      refine hd.rest (htake.same.1 ▸ hidle) (htake.same.2.1 ▸ hidle) ?_ hearly (Or.inr (hout hw).countType)
      rw [hready, howed, hqueue]
      simp [Obs.readied, Obs.owed]
  | @stub d₁ src l₁ drops why written resp htake hlen hkept =>
      obtain ⟨hready, howed, hqueue, hearly, hresp⟩ :=
        htaken drops [.stub why written, .replied .bindComplete] htake (by simp [EarlySync])
      have hnil := hsmooth (.stub why written) (List.mem_append_right _ List.mem_cons_self)
      refine hd.rest (htake.same.1 ▸ hidle) (htake.same.2.1 ▸ hidle) ?_ hearly ?_
      · rw [hready, howed, hqueue]
        simp [Obs.readied, Obs.owed]
      · rw [hkept (List.isEmpty_iff.mp hnil)]
        exact hresp
  | unpark hwait =>
      exact hd.rest (hwait ▸ hparked) hidle rfl (by simp [EarlySync]) (hd.rests (hwait ▸ hparked))
  | @data _ ms hears hmore =>
      obtain ⟨ns, hns, hresp⟩ := hd.runs hears.runs
      rw [hears.after]
      refine hd.goesOn rfl (by simp [EarlySync]) Iff.rfl (fun hwait => absurd hears.runs hwait) fun _ => ?_
      refine ⟨ns ++ ms, fun m hm => ?_, ?_⟩
      · exact (List.mem_append.mp hm).elim (hns m) fun h => ⟨hears.framed m h, hmore m h⟩
      · rw [keptBytes_append, ← hresp]
  | ended pending hears hfinal => exact hd.ended hw pending hears hfinal hsmooth
  | endedCut pending resp hears hfinal hover => exact absurd hover hcut'
  | lost => exact hnever (o := .lost) rfl List.mem_cons_self
  | lostCut => exact hnever (o := .lost) rfl List.mem_cons_self
  | stray hover => exact absurd hover hcut
  | closed => exact hnever (o := .closed) rfl List.mem_cons_self
  | discarded => exact hnever (o := .discarded _) rfl List.mem_cons_self

theorem Run.balanced (hw : w.FollowsPipeline) (h : Run w hasPool log d) (hcut : ¬ Overflowed log)
    (hsmooth : ∀ o ∈ log, o.smooth = true) (hforward : ∀ held, .forwarded held ∈ log → held = 0) :
    Balanced w d (spoken log) := by
  induction h with
  | new => exact .new
  | @step was l d d' hrun hstep ih =>
      have hcut' : ¬ Overflowed was := fun h => hcut (h.append_left l)
      have hold := ih hcut' (fun o ho => hsmooth o (List.mem_append_left l ho))
        fun held hmem => hforward held (List.mem_append_left l hmem)
      rw [spoken_append]
      refine hstep.balanced hw hold hcut' hcut (fun o ho => ?_) fun held hmem => ?_
      · exact hsmooth o (List.mem_append_right was (List.mem_filter.mp ho).1)
      · exact hforward held (List.mem_append_right was (List.mem_filter.mp hmem).1)

end Talk

theorem Conn.Smooth.calm {c : Conn} (h : c.Smooth) : ¬ c.Upset ∧ ¬ Overflowed c.log := by
  refine ⟨?_, ?_⟩
  · rintro (hmem | hmem)
    · cases h _ hmem
    · cases h _ hmem
  · rintro (hmem | ⟨data, hmem⟩)
    · cases h _ hmem
    · cases h _ hmem

/-- As long as nothing fails and no Query is forwarded while a response is buffered, a client that waits
for nothing more was told that the server is ready once for its Startup, for each Sync and for each
Query, exactly when no Sync came while a pipeline was running. -/
theorem ready_per_sync (hw : w.Appends) (hf : w.FollowsPipeline) (hp : w.Peeks) {env : Env}
    (cfg : Config) (now : Nat) (inputs : List Input) (i : Slot) :
    let c := (Runs.run (step w env) (start env cfg true now) inputs).conns i
    c.Quiescent → c.Smooth → (∀ held, .forwarded held ∈ c.log → held = 0) →
      (readied c.log = owed c.log ↔ ¬ EarlySync c.log) := by
  intro c hquiet hsmooth hforward
  obtain ⟨hupset, hcut⟩ := hsmooth.calm
  obtain ⟨d, hd⟩ := (run_converses hw hf hp env cfg true now inputs i).resolve_left hupset
  obtain ⟨early, hbalance, hiff⟩ := (hd.run.balanced hf hcut hsmooth hforward).balance
  have hwait : d.wait = .idle := hd.of.wait.symm.trans hquiet.idle
  have hqueue : d.queue = [] := hd.of.queue.symm.trans hquiet.queue
  rw [readied_spoken, owed_spoken, hqueue] at hbalance
  rw [earlySync_spoken] at hiff
  change readied c.log + 0 = owed c.log + early at hbalance
  rw [← hiff]
  constructor
  · rintro heq (hpos | hruns)
    · omega
    · exact hruns.1.ne.1 hwait
  · intro hnone
    have hzero : ¬ 0 < early := fun h => hnone (Or.inl h)
    omega

/-- The Execute and the Sync come when the pipeline is over. -/
def lateEndInputs : List Input :=
  [accepts 0, receives 0 [.startup, .parse smallParse, .bind smallBind], .complete 0 1 (.sent 77),
    .complete 0 3 (.data bareResponse.bytes), receives 2 [.execute, .sync]]

theorem ready_per_sync_late :
    let c := (smallRun lateEndInputs).conns ⟨0, by decide⟩
    readied c.log = owed c.log ∧ owed c.log = 2 := by
  have hquiet : ((smallRun lateEndInputs).conns ⟨0, by decide⟩).Quiescent :=
    ⟨by decide +kernel, by decide +kernel, by decide +kernel⟩
  have hsmooth : ∀ o ∈ ((smallRun lateEndInputs).conns ⟨0, by decide⟩).log, o.smooth = true := by
    decide +kernel
  have hforward : ∀ o ∈ ((smallRun lateEndInputs).conns ⟨0, by decide⟩).log,
      (match o with | .forwarded _ => false | _ => true) = true := by decide +kernel
  have hlate : ¬ EarlySync ((smallRun lateEndInputs).conns ⟨0, by decide⟩).log := by
    rintro ⟨wait, rfl | rfl, hmem⟩
    · exact absurd hmem (by decide +kernel)
    · exact absurd hmem (by decide +kernel)
  have howed : owed ((smallRun lateEndInputs).conns ⟨0, by decide⟩).log = 2 := by decide +kernel
  refine ⟨?_, howed⟩
  rw [smallRun, smallServer] at hquiet hsmooth hforward hlate ⊢
  refine (ready_per_sync WirePg.appends WirePg.followsPipeline WirePg.peeks smallConfig 0 lateEndInputs _
    hquiet hsmooth fun held hmem => ?_).mpr hlate
  cases hforward _ hmem

/-- A whole pipeline in one chunk gets two ReadyForQuery messages for its Sync. -/
theorem not_ready_per_sync :
    let c := (smallRun servedInputs).conns ⟨0, by decide⟩
    c.Quiescent ∧ c.Smooth ∧ owed c.log = 2 ∧ readied c.log = 3 :=
  ⟨⟨by decide +kernel, by decide +kernel, by decide +kernel⟩,
    show ∀ o ∈ ((smallRun servedInputs).conns ⟨0, by decide⟩).log, o.smooth = true by decide +kernel,
    by decide +kernel, by decide +kernel⟩

end
