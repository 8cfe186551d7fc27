import PqProxy.LoopRun

/-! The order of replies. The messages of the proxy wait in the context of the frontend while the bytes
of backends go to the send buffer directly; the order in which they were produced is kept as long as
nothing waits when backend bytes come. -/

/-- The send buffer of a connection got what the server produced for it, in that order: all of it that
is not still in the context, unless a piece was refused. The acknowledgement of a Bind is produced
before everything that is sent of its pipeline. -/
structure Conn.RepliesInOrder (w : Pqwire) (c : Conn) : Prop where
  order : (wireBytes c.log).Sublist (produced w c.log)
  whole : (∀ data, .refused data ∉ c.log) → wireBytes c.log <+: produced w c.log ∧
    (c.state ≠ .free → wireBytes c.log ++ c.frontend = produced w c.log)
  acknowledged : ∀ before after, c.log = before ++ .completed false :: after →
    ∃ rest, after = .replied .bindComplete :: rest

/-- Backend bytes come while replies wait in the context. -/
def Obs.mixes : Obs → Bool
  | .handed pending data => !pending.isEmpty && !data.isEmpty
  | _ => false

theorem unmixed_of_lacks {l : List Obs} (h : ∀ o ∈ l, ¬ o.mixes = true) : Unmixed l := by
  intro p d hmem
  have hnot := h _ hmem
  cases p with
  | nil => exact Or.inl rfl
  | cons x p =>
      cases d with
      | nil => exact Or.inr rfl
      | cons y d => exact absurd rfl hnot

section

variable {w : Pqwire} {env : Env} {cfg : Config}

/-- The invariant: a slot that is free has nothing left in its context. -/
structure Conn.Streams (w : Pqwire) (c : Conn) : Prop where
  order : (wireBytes c.log ++ c.frontend).Sublist (produced w c.log)
  whole : (∀ data, .refused data ∉ c.log) → wireBytes c.log <+: produced w c.log
  live : c.state ≠ .free → (∀ data, .refused data ∉ c.log) →
    wireBytes c.log ++ c.frontend = produced w c.log
  free : c.state = .free → c.frontend = []
  explained : Explained c.log

/-- A connection that goes on streams on. -/
theorem Conn.Streams.goesOn {c c' : Conn} {l : List Obs} (h : c.Streams w) (hw : w.Appends)
    (hlog : c'.log = c.log ++ l) (hfits : Fits w c l c') (hlive : c.state ≠ .free)
    (hlive' : c'.state ≠ .free) (hunmixed : Unmixed l) : c'.Streams w := by
  have hsub := hfits.order hunmixed
  have hall : (∀ data, .refused data ∉ c'.log) →
      wireBytes c'.log ++ c'.frontend = produced w c'.log := by
    intro hnone
    rw [hlog] at hnone ⊢
    have hold := h.live hlive fun d hd => hnone d (List.mem_append_left l hd)
    have hnew := hfits.whole hunmixed fun d hd => hnone d (List.mem_append_right c.log hd)
    calc wireBytes (c.log ++ l) ++ c'.frontend
        = wireBytes c.log ++ (wireBytes l ++ c'.frontend) := by rw [wireBytes_append, List.append_assoc]
      _ = (wireBytes c.log ++ c.frontend) ++ produced w l := by rw [hnew, List.append_assoc]
      _ = produced w (c.log ++ l) := by rw [hold, produced_append]
  refine ⟨?_, fun hnone => ⟨_, hall hnone⟩, fun _ => hall, fun hfree => absurd hfree hlive', ?_⟩
  · rw [hlog, wireBytes_append, produced_append, List.append_assoc]
    refine (List.Sublist.append_left hsub _).trans ?_
    rw [← List.append_assoc]
    exact List.Sublist.append_right h.order _
  · rw [hlog]
    exact h.explained.append (hfits.explained hw)

/-- Entries that produce nothing and move nothing. -/
theorem Conn.Streams.notes {c c' : Conn} {l : List Obs} (h : c.Streams w) (hlog : c'.log = c.log ++ l)
    (hwire : wireBytes l = []) (hproduced : produced w l = [])
    (hexplained : Explained l) (hfrontend : c'.frontend = c.frontend ∨ c'.frontend = [])
    (hlive : c'.state ≠ .free → c.state ≠ .free ∧ c'.frontend = c.frontend)
    (hfree : c'.state = .free → c'.frontend = []) : c'.Streams w := by
  have hwires : wireBytes c'.log = wireBytes c.log := by
    rw [hlog, wireBytes_append, hwire, List.append_nil]
  have hproduces : produced w c'.log = produced w c.log := by
    rw [hlog, produced_append, hproduced, List.append_nil]
  have hnone : (∀ data, .refused data ∉ c'.log) → ∀ data, .refused data ∉ c.log :=
    fun h d hd => h d (hlog ▸ List.mem_append_left l hd)
  refine ⟨?_, fun hno => ?_, fun hlive' hno => ?_, hfree, ?_⟩
  · rw [hwires, hproduces]
    rcases hfrontend with heq | heq
    · rw [heq]
      exact h.order
    · rw [heq, List.append_nil]
      exact (List.sublist_append_left ..).trans h.order
  · rw [hwires, hproduces]
    exact h.whole (hnone hno)
  · obtain ⟨hold, heq⟩ := hlive hlive'
    rw [hwires, hproduces, heq]
    exact h.live hold (hnone hno)
  · rw [hlog]
    exact h.explained.append hexplained

/-- A turn of a free slot produces nothing. -/
theorem Act.idle {hasPool : Bool} {c c' : Cell} {h h' : BackendConn}
    (ha : Act w cfg hasPool c h c' h') (ht : c.conn.Tidy) (hfree : c.conn.state = .free) :
    ∃ l, c'.conn.log = c.conn.log ++ l ∧ (∀ o ∈ l, o.IsIo ∨ ∃ wait, o = .received .other wait) ∧
      (wireBytes l ++ c'.conn.frontend).Sublist c.conn.frontend := by
  have hopen : ¬ c.conn.Open := fun h => h.1 hfree
  obtain ⟨hwait, hqueue, -⟩ := ht hopen
  have hsame : ∀ {c' : Conn}, c'.log = c.conn.log → c'.frontend = c.conn.frontend →
      ∃ l, c'.log = c.conn.log ++ l ∧ (∀ o ∈ l, o.IsIo ∨ ∃ wait, o = .received .other wait) ∧
        (wireBytes l ++ c'.frontend).Sublist c.conn.frontend := by
    intro c' hlog hfrontend
    exact ⟨[], by simp [hlog], by simp, by simp [hfrontend]⟩
  cases ha with
  | io hio =>
      obtain ⟨l, hl, hall, hsub, -⟩ := hio.log
      exact ⟨l, hl, fun o ho => Or.inl (hall o ho), hsub⟩
  | feed hopen' => exact absurd hopen' hopen
  | startup hopen' => exact absurd hopen' hopen
  | ignore => exact ⟨[.received .other c.conn.beWait], rfl, by simp, List.Sublist.refl _⟩
  | terminate hopen' => exact absurd hopen' hopen
  | enqueue hbusy => exact absurd hwait hbusy
  | answer harrive => exact absurd (harrive.open ht) hopen
  | begin harrive => exact absurd (harrive.open ht) hopen
  | park harrive => exact absurd (harrive.open ht) hopen
  | bind harrive => exact absurd (harrive.open ht) hopen
  | lost harrive => exact absurd (harrive.open ht) hopen
  | lostCut harrive => exact absurd (harrive.open ht) hopen
  | draining v => exact hsame rfl rfl
  | unpark => exact hsame rfl rfl
  | repark _ hne => exact absurd hqueue hne
  | handshake _ hstate => exact nomatch hfree.symm.trans hstate
  | closing hopen' => exact absurd hopen' hopen

theorem streams_stable (hw : w.Appends) (tls hasPool : Bool) : Conn.Stable w cfg tls hasPool
    (fun o => o.mixes = true) (fun _ _ => True) (Conn.Streams w) where
  fresh := fun gen => ⟨List.Sublist.refl _, fun _ => List.prefix_rfl, fun _ _ => rfl, fun _ => rfl,
    explained_nil⟩
  admits := by
    intro s gen fd c _ _ hadmits
    cases hadmits <;> exact ⟨List.Sublist.refl _, fun _ => List.prefix_rfl, fun _ _ => rfl,
      fun _ => rfl, explained_nil⟩
  act := by
    intro c c' h h' ht ha hlog hc
    by_cases hfree : c.conn.state = .free
    · obtain ⟨l, hl, hidle, hsub⟩ := ha.idle ht hfree
      rw [hc.free hfree, List.sublist_nil, List.append_eq_nil_iff] at hsub
      have hproduced : produced w l = [] := List.flatMap_eq_nil_iff.mpr fun o ho => by
        rcases hidle o ho with hio | ⟨wait, rfl⟩
        · cases o <;> first | rfl | cases hio
        · rfl
      have hfree' : c'.conn.state = .free := ha.grows.keeps.free.mpr hfree
      refine hc.notes hl hsub.1 hproduced (explained_of_forall fun o ho => ?_) (Or.inr hsub.2)
        (fun hlive => absurd hfree' hlive) fun _ => hsub.2
      rcases hidle o ho with hio | ⟨wait, rfl⟩
      · exact hio.calm
      · exact ⟨by simp [Obs.Opens], by simp [Obs.Pends, Obs.Acknowledged]⟩
    · obtain ⟨l, hl, hfits⟩ := ha.grows.log
      refine hc.goesOn hw hl hfits hfree (fun hf => hfree (ha.grows.keeps.free.mp hf)) ?_
      exact unmixed_of_lacks fun o ho => hlog o (hl ▸ List.mem_append_right _ ho)
  land := by
    intro r c c' h h' ht _ hl hlog hc
    have hlive := (hl.open ht).1
    obtain ⟨l, hnew, hfits⟩ := hl.grows.log
    have hlanded : (c.conn.landed r.op).Streams w := by
      cases r.op <;> exact ⟨hc.order, hc.whole, hc.live, hc.free, hc.explained⟩
    have hlive' : (c.conn.landed r.op).state ≠ .free :=
      fun hf => hlive ((keeps_landed c.conn r.op).free.mp hf)
    refine hlanded.goesOn hw hnew hfits hlive' (fun hf => hlive (hl.keeps.free.mp hf)) ?_
    exact unmixed_of_lacks fun o ho => hlog o (hnew ▸ List.mem_append_right _ ho)
  delivered := by
    intro r c _ _ hc
    cases r.op <;> exact ⟨hc.order, hc.whole, hc.live, hc.free, hc.explained⟩
  abandon := by
    intro c hlive hc
    refine hc.notes (l := [.closed]) rfl rfl rfl ?_ (Or.inl rfl) (fun _ => ⟨hlive, rfl⟩)
      fun hfree => absurd hfree hlive
    exact explained_singleton (by rintro (h | h | ⟨t, h⟩) <;> cases h) (by rintro (h | h | h | h | h) <;> cases h)
  close := by
    intro c _ _ _ hc
    refine hc.notes (l := [.discarded c.feQ.toList]) rfl rfl rfl ?_ (Or.inr rfl)
      (fun hlive => absurd rfl hlive) fun _ => rfl
    exact explained_singleton (by rintro (h | h | ⟨t, h⟩) <;> cases h) (by rintro (h | h | h | h | h) <;> cases h)

/-- As long as backend bytes only come while no reply waits in the context of the frontend, the client
is sent what the server produced in the order in which it was produced. -/
theorem replies_in_order (hw : w.Appends) {nonblock : Bool} {now : Nat} {inputs : List Input}
    (hrun : Runs.Along (step w env)
      (fun s input => (step w env s input).Lacks fun o => o.mixes = true)
      (start env cfg nonblock now) inputs) (i : Slot) :
    ((Runs.run (step w env) (start env cfg nonblock now) inputs).conns i).RepliesInOrder w := by
  have hstreams : Conn.Streams w _ := (streams_stable hw (!cfg.plain) _).run
    (hrun.mono fun s input h => ⟨delivers_any s input, h⟩) i
  refine ⟨(List.sublist_append_left ..).trans hstreams.order,
    fun hnone => ⟨hstreams.whole hnone, fun hlive => hstreams.live hlive hnone⟩, ?_⟩
  intro before after hlog
  have hchain := hstreams.explained.chain
  have hpends := hstreams.explained.pends
  rw [hlog] at hchain hpends
  cases after with
  | nil => exact absurd (Or.inl rfl) (hpends (.completed false) (by simp))
  | cons o rest =>
      have hfollows := (List.isChain_cons_cons.mp (List.isChain_append.mp hchain).2.1).1
      exact ⟨rest, by rw [hfollows.acknowledged rfl]⟩

/-- A pipeline completes after its Sync. -/
def syncedInputs : List Input :=
  [accepts 0, receives 0 [.startup, .parse smallParse, .bind smallBind, .execute, .sync],
    .complete 0 1 (.sent 77), .complete 0 3 (.data bareResponse.bytes)]

/-- The Sync comes when the response to the Bind has been handed over. -/
def lateSyncInputs : List Input :=
  [accepts 0, receives 0 [.startup, .parse smallParse, .bind smallBind], .complete 0 1 (.sent 77),
    .complete 0 3 (.data bareResponse.bytes), receives 2 [.execute, .sync]]

theorem replies_in_order_late :
    ((smallRun lateSyncInputs).conns ⟨0, by decide⟩).RepliesInOrder pgWire ∧
      .handed [] bareResponse.bytes ∈ ((smallRun lateSyncInputs).conns ⟨0, by decide⟩).log := by
  have hrun : Runs.Along (step pgWire smallEnv)
      (fun s input => (step pgWire smallEnv s input).Lacks fun o => o.mixes = true)
      (start smallEnv smallConfig true 0) lateSyncInputs := by decide +kernel
  have hhanded : .handed [] bareResponse.bytes ∈
      ((smallRun lateSyncInputs).conns ⟨0, by decide⟩).log := by decide +kernel
  refine ⟨?_, hhanded⟩
  rw [smallRun, smallServer]
  exact replies_in_order WirePg.appends hrun ⟨0, by decide⟩

/-- The ReadyForQuery of the backend is sent ahead of the BindComplete that was produced before it. -/
theorem not_replies_in_order :
    ¬ ((smallRun syncedInputs).conns ⟨0, by decide⟩).RepliesInOrder pgWire := by
  intro h
  have hnone : ∀ o ∈ ((smallRun syncedInputs).conns ⟨0, by decide⟩).log,
      (match o with | .refused _ => false | _ => true) = true := by decide +kernel
  have hprefix := (h.whole fun data hmem => nomatch hnone _ hmem).1
  exact absurd hprefix (by decide +kernel)

end
