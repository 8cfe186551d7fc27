import PqProxy.LoopOwnership

/-! Output that was not sent yet: a request that resumes sending is outstanding for its connection,
unless a poll that does not wait for room was pending when the output came. -/

section

variable {w : Pqwire} {env : Env} {i : Slot} {s t : Server} {rs rs' : List Request}
  {conns conns' : Slot → Conn}

/-! ### Requests that resume sending -/

/-- What a connection has pending is outstanding for its slot. -/
structure Conn.Resumes (rs : List Request) (i : Slot) (c : Conn) : Prop where
  send : c.sendPending = true → ∃ r ∈ rs, r.op = .send ∧ r.slot = i
  poll : c.pollPending = true → ∃ r ∈ rs, r.op = .poll ∧ r.slot = i ∧ r.pollOut = c.polledOut

/-- Nothing is pending. -/
theorem Conn.Resumes.of_none {c : Conn} (hsend : c.sendPending = false) (hpoll : c.pollPending = false) :
    c.Resumes rs i :=
  ⟨fun h => absurd (hsend.symm.trans h) nofun, fun h => absurd (hpoll.symm.trans h) nofun⟩

/-- The entries that a connection prepares are added. -/
theorem Conn.Resumes.sends {c c' : Cell} (h : c.conn.Resumes rs c.slot) (hsends : Sends c c')
    (hrs : ∀ r ∈ rs, r ∈ rs') (hsq : ∀ r ∈ c'.sq, r ∈ rs') : c'.conn.Resumes rs' c.slot where
  send := by
    intro hpending
    rcases hsends.sendEntry hpending with hold | ⟨r, hr, hown, hop⟩
    · obtain ⟨r, hr, hop, hslot⟩ := h.send hold
      exact ⟨r, hrs r hr, hop, hslot⟩
    · exact ⟨r, hsq r hr, hop, hown.slot⟩
  poll := by
    intro hpending
    rcases hsends.pollEntry hpending with hold | ⟨r, hr, hown, hop, hout⟩
    · obtain ⟨r, hr, hop, hslot, hout⟩ := h.poll hold
      exact ⟨r, hrs r hr, hop, hslot, hout.trans (hsends.pollPending hold).2.symm⟩
    · exact ⟨r, hsq r hr, hop, hown.slot, hout⟩

/-- The requests that are outstanding but for `r` still are, and so is what the connection has pending
when that is not `r`. -/
theorem Conn.Resumes.deliver {c c' : Conn} {r : Request} (h : c.Resumes rs i)
    (hrs : ∀ x ∈ rs, x ≠ r → x ∈ rs')
    (hsend : c'.sendPending = true → c.sendPending = true ∧ r.op ≠ .send)
    (hpoll : c'.pollPending = true → c.pollPending = true ∧ c'.polledOut = c.polledOut ∧ r.op ≠ .poll) :
    c'.Resumes rs' i where
  send := by
    intro hpending
    obtain ⟨hold, hne⟩ := hsend hpending
    obtain ⟨x, hx, hop, hslot⟩ := h.send hold
    exact ⟨x, hrs x hx fun heq => hne (heq ▸ hop), hop, hslot⟩
  poll := by
    intro hpending
    obtain ⟨hold, hsame, hne⟩ := hpoll hpending
    obtain ⟨x, hx, hop, hslot, hout⟩ := h.poll hold
    exact ⟨x, hrs x hx fun heq => hne (heq ▸ hop), hop, hslot, hout.trans hsame.symm⟩

/-- Output flows, or its connection was closed, and what is pending is outstanding. -/
structure Carried (conns : Slot → Conn) (rs : List Request) : Prop where
  flows : ∀ i, (conns i).Flows ∨ .closed ∈ (conns i).log
  resumes : ∀ i, (conns i).state ≠ .free → (conns i).Resumes rs i

namespace Carried

/-- One connection changes, and the requests of the others stay outstanding. -/
theorem change (h : Carried conns rs) (hothers : ∀ j, j ≠ i → conns' j = conns j)
    (hrs : ∀ x ∈ rs, x.op = .send ∨ x.op = .poll → x.slot ≠ i → x ∈ rs')
    (hflows : (conns' i).Flows ∨ .closed ∈ (conns' i).log)
    (hresumes : (conns' i).state ≠ .free → (conns' i).Resumes rs' i) : Carried conns' rs' where
  flows := by
    intro j
    by_cases hj : j = i
    · rw [hj]
      exact hflows
    · rw [hothers j hj]
      exact h.flows j
  resumes := by
    intro j hlive
    by_cases hj : j = i
    · rw [hj] at hlive ⊢
      exact hresumes hlive
    · rw [hothers j hj] at hlive ⊢
      refine ⟨fun hpending => ?_, fun hpending => ?_⟩
      · obtain ⟨x, hx, hop, hslot⟩ := (h.resumes j hlive).send hpending
        exact ⟨x, hrs x hx (Or.inl hop) (hslot ▸ hj), hop, hslot⟩
      · obtain ⟨x, hx, hop, hslot, hout⟩ := (h.resumes j hlive).poll hpending
        exact ⟨x, hrs x hx (Or.inr hop) (hslot ▸ hj), hop, hslot, hout⟩

/-- More requests are outstanding. -/
theorem mono (h : Carried conns rs) (hrs : ∀ x ∈ rs, x ∈ rs') : Carried conns rs' :=
  ⟨h.flows, fun i hlive => ⟨fun hpending =>
    let ⟨x, hx, hrest⟩ := (h.resumes i hlive).send hpending
    ⟨x, hrs x hx, hrest⟩, fun hpending =>
    let ⟨x, hx, hrest⟩ := (h.resumes i hlive).poll hpending
    ⟨x, hrs x hx, hrest⟩⟩⟩

end Carried

/-- What is in the way of output: a poll that does not wait for room, or a full submission queue. -/
def Obs.strands : Obs → Bool
  | .unarmed | .noSqe => true
  | _ => false

theorem flows_of_sends {c c' : Cell} (hsends : Sends c c') (hlog : ∀ o ∈ c'.conn.log, ¬ o.strands = true)
    (hmem : .closed ∈ c.conn.log → .closed ∈ c'.conn.log)
    (h : c.conn.Flows ∨ .closed ∈ c.conn.log) : c'.conn.Flows ∨ .closed ∈ c'.conn.log :=
  h.imp (hsends.flows (fun ho => hlog _ ho rfl) fun ho => hlog _ ho rfl) hmem

/-! ### The server -/

def Server.Carries (s : Server) : Prop := Carried s.conns s.outstanding

namespace Server.Carries

/-- A connection goes on. -/
theorem sends (h : s.Carries) (hframe : Frame w i s t) {new : List Request} (hsq : t.sq = s.sq ++ new)
    (hsends : Sends (s.cell i) (t.cell i)) (hfree : (t.conns i).state = .free ↔ (s.conns i).state = .free)
    (hmem : .closed ∈ (s.conns i).log → .closed ∈ (t.conns i).log)
    (hlog : ∀ o ∈ (t.conns i).log, ¬ o.strands = true) : t.Carries := by
  have hrs : ∀ x ∈ s.outstanding, x ∈ t.outstanding := by
    intro x hx
    unfold Server.outstanding at hx ⊢
    rw [hframe.inflight, hsq]
    simp only [List.mem_append] at hx ⊢
    tauto
  refine Carried.change h hframe.others (fun x hx _ _ => hrs x hx)
    (flows_of_sends hsends hlog hmem (h.flows i)) fun hlive => ?_
  exact (h.resumes i fun hf => hlive (hfree.mpr hf)).sends hsends hrs
    fun r hr => List.mem_append_right _ hr

/-- A connection gives its backend up. -/
theorem abandon (h : s.Carries) (habandon : Abandoned w i s t) : t.Carries := by
  have houtstanding : t.outstanding = s.outstanding := by
    unfold Server.outstanding
    rw [habandon.inflight, habandon.sq]
  refine Carried.change h habandon.others (fun x hx _ _ => houtstanding ▸ hx) (Or.inr ?_)
    fun hlive => ?_
  · rw [habandon.conn]
    exact List.mem_append_right _ List.mem_cons_self
  · rw [habandon.conn] at hlive ⊢
    have hold := h.resumes i hlive
    rw [houtstanding]
    exact ⟨hold.send, hold.poll⟩

/-- The completion of a backend request leaves what the frontend has pending. -/
theorem land {r : Request} (h : Carried s.conns rs) (hrs : ∀ x ∈ rs, x ≠ r → x ∈ s.outstanding)
    (hop : r.op = .beSend ∨ r.op = .beRecv) (hland : LandTurn w r.op r.slot s t)
    (hlog : ∀ o ∈ (t.conns r.slot).log, ¬ o.strands = true) : t.Carries := by
  have hgrows := hland.land.grows
  have hkeeps := hland.land.keeps
  obtain ⟨new, hnew, -⟩ := hgrows.sq
  have hsq : t.sq = s.sq ++ new := hnew
  have hne : r.op ≠ .send ∧ r.op ≠ .poll := by
    rcases hop with hop | hop <;> rw [hop] <;> exact ⟨nofun, nofun⟩
  have hout : ∀ x ∈ s.outstanding, x ∈ t.outstanding := by
    intro x hx
    unfold Server.outstanding at hx ⊢
    rw [hland.inflight, hsq]
    simp only [List.mem_append] at hx ⊢
    tauto
  have hflows : ((s.conns r.slot).landed r.op).Flows ∨ .closed ∈ ((s.conns r.slot).landed r.op).log := by
    rcases hop with hop | hop <;> rw [hop] <;> exact h.flows r.slot
  refine Carried.change h hland.others (fun x hx _ hslot => hout x (hrs x hx ?_))
    (flows_of_sends hgrows.sends hlog (fun hmem => hgrows.log_mem hmem) hflows) fun hlive => ?_
  · exact fun heq => hslot (heq ▸ rfl)
  · have hold := h.resumes r.slot fun hf => hlive (hkeeps.free.mpr hf)
    have hlanded : ((s.conns r.slot).landed r.op).Resumes s.outstanding r.slot := by
      refine hold.deliver hrs (fun hp => ⟨?_, hne.1⟩) fun hp => ⟨?_, ?_, hne.2⟩
      · rcases hop with hop | hop <;> rw [hop] at hp <;> exact hp
      · rcases hop with hop | hop <;> rw [hop] at hp <;> exact hp
      · rcases hop with hop | hop <;> rw [hop] <;> rfl
    exact Conn.Resumes.sends (c := (s.cell r.slot).upd fun conn => conn.landed r.op) hlanded hgrows.sends
      hout fun x hx => List.mem_append_right _ hx

/-- The completion of request `r`, which is no longer in flight, begins to be handled. -/
theorem begins {r : Request} (h : Carried s.conns rs) (hrs : ∀ x ∈ rs, x ≠ r → x ∈ s.outstanding)
    (hmode : r.op = .send → (s.conns r.slot).ssl = false) (hbegins : Begins w r s t)
    (ht : t.Lacks fun o => o.strands = true) : t.Carries := by
  have hslot : ∀ x ∈ rs, x.slot ≠ r.slot → x ∈ s.outstanding :=
    fun x hx hne => hrs x hx fun heq => hne (heq ▸ rfl)
  cases hbegins with
  | skip hskip =>
      refine h.change (i := r.slot) (fun _ _ => rfl) (fun x hx _ hne => hslot x hx hne)
        (h.flows r.slot) fun hlive => ?_
      have hne : r.op ≠ .send ∧ r.op ≠ .poll := by
        rcases hskip with hop | hfree | ⟨hop | hop, -⟩
        · rw [hop]
          exact ⟨nofun, nofun⟩
        · exact absurd hfree hlive
        · rw [hop]
          exact ⟨nofun, nofun⟩
        · rw [hop]
          exact ⟨nofun, nofun⟩
      exact (h.resumes r.slot hlive).deliver hrs (fun hp => ⟨hp, hne.1⟩) fun hp => ⟨hp, rfl, hne.2⟩
  | @accept j _ hop haccept =>
      obtain ⟨fd, hadmits⟩ := haccept.conn
      have houtstanding : t.outstanding = s.outstanding := by
        unfold Server.outstanding
        rw [haccept.inflight, haccept.sq]
      have hnew : (t.conns j).Flows ∧ (t.conns j).sendPending = false ∧
          (t.conns j).pollPending = false := by
        generalize t.conns j = c at hadmits
        cases hadmits <;> exact ⟨fun hlt => absurd hlt (Nat.lt_irrefl 0), rfl, rfl⟩
      refine h.change haccept.others (fun x hx hxop _ => houtstanding ▸ hrs x hx ?_) (Or.inl hnew.1)
        fun _ => .of_none hnew.2.1 hnew.2.2
      rintro rfl
      rw [hop] at hxop
      exact hxop.elim nofun nofun
  | recv hop hlive =>
      have hconn := conns_updConn s r.slot fun c => { c with recvPending := false }
      refine h.change (Beside.updConn s _).others (fun x hx _ hne => hslot x hx hne) ?_ fun hlive' => ?_
      · rw [hconn]
        exact h.flows r.slot
      · rw [hconn]
        exact (h.resumes r.slot hlive).deliver hrs (fun hp => ⟨hp, by rw [hop]; nofun⟩)
          fun hp => ⟨hp, rfl, by rw [hop]; nofun⟩
  | send n hop hlive =>
      have hconn := conns_updConn s r.slot fun c => { c with sendPending := false }
      have hflag : ((s.updConn r.slot fun c => { c with sendPending := false }).conns r.slot).Resumes
          s.outstanding r.slot := by
        rw [hconn]
        exact (h.resumes r.slot hlive).deliver hrs nofun fun hp => ⟨hp, rfl, by rw [hop]; nofun⟩
      have hothers := (Beside.updConn s (i := r.slot) fun c => { c with sendPending := false }).others
      have hssl : ((s.updConn r.slot fun c => { c with sendPending := false }).conns r.slot).ssl =
          false := by
        rw [hconn]
        exact hmode hop
      have houtstanding : (s.updConn r.slot fun c => { c with sendPending := false }).outstanding =
          s.outstanding := rfl
      generalize (s.updConn r.slot fun c => { c with sendPending := false }) = u at *
      -- what is left of the output is being written again
      obtain ⟨hio, hflows⟩ := advanceSend_io n (u.cell r.slot)
      obtain ⟨new, hnew, -⟩ := hio.sq
      have hcell := conns_onCell u r.slot fun c => (advanceSend n c, true)
      have hsq : ((u.onCell r.slot fun c => (advanceSend n c, true)).1).sq = u.sq ++ new := hnew
      have hin : ((u.onCell r.slot fun c => (advanceSend n c, true)).1).inflight = u.inflight := rfl
      have hall := (Beside.onCell u (i := r.slot) fun c => (advanceSend n c, true)).others
      have hlog := ht r.slot
      generalize (u.onCell r.slot fun c => (advanceSend n c, true)).1 = v at *
      have hout : ∀ x ∈ s.outstanding, x ∈ v.outstanding := by
        intro x hx
        rw [← houtstanding] at hx
        unfold Server.outstanding at hx ⊢
        rw [hin, hsq]
        simp only [List.mem_append] at hx ⊢
        tauto
      rw [hcell] at hlog
      refine h.change (fun j hj => (hall j hj).trans (hothers j hj))
        (fun x hx _ hne => hout x (hslot x hx hne)) (Or.inl ?_) fun _ => ?_
      · rw [hcell]
        exact hflows hssl fun hmem => hlog _ hmem rfl
      · rw [hcell]
        exact Conn.Resumes.sends hflag hio.sends hout fun x hx =>
          List.mem_append_right _ (hsq.trans hnew.symm ▸ hx)
  | sendCut hop hlive habandon =>
      have hconn := conns_updConn s r.slot fun c => { c with sendPending := false }
      have hall := habandon.others
      have hothers := (Beside.updConn s (i := r.slot) fun c => { c with sendPending := false }).others
      have hclosed := habandon.conn
      have houtstanding : t.outstanding = s.outstanding := by
        unfold Server.outstanding
        rw [habandon.inflight, habandon.sq]
        rfl
      rw [hconn] at hclosed
      refine h.change (fun j hj => (hall j hj).trans (hothers j hj))
        (fun x hx _ hne => houtstanding ▸ hslot x hx hne) (Or.inr ?_) fun _ => ?_
      · rw [hclosed]
        exact List.mem_append_right _ List.mem_cons_self
      · rw [hclosed, houtstanding]
        exact (h.resumes r.slot hlive).deliver hrs nofun fun hp => ⟨hp, rfl, by rw [hop]; nofun⟩
  | poll hop hlive =>
      have hconn := conns_updConn s r.slot fun c => { c with pollPending := false }
      refine h.change (Beside.updConn s _).others (fun x hx _ hne => hslot x hx hne) ?_ fun hlive' => ?_
      · rw [hconn]
        refine (h.flows r.slot).imp (fun hflows hlt => ?_) id
        have := hflows hlt
        split at this
        · rename_i hssl
          rw [if_pos hssl]
          exact nofun
        · rename_i hssl
          rw [if_neg hssl]
          exact this
      · rw [hconn]
        exact (h.resumes r.slot hlive).deliver hrs (fun hp => ⟨hp, by rw [hop]; nofun⟩)
          fun hp => nomatch hp
  | land hop hland => exact land h hrs hop hland (ht r.slot)
  | landCut hop hland hlive habandon =>
      have hm := ht.back (.single ⟨r.slot, .abandon hlive habandon⟩)
      exact (land h hrs hop hland (hm r.slot)).abandon habandon

end Server.Carries

/-- What is pending is outstanding, as long as output never finds its connection waiting for input
alone, and submission entries are left. -/
theorem carries_stable :
    Server.Stable w (fun o => o.strands = true) (fun _ _ => True) Server.Carries where
  maintained := by
    intro s t _ hmaint h
    have houtstanding : t.outstanding = s.outstanding := by
      unfold Server.outstanding
      rw [(hmaint.frame ⟨0, by decide⟩).inflight, hmaint.sq]
    unfold Server.Carries
    rw [hmaint.conns, houtstanding]
    exact h
  begins := by
    intro s r k t hs hr _ hbegins ht h
    refine Server.Carries.begins (s := { s with inflight := s.inflight.eraseIdx k }) h
      (fun x hx hne => ?_) (fun hop => ?_) hbegins ht
    · obtain ⟨hk, rfl⟩ := List.getElem?_eq_some_iff.mp hr
      have hperm := (List.getElem_cons_eraseIdx_perm hk).symm.append_right s.sq
      exact (List.mem_cons.mp (hperm.mem_iff.mp hx)).resolve_left hne
    · cases htls : s.tls with
      | true => exact absurd hop (hs.good.mode.requests htls r (Or.inl (List.mem_of_getElem? hr))).2
      | false => exact (hs.good.mode.plain htls r.slot).2
  change := by
    intro i s t _ hchange ht h
    cases hchange with
    | act hturn =>
        have hgrows := hturn.act.grows
        obtain ⟨new, hnew, -⟩ := hgrows.sq
        exact h.sends hturn.toFrame hnew hgrows.sends hgrows.keeps.free
          (fun hmem => hgrows.log_mem hmem) (ht i)
    | abandon _ habandon => exact h.abandon habandon
    | close _ hclose =>
        refine Carried.change h hclose.others (fun x hx _ _ => ?_) (Or.inr ?_) fun hlive => ?_
        · unfold Server.outstanding
          rw [hclose.inflight, hclose.sq]
          exact hx
        · rw [hclose.conn]
          exact List.mem_append_left _ hclose.closed
        · rw [hclose.conn] at hlive
          exact absurd rfl hlive
  submitted := by
    intro s t hsubmit h
    have hrest := hsubmit.rest
    simp only [Prod.mk.injEq] at hrest
    obtain ⟨-, -, -, -, -, hconns, -⟩ := hrest
    obtain ⟨l, hinflight, -⟩ := hsubmit.inflight
    unfold Server.Carries
    rw [hconns]
    refine h.mono fun x hx => ?_
    unfold Server.outstanding at hx ⊢
    rw [hinflight, hsubmit.sq]
    simp only [List.mem_append] at hx ⊢
    tauto

/-- A request that resumes sending is in flight for every connection that has unsent output: a write,
or a poll that waits for room. -/
def Server.OutputResumes (s : Server) : Prop :=
  ∀ i, (s.conns i).state ≠ .free → (s.conns i).sendOff < (s.conns i).sendLen →
    ∃ r ∈ s.inflight, r.slot = i ∧
      if (s.conns i).ssl = true then r.op = .poll ∧ r.pollOut = true else r.op = .send

instance (s : Server) : Decidable s.OutputResumes :=
  inferInstanceAs (Decidable (∀ i, (s.conns i).state ≠ .free → _ → ∃ r ∈ s.inflight, _))

/-- Between two iterations no output is stranded, as long as output never came while a poll was pending
that does not wait for room. -/
theorem output_resumes {cfg : Config} {nonblock : Bool} {now : Nat} {inputs : List Input}
    (hrun : Runs.Along (step w env)
      (fun s input => (step w env s input).Lacks fun o => o.strands = true)
      (start env cfg nonblock now) inputs) :
    (Runs.run (step w env) (start env cfg nonblock now) inputs).OutputResumes := by
  have hready := run_ready (w := w) env cfg nonblock now inputs
  have hstart : (start env cfg nonblock now).Carries :=
    ⟨fun i => Or.inl fun hlt => absurd hlt (Nat.lt_irrefl 0), fun i hlive => absurd rfl hlive⟩
  have hcarries := carries_stable.run hstart
    (hrun.mono fun s input h => ⟨delivers_any s input, h⟩)
  generalize Runs.run (step w env) (start env cfg nonblock now) inputs = s at hready hcarries
  have hsame : s.outstanding = s.inflight := by
    unfold Server.outstanding
    rw [hready.sq, List.append_nil]
  intro i hlive hunsent
  have hflows := ((hcarries.flows i).resolve_right fun hmem =>
    hlive (hready.finished i nofun hmem)) hunsent
  have hresumes := hcarries.resumes i hlive
  rw [hsame] at hresumes
  split at hflows
  · rename_i hssl
    have hpolled := hready.good.polled i nofun hlive hssl
    obtain ⟨r, hr, hop, hslot, hout⟩ := hresumes.poll hpolled
    exact ⟨r, hr, hslot, by rw [if_pos hssl]; exact ⟨hop, hout.trans (hflows hpolled)⟩⟩
  · rename_i hssl
    obtain ⟨r, hr, hop, hslot⟩ := hresumes.send hflows
    exact ⟨r, hr, hslot, by rw [if_neg hssl]; exact hop⟩

/-- A plain server's twin with certificates. -/
def tlsConfig : Config := { smallConfig with plain := false }

/-- A client of a TLS server runs its Bind, and reads what it was sent until then. -/
def tlsInputs : List Input :=
  [acceptsTls 0, polls 0 0 [[.startup, .parse smallParse, .bind smallBind, .execute, .sync]],
    polls 2 20 [], .complete 0 1 (.sent 70)]

def tlsRun (inputs : List Input) : Server :=
  Runs.run (step pgWire smallEnv) (start smallEnv tlsConfig true 0) inputs

theorem output_resumes_tls : (tlsRun (tlsInputs.take 2)).OutputResumes ∧
    ((tlsRun (tlsInputs.take 2)).conns ⟨0, by decide⟩).sendLen = 20 := by
  have hrun : Runs.Along (step pgWire smallEnv)
      (fun s input => (step pgWire smallEnv s input).Lacks fun o => o.strands = true)
      (start smallEnv tlsConfig true 0) (tlsInputs.take 2) := by decide +kernel
  exact ⟨output_resumes hrun, by decide +kernel⟩

/-- The result of the pipeline stays in the send buffer: the poll that is pending waits for input. -/
theorem not_output_resumes :
    ¬ (tlsRun (tlsInputs ++ [.complete 0 2 (.data bareResponse.bytes)])).OutputResumes := by
  decide +kernel

end
