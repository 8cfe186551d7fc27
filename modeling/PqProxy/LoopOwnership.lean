import PqProxy.LoopRun

/-! Who owns a backend: a connection holds one exactly while a pipeline of it runs, exactly then one
request to the backend is pending, and a backend is busy for the connection that holds it. -/

section

variable {w : Pqwire} {env : Env} {i : Slot} {s t u : Server}

/-- The backend side of a connection. -/
def Conn.backend (c : Conn) : Option Nat × BeWait × Bool × Bool :=
  (c.be, c.beWait, c.beSendPending, c.beRecvPending)

/-- A backend is held while a pipeline runs, with one request to it. -/
structure Conn.Coherent (c : Conn) : Prop where
  running : c.be ≠ none ↔ c.beWait = .sending ∨ c.beWait = .reading
  requests : c.beSendPending.toNat + c.beRecvPending.toNat = if c.be = none then 0 else 1

namespace Conn.Coherent

theorem of_eq {c c' : Conn} (h : c.Coherent) (heq : c'.backend = c.backend) : c'.Coherent := by
  simp only [Conn.backend, Prod.mk.injEq] at heq
  obtain ⟨hbe, hwait, hsend, hrecv⟩ := heq
  exact ⟨by rw [hbe, hwait]; exact h.running, by rw [hsend, hrecv, hbe]; exact h.requests⟩

/-- A connection that runs no pipeline. -/
theorem rested {c : Conn} (hbe : c.be = none)
    (hwait : c.beWait = .idle ∨ c.beWait = .waitingPool) (hsend : c.beSendPending = false)
    (hrecv : c.beRecvPending = false) : c.Coherent := by
  refine ⟨⟨fun h => absurd hbe h, fun h => ?_⟩, by rw [hsend, hrecv, if_pos hbe]; rfl⟩
  rcases hwait with hw | hw
  · rw [hw] at h
    exact absurd h (by simp)
  · rw [hw] at h
    exact absurd h (by simp)

theorem be_none {c : Conn} (h : c.Coherent) (hwait : c.beWait = .idle ∨ c.beWait = .waitingPool) :
    c.be = none ∧ c.beSendPending = false ∧ c.beRecvPending = false := by
  have hbe : c.be = none := by
    by_contra hne
    rcases h.running.mp hne with hw | hw
    · rw [hw] at hwait
      simp at hwait
    · rw [hw] at hwait
      simp at hwait
  have hsum := h.requests
  rw [if_pos hbe] at hsum
  refine ⟨hbe, ?_, ?_⟩
  · cases hsend : c.beSendPending with
    | false => rfl
    | true => rw [hsend, Bool.toNat_true] at hsum; omega
  · cases hrecv : c.beRecvPending with
    | false => rfl
    | true => rw [hrecv, Bool.toNat_true] at hsum; omega

theorem matched {c : Conn} (h : c.Coherent) : c.Matched := h.running.mp

/-- One of the two requests is pending exactly while a backend is held. -/
theorem exactly_one {c : Conn} (h : c.Coherent) :
    (c.be ≠ none ↔ c.beWait = .sending ∨ c.beWait = .reading) ∧
      (c.be ≠ none ↔ (c.beSendPending = true ∧ c.beRecvPending = false) ∨
        (c.beSendPending = false ∧ c.beRecvPending = true)) := by
  refine ⟨h.running, ?_⟩
  have hsum := h.requests
  cases hsend : c.beSendPending <;> cases hrecv : c.beRecvPending <;>
    rw [hsend, hrecv] at hsum <;> split at hsum <;> simp_all

end Conn.Coherent

/-- A connection that waits for the pool, or does no longer, runs no pipeline in either case. -/
theorem Conn.Coherent.waits {c c' : Conn} (h : c.Coherent)
    (hwait : c.beWait = .idle ∨ c.beWait = .waitingPool)
    (hwait' : c'.beWait = .idle ∨ c'.beWait = .waitingPool) (hbe : c'.be = c.be)
    (hsend : c'.beSendPending = c.beSendPending) (hrecv : c'.beRecvPending = c.beRecvPending) :
    c'.Coherent := by
  obtain ⟨hnone, hs, hr⟩ := h.be_none hwait
  exact .rested (hbe.trans hnone) hwait' (hsend.trans hs) (hrecv.trans hr)

@[simp] theorem backend_note (c : Conn) (o : Obs) : (c.note o).backend = c.backend := rfl

@[simp] theorem backend_clearGot (c : Conn) : c.clearGot.backend = c.backend := rfl

@[simp] theorem backend_emptyResp (c : Conn) : c.emptyResp.backend = c.backend := rfl

@[simp] theorem backend_queue (c : Conn) (q : RingBuffer FeqItem feQMax) :
    ({ c with feQ := q } : Conn).backend = c.backend := rfl

/-- What leaves the side alone and makes no request leaves the connection coherent. -/
theorem Widens.backend {c c' : Cell} (h : Widens w c c') (hside : c'.conn.side = c.conn.side) :
    c'.conn.backend = c.conn.backend := by
  simp only [Conn.side, Prod.mk.injEq] at hside
  simp only [Conn.backend, hside.1, hside.2.1, h.pending.1, h.pending.2]

theorem Arrives.backend {c c₁ : Cell} {it : FeqItem} (h : Arrives c it c₁) :
    c₁.conn.backend = c.conn.backend := by
  cases h with
  | direct => exact backend_note _ _
  | popped _ hpop =>
      obtain ⟨q, -, rfl⟩ := feqPop_some hpop
      exact (backend_note _ _).trans (backend_queue _ _)

theorem BindArrives.backend {c c₁ : Cell} {src : BindSource} (h : BindArrives w c src c₁) :
    c₁.conn.backend = c.conn.backend ∧ (c.conn.beWait = .idle ∨ .noSqe ∈ c.conn.log) := by
  cases h with
  | direct _ hidle =>
      refine ⟨?_, Or.inl hidle⟩
      simp only [Cell.upd, Conn.received, Conn.binding, backend_note, backend_clearGot,
        backend_emptyResp]
  | popped hidle hpop =>
      obtain ⟨q, -, rfl⟩ := feqPop_some hpop
      refine ⟨?_, Or.inl hidle⟩
      simp only [Conn.binding, backend_note, backend_queue]
  | again _ hsqe => exact ⟨rfl, Or.inr hsqe⟩

theorem Tried.backend {c c' : Cell} (h : Tried c c') : c'.conn.backend = c.conn.backend := by
  obtain ⟨l, rfl, -⟩ := h
  rfl

/-- A write to the backend that is held is the only request. -/
theorem coherent_writing {c : Conn} {b : Nat} (hbe : c.be = some b)
    (hrecv : c.beRecvPending = false) : c.writing.Coherent := by
  have hbe' : c.writing.be ≠ none := fun h => nomatch hbe.symm.trans h
  refine ⟨⟨fun _ => Or.inl rfl, fun _ => hbe'⟩, ?_⟩
  rw [if_neg hbe', show c.writing.beRecvPending = false from hrecv]
  rfl

theorem begun_beRecvPending (c : Conn) (b : Nat) :
    (c.begun b).beRecvPending = c.beRecvPending := by
  rw [begun_eq]

/-- A new pipeline holds its backend, and its first write is pending. -/
theorem coherent_startOn {c c' : Cell} {b : Nat} {h : BackendConn} (hbegun : h.Begun)
    (hstart : c.startOn b h = (c', true)) (hsend : c.conn.beSendPending = false)
    (hrecv : c.conn.beRecvPending = false) : c'.conn.Coherent := by
  have hcases := startOn_cases c b hbegun
  have hbe := begun_be c.conn b
  have hsame := begun_beRecvPending c.conn b
  generalize c.conn.begun b = d at hcases hbe hsame
  rw [hstart] at hcases
  rcases hcases with ⟨hpending, -⟩ | ⟨-, r, -, heq⟩ | ⟨-, heq⟩
  · cases hsend.symm.trans hpending
  · rw [(Prod.mk.inj heq).1]
    exact coherent_writing hbe (hsame.trans hrecv)
  · cases (Prod.mk.inj heq).2

theorem prep_noSqe {c : Cell} {r : Request} {mark : Conn → Conn} (h : (c.prep r mark).2 = false) :
    .noSqe ∈ (c.prep r mark).1.conn.log := by
  rcases prep_cases c r mark with heq | heq
  · rw [heq] at h
    cases h
  · rw [heq]
    exact List.mem_append_right _ List.mem_cons_self

/-- No entry was left when a request to the backend cannot be prepared. -/
theorem submitBeRecv_noSqe {f : Nat → BackendConn} {c : Cell} (h : (submitBeRecv f c).2 = false) :
    .noSqe ∈ (submitBeRecv f c).1.conn.log := by
  unfold submitBeRecv at h ⊢
  split
  · rename_i hbe
    rw [hbe] at h
    cases h
  · rename_i b hbe
    rw [hbe] at h
    dsimp only at h
    split
    · rename_i hpending
      rw [if_pos hpending] at h
      cases h
    · rename_i hpending
      rw [if_neg hpending] at h
      exact prep_noSqe h

theorem submitBeSend_noSqe {f : Nat → BackendConn} {c : Cell} (h : (submitBeSend f c).2 = false) :
    .noSqe ∈ (submitBeSend f c).1.conn.log := by
  unfold submitBeSend at h ⊢
  split
  · rename_i hbe
    rw [hbe] at h
    cases h
  · rename_i b hbe
    rw [hbe] at h
    dsimp only at h
    split
    · rename_i hpending
      rw [if_pos hpending] at h
      cases h
    · rename_i hpending
      rw [if_neg hpending] at h
      split
      · rename_i hptr
        rw [hptr] at h
        exact submitBeRecv_noSqe h
      · rename_i hptr
        rw [hptr] at h
        exact prep_noSqe h

theorem startOn_noSqe {c c' : Cell} {b : Nat} {h : BackendConn} (hstart : c.startOn b h = (c', false)) :
    .noSqe ∈ c'.conn.log := by
  have hfail : (c.startOn b h).2 = false := by rw [hstart]
  have hsqe := submitBeSend_noSqe hfail
  rwa [show submitBeSend _ _ = (c', false) from hstart] at hsqe

/-- What a turn does to the backend side of its connection. -/
inductive Conn.Backs (c c' : Conn) : Prop where
  | same (heq : c'.backend = c.backend)
  | waits (hwait : c.beWait = .idle ∨ c.beWait = .waitingPool)
      (hwait' : c'.beWait = .idle ∨ c'.beWait = .waitingPool) (hbe : c'.be = c.be)
      (hsend : c'.beSendPending = c.beSendPending) (hrecv : c'.beRecvPending = c.beRecvPending)
  | starts (hwait : c.beWait = .idle)
      (hstart : c.beSendPending = false → c.beRecvPending = false → c'.Coherent)
      (hgo : c'.beWait = .sending ∨ .crossed ∈ c'.log)

theorem Act.backs {cfg : Config} {hasPool : Bool} {c c' : Cell} {h h' : BackendConn}
    (ha : Act w cfg hasPool c h c' h') (hsqe : .noSqe ∉ c'.conn.log) : c.conn.Backs c'.conn := by
  have hbefore : .noSqe ∉ c.conn.log := fun hmem => hsqe (ha.grows.log_mem hmem)
  have hidle : ∀ {src : BindSource} {c₁ : Cell}, BindArrives w c src c₁ →
      c.conn.beWait = .idle ∧ c₁.conn.backend = c.conn.backend := fun harrive =>
    ⟨harrive.backend.2.resolve_right hbefore, harrive.backend.1⟩
  cases ha with
  | io hio => exact .same ((ext_io (w := w) hio).backend hio.side)
  | feed => exact .same (backend_note _ _)
  | startup =>
      refine .same (Eq.trans ?_ (backend_note c.conn (.received .startup c.conn.beWait)))
      exact (ext_onConn _ (adds_answerStartup _)).backend (side_replyThen _ _ _)
  | ignore => exact .same (backend_note _ _)
  | terminate => exact .same (backend_note c.conn (.received .terminate c.conn.beWait))
  | @enqueue h e hwait he =>
      obtain ⟨hbe, hwait', -⟩ := side_queueEvent (w := w) (c.conn.received e) e
      have hext : Widens w (c.upd fun conn => conn.received e)
          (c.upd fun conn => queueEvent w (conn.received e) e) := .of_adds (adds_queueEvent _ _)
      refine .same (Eq.trans ?_ (backend_note c.conn (.received e c.conn.beWait)))
      have hpending := hext.pending
      simp only [Conn.backend, Prod.mk.injEq]
      exact ⟨hbe, hwait', hpending.1, hpending.2⟩
  | answer harrive hanswer =>
      exact .same ((hanswer.ext.backend hanswer.side.2).trans harrive.backend)
  | begin harrive hready hbegun hstart =>
      obtain ⟨hwait, hsame⟩ := hidle harrive
      simp only [Conn.backend, Prod.mk.injEq] at hsame
      obtain ⟨-, -, hsend, hrecv⟩ := hsame
      obtain ⟨-, -, -, hgo, -⟩ := startOn_facts _ _ hbegun
      rw [hstart] at hgo
      exact .starts hwait (fun hs hr => coherent_startOn hbegun hstart (hsend.trans hs) (hrecv.trans hr))
        ((hgo rfl).imp_right And.right)
  | @park c₁ c₂ h src conn free harrive htried hqueue hfree =>
      obtain ⟨hwait, hsame⟩ := hidle harrive
      have hconn : conn.backend = c.conn.backend := by
        rw [requeue_conn hqueue]
        exact htried.backend.trans hsame
      simp only [Conn.backend, Prod.mk.injEq] at hconn
      exact .waits (Or.inl hwait) (Or.inr rfl) hconn.1 hconn.2.2.1 hconn.2.2.2
  | @bind c₁ c₂ h src why r harrive htried _ _ _ hwhy =>
      have hext : Widens w c₂ (c₂.onConn fun conn => answerBind w conn why r).1 :=
        ext_onConn _ (adds_answerBind _ hwhy _)
      exact .same (((hext.backend (side_answerBind _ _ _)).trans htried.backend).trans
        (hidle harrive).2)
  | @lost c₁ c₂ c₃ h h' src b harrive hready hstart hsend =>
      have hlost := ext_reportLost (w := w) c₂
      rw [hsend] at hlost
      exact absurd (hlost.log_mem (startOn_noSqe hstart)) hsqe
  | @lostCut c₁ c₂ c₃ h h' src b harrive hready hstart hsend =>
      have hlost := ext_reportLost (w := w) c₂
      rw [hsend] at hlost
      exact absurd (hlost.log_mem (startOn_noSqe hstart)) hsqe
  | draining v => exact .same rfl
  | unpark hwait => exact .waits (Or.inr hwait) (Or.inl rfl) rfl rfl rfl
  | repark hwait => exact .waits (Or.inl hwait) (Or.inr rfl) rfl rfl rfl
  | handshake peer hstate =>
      refine .same ?_
      simp only [Cell.onConn]
      unfold tlsOnHandshakeDone
      dsimp only
      split <;> rfl
  | closing => exact .same rfl

/-- A connection that is being closed while its pipeline runs has given its backend up. -/
structure Conn.Stopped (c : Conn) : Prop where
  live : c.state ≠ .free
  closed : .closed ∈ c.log
  be : c.be = none
  running : c.beWait = .sending ∨ c.beWait = .reading

/-- Every turn for which there are entries left keeps a connection coherent. -/
theorem Conn.Coherent.act {c c' : Conn} (hc : c.Coherent) (hbacks : c.Backs c') : c'.Coherent := by
  cases hbacks with
  | same heq => exact hc.of_eq heq
  | waits hwait hwait' hbe hsend hrecv => exact hc.waits hwait hwait' hbe hsend hrecv
  | starts hwait hstart =>
      obtain ⟨-, hsend, hrecv⟩ := hc.be_none (Or.inl hwait)
      exact hstart hsend hrecv

theorem Conn.Stopped.act {c c' : Conn} (hc : c.Stopped) (hbacks : c.Backs c')
    (hfree : c'.state = .free ↔ c.state = .free) (hclosed : .closed ∈ c'.log) : c'.Stopped := by
  have hbusy : ¬ (c.beWait = .idle ∨ c.beWait = .waitingPool) := by
    rcases hc.running with h | h
    · simp [h]
    · simp [h]
  cases hbacks with
  | same heq =>
      simp only [Conn.backend, Prod.mk.injEq] at heq
      exact ⟨fun h => hc.live (hfree.mp h), hclosed, heq.1.trans hc.be, by rw [heq.2.1]; exact hc.running⟩
  | waits hwait => exact absurd hwait hbusy
  | starts hwait => exact absurd (Or.inl hwait) hbusy

/-! ### Completions -/

/-- The next request to the backend is the only one. -/
theorem coherent_submitBeRecv {f : Nat → BackendConn} {c : Cell} (hbe : c.conn.be ≠ none)
    (hsend : c.conn.beSendPending = false) (hrecv : c.conn.beRecvPending = false)
    (hsqe : .noSqe ∉ (submitBeRecv f c).1.conn.log) : (submitBeRecv f c).1.conn.Coherent := by
  obtain ⟨b, hb⟩ := Option.ne_none_iff_exists'.mp hbe
  unfold submitBeRecv at hsqe ⊢
  rw [hb] at hsqe ⊢
  dsimp only at hsqe ⊢
  rw [if_neg (by simp [hrecv])] at hsqe ⊢
  rcases prep_cases c { c.request .beRecv with fd := (f b).fd, session := (f b).session }
    (fun conn => { conn with beRecvPending := true, beWait := .reading }) with h | h
  · rw [h]
    exact ⟨⟨fun _ => Or.inr rfl, fun _ => hbe⟩, by simp [hsend, hb]⟩
  · rw [h] at hsqe
    exact absurd (List.mem_append_right _ List.mem_cons_self) hsqe

theorem coherent_submitBeSend {f : Nat → BackendConn} {c : Cell} (hbe : c.conn.be ≠ none)
    (hsend : c.conn.beSendPending = false) (hrecv : c.conn.beRecvPending = false)
    (hsqe : .noSqe ∉ (submitBeSend f c).1.conn.log) : (submitBeSend f c).1.conn.Coherent := by
  obtain ⟨b, hb⟩ := Option.ne_none_iff_exists'.mp hbe
  unfold submitBeSend at hsqe ⊢
  rw [hb] at hsqe ⊢
  dsimp only at hsqe ⊢
  rw [if_neg (by simp [hsend])] at hsqe ⊢
  split at hsqe
  · exact coherent_submitBeRecv (c := { c with conn := { c.conn with beWait := .reading } }) hbe hsend
      hrecv hsqe
  · rename_i off len _
    rcases prep_cases c { c.request .beSend with
      fd := (f b).fd, backend := some b, off := off, len := len, session := (f b).session }
      (fun conn => { conn with beSendPending := true, beWait := .sending }) with h | h
    · rw [h]
      exact coherent_writing hb hrecv
    · rw [h] at hsqe
      exact absurd (List.mem_append_right _ List.mem_cons_self) hsqe

/-- Whether a request of this kind to the backend is pending. -/
def Conn.awaits (c : Conn) : Op → Bool
  | .beSend => c.beSendPending
  | .beRecv => c.beRecvPending
  | _ => false

/-- The only request to the backend has completed. -/
theorem Conn.Coherent.landed {c : Conn} (h : c.Coherent) {op : Op} (hflag : c.awaits op = true) :
    (c.landed op).be = c.be ∧ (c.landed op).beSendPending = false ∧
      (c.landed op).beRecvPending = false := by
  have hsum := h.requests
  have hle : (if c.be = none then 0 else 1) ≤ 1 := by split <;> omega
  cases op with
  | beSend =>
      rw [show c.beSendPending = true from hflag, Bool.toNat_true] at hsum
      refine ⟨rfl, rfl, ?_⟩
      cases hrecv : c.beRecvPending with
      | false => exact hrecv
      | true => rw [hrecv, Bool.toNat_true] at hsum; omega
  | beRecv =>
      rw [show c.beRecvPending = true from hflag, Bool.toNat_true] at hsum
      refine ⟨rfl, ?_, rfl⟩
      cases hsend : c.beSendPending with
      | false => exact hsend
      | true => rw [hsend, Bool.toNat_true] at hsum; omega
  | _ => cases hflag

/-- So does the completion of the request that is pending, when the connection goes on. -/
theorem Land.coherent {op : Op} {c c' : Cell} {h h' : BackendConn} (hl : Land w op c h c' h')
    (hgo : c'.conn.GoesOn) (hsqe : .noSqe ∉ c'.conn.log) (hc : c.conn.Coherent)
    (hflag : c.conn.awaits op = true) : c'.conn.Coherent := by
  obtain ⟨hbe, hsend, hrecv⟩ := hc.landed hflag
  cases hl with
  | sent n hne => exact coherent_submitBeSend (hbe ▸ hne) hsend hrecv hsqe
  | resend hne => exact coherent_submitBeSend (hbe ▸ hne) hsend hrecv hsqe
  | more hne hdata => exact coherent_submitBeRecv (hbe ▸ hne) hsend hrecv hsqe
  | @complete _ c₁ _ h' data resp hne hdata hdeliver =>
      have hext := ext_deliverResult (w := w)
        (c.upd fun conn => (conn.landed .beRecv).gotData resp (usedUp h h' data)) h'.pipeSt.sawError
      rw [hdeliver] at hext
      exact .rested rfl (Or.inl rfl) (hext.pending.1.trans hsend) (hext.pending.2.trans hrecv)
  | @completeCut _ _ _ _ data resp hne hdata hdeliver =>
      have hext := ext_deliverResult (w := w)
        (c.upd fun conn => (conn.landed .beRecv).gotData resp (usedUp h h' data)) h'.pipeSt.sawError
      obtain ⟨-, hkeep, -⟩ := deliverResult_facts (w := w)
        (c.upd fun conn => (conn.landed .beRecv).gotData resp (usedUp h h' data)) h'.pipeSt.sawError
      rw [hdeliver] at hext hkeep
      rcases hgo.requested (by rw [hkeep]; exact hne) with hs | hr | hmem
      · cases (hext.pending.1.trans hsend).symm.trans hs
      · cases (hext.pending.2.trans hrecv).symm.trans hr
      · exact absurd hmem hsqe
  | @lost _ _ c₁ _ resp hne hreport =>
      have hext := ext_reportLost (w := w) (c.upd fun conn => { conn.landed op with beResp := resp })
      obtain ⟨-, hnone, -⟩ := reportLost_facts (w := w)
        (c.upd fun conn => { conn.landed op with beResp := resp })
      rw [hreport] at hext hnone
      exact .rested hnone (Or.inl rfl) (hext.pending.1.trans hsend) (hext.pending.2.trans hrecv)
  | @lostCut _ _ _ _ resp hne hreport =>
      have hext := ext_reportLost (w := w) (c.upd fun conn => { conn.landed op with beResp := resp })
      obtain ⟨-, hnone, -⟩ := reportLost_facts (w := w)
        (c.upd fun conn => { conn.landed op with beResp := resp })
      rw [hreport] at hext hnone
      exact .rested hnone (Or.inl (hgo.ended hnone)) (hext.pending.1.trans hsend)
        (hext.pending.2.trans hrecv)

/-- Whatever the completion leads to, a pipeline runs on or no request is pending. -/
theorem Land.running {op : Op} {c c' : Cell} {h h' : BackendConn} (hl : Land w op c h c' h')
    (hsqe : .noSqe ∉ c'.conn.log) (hc : c.conn.Coherent) (hflag : c.conn.awaits op = true) :
    (c'.conn.beWait = .sending ∨ c'.conn.beWait = .reading) ∨
      c'.conn.beWait = .idle ∧ c'.conn.beSendPending = false ∧ c'.conn.beRecvPending = false := by
  obtain ⟨hbe, hsend, hrecv⟩ := hc.landed hflag
  obtain ⟨-, -, -, -, hside⟩ := landed_fields c.conn op
  simp only [Conn.side, Prod.mk.injEq] at hside
  have hheld : ∀ {c₁ : Conn}, c₁.Coherent → c₁.be = c.conn.be → c.conn.be ≠ none →
      c₁.beWait = .sending ∨ c₁.beWait = .reading := fun h heq hne => h.running.mp (heq ▸ hne)
  cases hl with
  | sent n hne =>
      exact Or.inl (hheld (coherent_submitBeSend (hbe ▸ hne) hsend hrecv hsqe)
        (submitBeSend_facts _ _).2.1 hne)
  | resend hne =>
      exact Or.inl (hheld (coherent_submitBeSend (hbe ▸ hne) hsend hrecv hsqe)
        (submitBeSend_facts _ _).2.1 hne)
  | more hne hdata =>
      exact Or.inl (hheld (coherent_submitBeRecv (hbe ▸ hne) hsend hrecv hsqe)
        (submitBeRecv_facts _ _).2.1 hne)
  | @complete _ c₁ _ h' data resp hne hdata hdeliver =>
      have hext := ext_deliverResult (w := w)
        (c.upd fun conn => (conn.landed .beRecv).gotData resp (usedUp h h' data)) h'.pipeSt.sawError
      rw [hdeliver] at hext
      exact Or.inr ⟨rfl, hext.pending.1.trans hsend, hext.pending.2.trans hrecv⟩
  | @completeCut _ _ _ _ data resp hne hdata hdeliver =>
      obtain ⟨-, -, hwait, -⟩ := deliverResult_facts (w := w)
        (c.upd fun conn => (conn.landed .beRecv).gotData resp (usedUp h h' data)) h'.pipeSt.sawError
      rw [hdeliver] at hwait
      rw [hwait]
      exact Or.inl (hc.running.mp hne)
  | @lost _ _ c₁ _ resp hne hreport =>
      have hext := ext_reportLost (w := w) (c.upd fun conn => { conn.landed op with beResp := resp })
      rw [hreport] at hext
      exact Or.inr ⟨rfl, hext.pending.1.trans hsend, hext.pending.2.trans hrecv⟩
  | @lostCut _ _ _ _ resp hne hreport =>
      obtain ⟨-, -, hwait, -⟩ := reportLost_facts (w := w)
        (c.upd fun conn => { conn.landed op with beResp := resp })
      rw [hreport] at hwait
      rw [hwait.trans hside.2.1]
      exact Or.inl (hc.running.mp hne)

/-- The requests of one kind that were prepared for an incarnation of a slot. -/
def countFor (op : Op) (i : Slot) (gen : Nat) (rs : List Request) : Nat :=
  rs.countP fun r => decide (r.op = op ∧ r.slot = i ∧ r.gen = gen)

theorem countFor_append (op : Op) (i : Slot) (gen : Nat) (rs rs' : List Request) :
    countFor op i gen (rs ++ rs') = countFor op i gen rs + countFor op i gen rs' :=
  List.countP_append ..

/-- None is for another slot, or for an incarnation that has not come. -/
theorem countFor_none {op : Op} {i : Slot} {gen : Nat} {rs : List Request}
    (h : ∀ r ∈ rs, r.op = op → r.slot = i → r.gen ≠ gen) : countFor op i gen rs = 0 :=
  List.countP_eq_zero.mpr fun r hr => by simpa using h r hr

/-- All entries are for this incarnation. -/
theorem countFor_own {op : Op} {i : Slot} {gen : Nat} {rs : List Request}
    (h : ∀ r ∈ rs, r.slot = i ∧ r.gen = gen) : countFor op i gen rs = opCount op rs :=
  List.countP_congr fun r hr => by simp [h r hr]

/-- Of the outstanding requests none is for a later incarnation, and those for the one that has the slot
now are the pending ones. -/
structure Accounted (conns : Slot → Conn) (rs : List Request) : Prop where
  old : ∀ r ∈ rs, r.op ≠ .accept → r.gen ≤ (conns r.slot).gen
  pending : ∀ i op, op = .beSend ∨ op = .beRecv → (conns i).state ≠ .free →
    countFor op i (conns i).gen rs = ((conns i).awaits op).toNat

namespace Accounted

variable {conns conns' : Slot → Conn} {rs rs' new : List Request}

theorem perm (h : Accounted conns rs) (hperm : rs.Perm rs') : Accounted conns rs' where
  old := fun r hr => h.old r (hperm.mem_iff.mpr hr)
  pending := fun i op hop hlive => (hperm.countP_eq _).symm.trans (h.pending i op hop hlive)

/-- A connection goes on, and prepares entries. -/
theorem grows (h : Accounted conns rs) (hothers : ∀ j, j ≠ i → conns' j = conns j)
    (hgen : (conns' i).gen = (conns i).gen)
    (hfree : (conns' i).state = .free ↔ (conns i).state = .free)
    (hown : ∀ r ∈ new, r.slot = i ∧ r.gen = (conns i).gen)
    (hnew : ∀ op, op = .beSend ∨ op = .beRecv → (conns i).state ≠ .free →
      opCount op new + ((conns i).awaits op).toNat = ((conns' i).awaits op).toNat) :
    Accounted conns' (rs ++ new) where
  old := by
    have hsame : ∀ j, (conns' j).gen = (conns j).gen := by
      intro j
      by_cases hj : j = i
      · rw [hj, hgen]
      · rw [hothers j hj]
    intro r hr hop
    rw [hsame]
    rcases List.mem_append.mp hr with hr | hr
    · exact h.old r hr hop
    · obtain ⟨hslot, hrgen⟩ := hown r hr
      rw [hslot, hrgen]
  pending := by
    intro j op hop hlive
    rw [countFor_append]
    by_cases hj : j = i
    · subst hj
      have hlive' : (conns j).state ≠ .free := fun hf => hlive (hfree.mpr hf)
      rw [hgen, h.pending j op hop hlive', countFor_own hown, Nat.add_comm]
      exact hnew op hop hlive'
    · rw [hothers j hj] at hlive ⊢
      rw [h.pending j op hop hlive, countFor_none fun r hr _ hslot => ?_, Nat.add_zero]
      exact absurd (hslot.symm.trans (hown r hr).1) hj

/-- What is not accounted for changes. -/
theorem congr (h : Accounted conns rs) (hgen : ∀ j, (conns' j).gen = (conns j).gen)
    (hsame : ∀ j, (conns' j).state ≠ .free → (conns j).state ≠ .free ∧
      (conns' j).beSendPending = (conns j).beSendPending ∧
      (conns' j).beRecvPending = (conns j).beRecvPending) : Accounted conns' rs where
  old := fun r hr hop => (h.old r hr hop).trans (Nat.le_of_eq (hgen _).symm)
  pending := by
    intro j op hop hlive
    obtain ⟨hlive', hsend, hrecv⟩ := hsame j hlive
    rw [hgen, h.pending j op hop hlive']
    rcases hop with rfl | rfl
    · exact congrArg Bool.toNat hsend.symm
    · exact congrArg Bool.toNat hrecv.symm

/-- A request of another kind is delivered. -/
theorem other {r : Request} (h : Accounted conns (r :: rs))
    (hr : r.op ≠ .beSend ∧ r.op ≠ .beRecv ∨ (conns r.slot).state = .free) : Accounted conns rs where
  old := fun x hx => h.old x (List.mem_cons_of_mem r hx)
  pending := by
    intro j op hop hlive
    have hcount := h.pending j op hop hlive
    unfold countFor at hcount ⊢
    rwa [List.countP_cons_of_neg] at hcount
    rw [decide_eq_true_eq]
    rintro ⟨hrop, hslot, -⟩
    rcases hr with ⟨hs, hv⟩ | hfree
    · rw [hrop] at hs hv
      exact hop.elim hs hv
    · exact hlive (hslot ▸ hfree)

theorem awaits_landed (c : Conn) (op op' : Op) :
    (c.landed op).awaits op' = if op' = op then false else c.awaits op' := by
  cases op <;> cases op' <;> rfl

/-- The request of the incarnation that has the slot is delivered: it was pending, and is no longer. -/
theorem deliver {r : Request} (h : Accounted conns (r :: rs)) (hop : r.op = .beSend ∨ r.op = .beRecv)
    (hlive : (conns r.slot).state ≠ .free) (hgen : r.gen = (conns r.slot).gen) :
    (conns r.slot).awaits r.op = true ∧
      Accounted (Function.update conns r.slot ((conns r.slot).landed r.op)) rs := by
  have hcount := h.pending r.slot r.op hop hlive
  have hself : countFor r.op r.slot (conns r.slot).gen (r :: rs) =
      countFor r.op r.slot (conns r.slot).gen rs + 1 := by
    unfold countFor
    rw [List.countP_cons_of_pos]
    rw [decide_eq_true_eq]
    exact ⟨rfl, rfl, hgen⟩
  rw [hself] at hcount
  have hawaits : (conns r.slot).awaits r.op = true := by
    cases hflag : (conns r.slot).awaits r.op with
    | true => rfl
    | false =>
        rw [hflag] at hcount
        cases hcount
  have hkeeps := keeps_landed (conns r.slot) r.op
  refine ⟨hawaits, ?_, ?_⟩
  · intro x hx hxop
    have hold := h.old x (List.mem_cons_of_mem r hx) hxop
    by_cases hj : x.slot = r.slot
    · rw [hj] at hold
      rw [hj, Function.update_self, hkeeps.gen]
      exact hold
    · rwa [Function.update_of_ne hj]
  · intro j op hop' hlive'
    by_cases hj : j = r.slot
    · subst hj
      rw [Function.update_self] at hlive' ⊢
      rw [hkeeps.gen, awaits_landed]
      by_cases hsame : op = r.op
      · rw [if_pos hsame, hsame]
        rw [hawaits, Bool.toNat_true] at hcount
        exact Nat.succ.inj hcount
      · rw [if_neg hsame, ← h.pending r.slot op hop' hlive]
        unfold countFor
        rw [List.countP_cons_of_neg]
        rw [decide_eq_true_eq]
        exact fun hall => hsame hall.1.symm
    · rw [Function.update_of_ne hj] at hlive' ⊢
      rw [← h.pending j op hop' hlive']
      unfold countFor
      rw [List.countP_cons_of_neg]
      rw [decide_eq_true_eq]
      exact fun hall => hj hall.2.1.symm

/-- The slot is taken by a new incarnation, for which no request is outstanding. -/
theorem renewed (h : Accounted conns rs) (hothers : ∀ j, j ≠ i → conns' j = conns j)
    (hgen : (conns' i).gen = (conns i).gen + 1) (hsend : (conns' i).beSendPending = false)
    (hrecv : (conns' i).beRecvPending = false) : Accounted conns' rs where
  old := by
    intro r hr hop
    have hold := h.old r hr hop
    by_cases hj : r.slot = i
    · rw [hj] at hold ⊢
      omega
    · rwa [hothers _ hj]
  pending := by
    intro j op hop hlive
    by_cases hj : j = i
    · subst hj
      have hawaits : (conns' j).awaits op = false := by
        rcases hop with rfl | rfl
        · exact hsend
        · exact hrecv
      rw [hawaits, countFor_none fun r hr hrop hslot hrgen => ?_]
      · rfl
      · have hold := h.old r hr (by rw [hrop]; rcases hop with rfl | rfl <;> nofun)
        rw [hslot] at hold
        omega
    · rw [hothers j hj] at hlive ⊢
      exact h.pending j op hop hlive

/-- The kernel accepts further connections. -/
theorem accepts (h : Accounted conns rs) (hnew : ∀ r ∈ new, r = acceptRequest) :
    Accounted conns (rs ++ new) where
  old := by
    intro r hr hop
    rcases List.mem_append.mp hr with hr | hr
    · exact h.old r hr hop
    · rw [hnew r hr] at hop
      exact absurd rfl hop
  pending := by
    intro j op hop hlive
    rw [countFor_append, h.pending j op hop hlive, countFor_none fun r hr hrop => ?_, Nat.add_zero]
    rw [hnew r hr] at hrop
    rcases hop with rfl | rfl <;> cases hrop

end Accounted

/-! ### The server -/

/-- The requests that the kernel has, or will get at the end of the iteration. -/
def Server.outstanding (s : Server) : List Request := s.inflight ++ s.sq

/-- A pipeline runs on the backend that is held, or was stopped on one. -/
def Conn.InOrder (c : Conn) : Prop := c.Coherent ∨ c.Stopped

/-- Backends, their holders and the requests to them agree. -/
structure Server.Owns (s : Server) : Prop where
  accounted : Accounted s.conns s.outstanding
  coherent : ∀ i, (s.conns i).InOrder
  busy : ∀ b, (s.backends b).busy = true → ∃ i, (s.conns i).be = some b

/-- A completion is of a request of the incarnation that has the slot now. -/
def Current (c : Conn) (r : Request) : Prop := r.op = .accept ∨ r.gen = c.gen

instance (c : Conn) (r : Request) : Decidable (Current c r) := inferInstanceAs (Decidable (_ ∨ _))

/-- No backend stays busy without a holder. -/
theorem Busies.holders (h : Busies i s t) (hothers : ∀ j, j ≠ i → t.conns j = s.conns j)
    (hs : ∀ b, (s.backends b).busy = true → ∃ j, (s.conns j).be = some b) :
    ∀ b, (t.backends b).busy = true → ∃ j, (t.conns j).be = some b := by
  intro b hb
  rcases h b hb with hbe | ⟨hbefore, hne⟩
  · exact ⟨i, hbe⟩
  · obtain ⟨j, hj⟩ := hs b hbefore
    have hji : j ≠ i := fun heq => hne (heq ▸ hj)
    exact ⟨j, by rw [hothers j hji]; exact hj⟩

/-- The connection and the queue change, the backends do not, and the connection holds none. -/
theorem holders_same (hpool : t.pool = s.pool) (hothers : ∀ j, j ≠ i → t.conns j = s.conns j)
    (hnone : (s.conns i).be = none)
    (hs : ∀ b, (s.backends b).busy = true → ∃ j, (s.conns j).be = some b) :
    ∀ b, (t.backends b).busy = true → ∃ j, (t.conns j).be = some b := by
  intro b hb
  rw [Server.backends, hpool] at hb
  obtain ⟨j, hj⟩ := hs b hb
  have hji : j ≠ i := fun heq => by cases (heq ▸ hj).symm.trans hnone
  exact ⟨j, by rw [hothers j hji]; exact hj⟩

theorem coherent_frame {P : Conn → Prop} (hothers : ∀ j, j ≠ i → t.conns j = s.conns j)
    (hs : ∀ j, P (s.conns j)) (hi : P (t.conns i)) : ∀ j, P (t.conns j) := by
  intro j
  by_cases hj : j = i
  · rw [hj]
    exact hi
  · rw [hothers j hj]
    exact hs j

/-- A connection gives its backend up. -/
theorem stopped_abandon {c : Conn} (hlive : c.state ≠ .free)
    (h : (c.beWait = .sending ∨ c.beWait = .reading) ∨
      (c.beWait = .idle ∨ c.beWait = .waitingPool) ∧ c.beSendPending = false ∧
        c.beRecvPending = false) :
    ({ c.note .closed with be := none } : Conn).InOrder := by
  rcases h with hrun | ⟨hwait, hsend, hrecv⟩
  · exact Or.inr ⟨hlive, List.mem_append_right _ List.mem_cons_self, rfl, hrun⟩
  · exact Or.inl (.rested rfl hwait hsend hrecv)

theorem Conn.Coherent.stands {c : Conn} (h : c.Coherent) :
    (c.beWait = .sending ∨ c.beWait = .reading) ∨
      (c.beWait = .idle ∨ c.beWait = .waitingPool) ∧ c.beSendPending = false ∧
        c.beRecvPending = false := by
  cases hwait : c.beWait with
  | idle => exact Or.inr ⟨Or.inl rfl, (h.be_none (Or.inl hwait)).2⟩
  | waitingPool => exact Or.inr ⟨Or.inr rfl, (h.be_none (Or.inr hwait)).2⟩
  | sending => exact Or.inl (Or.inl rfl)
  | reading => exact Or.inl (Or.inr rfl)

namespace Server.Owns

/-- The turn of a connection. -/
theorem act (h : s.Owns) (hturn : ActTurn w i s t) (hsqe : .noSqe ∉ (t.conns i).log) : t.Owns := by
  have hgrows := hturn.act.grows
  have hbacks : (s.conns i).Backs (t.conns i) := hturn.act.backs hsqe
  obtain ⟨new, hnew, hown, hsend, hrecv⟩ := hgrows.sq
  have houtstanding : t.outstanding = s.outstanding ++ new := by
    unfold Server.outstanding
    rw [hturn.inflight, show t.sq = s.sq ++ new from hnew, List.append_assoc]
  refine ⟨?_, coherent_frame hturn.others h.coherent ?_, ?_⟩
  · rw [houtstanding]
    refine h.accounted.grows hturn.others hgrows.keeps.gen hgrows.keeps.free
      (fun r hr => ⟨(hown r hr).slot, (hown r hr).gen⟩) ?_
    rintro op (rfl | rfl) -
    · exact hsend
    · exact hrecv
  · rcases h.coherent i with hc | hc
    · exact Or.inl (hc.act hbacks)
    · exact Or.inr (hc.act hbacks hgrows.keeps.free (hgrows.log_mem hc.closed))
  · refine (hturn.busy hsqe ?_).holders hturn.others h.busy
    rcases h.coherent i with hc | hc
    · exact hc.matched
    · exact fun hne => absurd hc.be hne

/-- The connection gives its backend up, wherever its pipeline stands. -/
theorem abandoned (hacc : Accounted s.conns s.outstanding) (hcoherent : ∀ j, j ≠ i → (s.conns j).InOrder)
    (hbusy : ∀ b, (s.backends b).busy = true → ∃ j, (s.conns j).be = some b)
    (hlive : (s.conns i).state ≠ .free)
    (hstands : ((s.conns i).beWait = .sending ∨ (s.conns i).beWait = .reading) ∨
      ((s.conns i).beWait = .idle ∨ (s.conns i).beWait = .waitingPool) ∧
        (s.conns i).beSendPending = false ∧ (s.conns i).beRecvPending = false)
    (habandon : Abandoned w i s t) : t.Owns := by
  refine ⟨?_, fun j => ?_, habandon.busy.holders habandon.others hbusy⟩
  · have houtstanding : t.outstanding = s.outstanding := by
      unfold Server.outstanding
      rw [habandon.inflight, habandon.sq]
    rw [houtstanding]
    refine hacc.congr (fun j => ?_) fun j hj => ?_
    · by_cases hji : j = i
      · rw [hji, habandon.conn]
        rfl
      · rw [habandon.others j hji]
    · by_cases hji : j = i
      · rw [hji, habandon.conn]
        exact ⟨hlive, rfl, rfl⟩
      · rw [habandon.others j hji] at hj ⊢
        exact ⟨hj, rfl, rfl⟩
  · by_cases hji : j = i
    · rw [hji, habandon.conn]
      exact stopped_abandon hlive hstands
    · rw [habandon.others j hji]
      exact hcoherent j hji

theorem abandon (h : s.Owns) (hlive : (s.conns i).state ≠ .free) (habandon : Abandoned w i s t) :
    t.Owns := by
  refine abandoned h.accounted (fun j _ => h.coherent j) h.busy hlive ?_ habandon
  rcases h.coherent i with hc | hc
  · exact hc.stands
  · exact Or.inl hc.running

/-- The slot becomes free. -/
theorem close (h : s.Owns) (hclose : Closed w i s t) : t.Owns := by
  refine ⟨?_, coherent_frame hclose.others h.coherent ?_,
    holders_same hclose.pool hclose.others hclose.be h.busy⟩
  · have houtstanding : t.outstanding = s.outstanding := by
      unfold Server.outstanding
      rw [hclose.inflight, hclose.sq]
    rw [houtstanding]
    refine h.accounted.congr (fun j => ?_) fun j hj => ?_
    · by_cases hji : j = i
      · rw [hji, hclose.conn]
        rfl
      · rw [hclose.others j hji]
    · by_cases hji : j = i
      · rw [hji, hclose.conn] at hj
        exact absurd rfl hj
      · rw [hclose.others j hji] at hj ⊢
        exact ⟨hj, rfl, rfl⟩
  · rw [hclose.conn]
    exact Or.inl (.rested hclose.be (Or.inl rfl) rfl rfl)

/-- The delivered request was pending, and the entries prepared for the connection are its own. -/
theorem landed {r : Request} (hacc : Accounted s.conns (r :: s.outstanding))
    (hop : r.op = .beSend ∨ r.op = .beRecv) (hlive : (s.conns r.slot).state ≠ .free)
    (hgen : r.gen = (s.conns r.slot).gen) (hland : LandTurn w r.op r.slot s t) :
    (s.conns r.slot).awaits r.op = true ∧ Accounted t.conns t.outstanding := by
  obtain ⟨hawaits, hrest⟩ := hacc.deliver hop hlive hgen
  have hgrows := hland.land.grows
  obtain ⟨new, hnew, hown, hsend, hrecv⟩ := hgrows.sq
  have houtstanding : t.outstanding = s.outstanding ++ new := by
    unfold Server.outstanding
    rw [hland.inflight, show t.sq = s.sq ++ new from hnew, List.append_assoc]
  have hself : Function.update s.conns r.slot ((s.conns r.slot).landed r.op) r.slot =
      (s.conns r.slot).landed r.op := Function.update_self ..
  refine ⟨hawaits, ?_⟩
  rw [houtstanding]
  refine hrest.grows (i := r.slot) (fun j hj => ?_) ?_ ?_ (fun x hx => ?_) ?_
  · rw [Function.update_of_ne hj]
    exact hland.others j hj
  · rw [hself]
    exact hgrows.keeps.gen
  · rw [hself]
    exact hgrows.keeps.free
  · rw [hself]
    exact ⟨(hown x hx).slot, (hown x hx).gen⟩
  · rw [hself]
    rintro op (rfl | rfl) -
    · exact hsend
    · exact hrecv

/-- The frontend side of the connection goes on, and prepares entries that are not for a backend. -/
theorem beside (h : s.Owns) (hbeside : Beside i s t) (hkeeps : Keeps (s.conns i) (t.conns i))
    (hclosed : .closed ∈ (s.conns i).log → .closed ∈ (t.conns i).log)
    (hbackend : (t.conns i).backend = (s.conns i).backend) {new : List Request}
    (hsq : t.sq = s.sq ++ new) (hown : ∀ r ∈ new, Own (s.cell i) r)
    (hcount : opCount .beSend new = 0 ∧ opCount .beRecv new = 0) : t.Owns := by
  have hfields := hbackend
  simp only [Conn.backend, Prod.mk.injEq] at hfields
  obtain ⟨hbe, hwait, hsend, hrecv⟩ := hfields
  have hinflight : t.inflight = s.inflight := by
    have hrest := hbeside.rest
    simp only [Prod.mk.injEq] at hrest
    exact hrest.2.2.2.2.2.1
  have houtstanding : t.outstanding = s.outstanding ++ new := by
    unfold Server.outstanding
    rw [hinflight, hsq, List.append_assoc]
  refine ⟨?_, coherent_frame hbeside.others h.coherent ?_, fun b hb => ?_⟩
  · rw [houtstanding]
    refine h.accounted.grows hbeside.others hkeeps.gen hkeeps.free
      (fun r hr => ⟨(hown r hr).slot, (hown r hr).gen⟩) ?_
    rintro op (rfl | rfl) -
    · rw [hcount.1, Nat.zero_add]
      exact congrArg Bool.toNat hsend.symm
    · rw [hcount.2, Nat.zero_add]
      exact congrArg Bool.toNat hrecv.symm
  · rcases h.coherent i with hc | hc
    · exact Or.inl (hc.of_eq hbackend)
    · exact Or.inr ⟨fun hf => hc.live (hkeeps.free.mp hf), hclosed hc.closed, hbe.trans hc.be,
        by rw [hwait]; exact hc.running⟩
  · rw [hbeside.backends] at hb
    obtain ⟨j, hj⟩ := h.busy b hb
    refine ⟨j, ?_⟩
    by_cases hji : j = i
    · rw [hji] at hj ⊢
      exact hbe.trans hj
    · rw [hbeside.others j hji]
      exact hj

/-- A flag of the frontend is cleared. -/
theorem flag (h : s.Owns) {f : Conn → Conn} (hkeeps : Keeps (s.conns i) (f (s.conns i)))
    (hlog : (f (s.conns i)).log = (s.conns i).log)
    (hbackend : (f (s.conns i)).backend = (s.conns i).backend) : (s.updConn i f).Owns := by
  have hconn : (s.updConn i f).conns i = f (s.conns i) := conns_updConn ..
  rw [← hconn] at hkeeps hlog hbackend
  have hsq : (s.updConn i f).sq = s.sq ++ [] := (List.append_nil _).symm
  exact h.beside (.updConn s f) hkeeps (fun hmem => hlog ▸ hmem) hbackend hsq nofun ⟨rfl, rfl⟩

/-- Output of the frontend is moved. -/
theorem moved (w : Pqwire) (h : s.Owns) {f : Cell → Cell × Bool}
    (hio : Io [] (s.cell i) (f (s.cell i)).1) : (s.onCell i f).1.Owns := by
  have hext := ext_io (w := w) hio
  obtain ⟨new, hnew, hown, hsend, hrecv⟩ := hext.sq
  have hconn : (s.onCell i f).1.conns i = (f (s.cell i)).1.conn := conns_onCell ..
  have hkeeps : Keeps (s.conns i) ((s.onCell i f).1.conns i) := hconn ▸ hext.keeps
  refine h.beside (.onCell s f) hkeeps ?_ ?_ hnew hown ⟨?_, ?_⟩
  · rw [hconn]
    exact hext.closed_iff.mpr
  · rw [hconn]
    exact hext.backend hio.side
  · rw [hext.pending.1] at hsend
    omega
  · rw [hext.pending.2] at hrecv
    omega

/-- The completion of request `r`, which is no longer in flight, begins to be handled. -/
theorem begins {r : Request} (hacc : Accounted s.conns (r :: s.outstanding))
    (hcoherent : ∀ i, (s.conns i).InOrder)
    (hbusy : ∀ b, (s.backends b).busy = true → ∃ j, (s.conns j).be = some b)
    (hsound : s.Sound) (hfinished : s.Finished none) (hcurrent : Current (s.conns r.slot) r)
    (hbegins : Begins w r s t) (hsqe : t.Lacks (· = .noSqe)) : t.Owns := by
  have hother : r.op ≠ .beSend ∧ r.op ≠ .beRecv ∨ (s.conns r.slot).state = .free → s.Owns :=
    fun hr => ⟨hacc.other hr, hcoherent, hbusy⟩
  have hlives : (s.conns r.slot).state ≠ .free → (s.conns r.slot).Coherent := fun hlive =>
    (hcoherent r.slot).resolve_right fun hc => hlive (hfinished r.slot nofun hc.closed)
  have hgen : r.op = .beSend ∨ r.op = .beRecv → r.gen = (s.conns r.slot).gen := by
    intro hop
    refine hcurrent.resolve_left fun haccept => ?_
    rw [haccept] at hop
    exact hop.elim nofun nofun
  cases hbegins with
  | skip hskip =>
      rcases hskip with hop | hfree | ⟨hop, hnone⟩
      · exact hother (Or.inl (by rw [hop]; exact ⟨nofun, nofun⟩))
      · exact hother (Or.inr hfree)
      · by_cases hlive : (s.conns r.slot).state = .free
        · exact hother (Or.inr hlive)
        · -- a pending request would have its connection hold a backend
          obtain ⟨hawaits, -⟩ := hacc.deliver hop hlive (hgen hop)
          have hsum := (hlives hlive).requests
          rw [if_pos hnone] at hsum
          rcases hop with hop | hop
          · rw [hop] at hawaits
            rw [show (s.conns r.slot).beSendPending = true from hawaits, Bool.toNat_true] at hsum
            omega
          · rw [hop] at hawaits
            rw [show (s.conns r.slot).beRecvPending = true from hawaits, Bool.toNat_true] at hsum
            omega
  | @accept i _ hop haccept =>
      have hs := hother (Or.inl (by rw [hop]; exact ⟨nofun, nofun⟩))
      obtain ⟨fd, hadmits⟩ := haccept.conn
      have houtstanding : t.outstanding = s.outstanding := by
        unfold Server.outstanding
        rw [haccept.inflight, haccept.sq]
      have hfresh : (t.conns i).gen = (s.conns i).gen + 1 ∧ (t.conns i).beSendPending = false ∧
          (t.conns i).beRecvPending = false ∧ (t.conns i).Coherent := by
        generalize t.conns i = c at hadmits
        cases hadmits <;> exact ⟨rfl, rfl, rfl, .rested rfl (Or.inl rfl) rfl rfl⟩
      obtain ⟨hnew, hsend, hrecv, hc⟩ := hfresh
      refine ⟨houtstanding ▸ hs.accounted.renewed haccept.others hnew hsend hrecv,
        coherent_frame haccept.others hs.coherent (Or.inl hc), ?_⟩
      refine holders_same haccept.pool haccept.others ?_ hs.busy
      exact (hsound.tidy i fun hopen => hopen.1 haccept.free).2.2
  | recv hop =>
      have hs := hother (Or.inl (by rw [hop]; exact ⟨nofun, nofun⟩))
      exact hs.flag (.of_lasting rfl) rfl rfl
  | send n hop =>
      have hs := hother (Or.inl (by rw [hop]; exact ⟨nofun, nofun⟩))
      have hflag : (s.updConn r.slot fun c => { c with sendPending := false }).Owns :=
        hs.flag (.of_lasting rfl) rfl rfl
      exact hflag.moved w (advanceSend_io n _).1
  | sendCut hop hlive habandon =>
      have hs := hother (Or.inl (by rw [hop]; exact ⟨nofun, nofun⟩))
      have hflag : (s.updConn r.slot fun c => { c with sendPending := false }).Owns :=
        hs.flag (.of_lasting rfl) rfl rfl
      refine hflag.abandon ?_ habandon
      rw [conns_updConn]
      exact hlive
  | poll hop =>
      have hs := hother (Or.inl (by rw [hop]; exact ⟨nofun, nofun⟩))
      exact hs.flag (.of_lasting rfl) rfl rfl
  | land hop hland hgo =>
      have hlive := (hland.land.open (hsound.tidy r.slot)).1
      obtain ⟨hawaits, hacc'⟩ := landed hacc hop hlive (hgen hop) hland
      have hc : (t.conns r.slot).Coherent :=
        hland.land.coherent hgo (fun hmem => hsqe r.slot _ hmem rfl) (hlives hlive) hawaits
      exact ⟨hacc', coherent_frame hland.others hcoherent (Or.inl hc),
        hland.busy.holders hland.others hbusy⟩
  | @landCut m _ hop hland hlive' habandon =>
      have hlive := (hland.land.open (hsound.tidy r.slot)).1
      obtain ⟨hawaits, hacc'⟩ := landed hacc hop hlive (hgen hop) hland
      have hsqeM : .noSqe ∉ (m.conns r.slot).log := fun hmem =>
        hsqe.back (.single ⟨r.slot, .abandon hlive' habandon⟩) r.slot _ hmem rfl
      refine abandoned hacc' (fun j hj => ?_) (hland.busy.holders hland.others hbusy) hlive' ?_ habandon
      · rw [hland.others j hj]
        exact hcoherent j
      · exact (hland.land.running hsqeM (hlives hlive) hawaits).imp_right fun h => ⟨Or.inl h.1, h.2⟩

end Server.Owns

/-- The event loop keeps backends, holders and requests in agreement, as long as there are submission
entries and completions are of requests of the incarnations that have the slots. -/
theorem owns_stable : Server.Stable w (· = .noSqe) Current Server.Owns where
  maintained := by
    intro s t _ hmaint h
    have hlocal := hmaint.frame ⟨0, by decide⟩
    have houtstanding : t.outstanding = s.outstanding := by
      unfold Server.outstanding
      rw [hlocal.inflight, hmaint.sq]
    refine ⟨?_, fun i => hmaint.conns ▸ h.coherent i, ?_⟩
    · rw [hmaint.conns, houtstanding]
      exact h.accounted
    · exact hlocal.busy.holders (fun j _ => by rw [hmaint.conns]) h.busy
  begins := by
    intro s r k t hs hr hcurrent hbegins hsqe h
    have hperm : s.outstanding.Perm (r :: (s.inflight.eraseIdx k ++ s.sq)) := by
      obtain ⟨hk, rfl⟩ := List.getElem?_eq_some_iff.mp hr
      exact (List.getElem_cons_eraseIdx_perm hk).symm.append_right s.sq
    have herase : ({ s with inflight := s.inflight.eraseIdx k } : Server).Good none :=
      hs.good.erase fun x hx => List.mem_of_mem_eraseIdx hx
    exact Server.Owns.begins (s := { s with inflight := s.inflight.eraseIdx k })
      (h.accounted.perm hperm) h.coherent h.busy herase.toSound hs.finished hcurrent hbegins hsqe
  change := by
    intro i s t _ hchange hsqe h
    cases hchange with
    | act hturn => exact h.act hturn fun hmem => hsqe i _ hmem rfl
    | abandon hlive habandon => exact h.abandon hlive habandon
    | close _ hclose => exact h.close hclose
  submitted := by
    intro s t hsubmit h
    have hrest := hsubmit.rest
    simp only [Prod.mk.injEq] at hrest
    obtain ⟨-, -, hpool, -, -, hconns, -⟩ := hrest
    obtain ⟨l, hinflight, hnew⟩ := hsubmit.inflight
    have houtstanding : t.outstanding = s.outstanding ++ l := by
      unfold Server.outstanding
      rw [hinflight, hsubmit.sq, List.append_nil, List.append_assoc]
    refine ⟨?_, fun i => hconns ▸ h.coherent i, fun b hb => ?_⟩
    · rw [hconns, houtstanding]
      exact h.accounted.accepts hnew
    · rw [Server.backends, hpool] at hb
      rw [hconns]
      exact h.busy b hb

/-- No backend of a new pool is checked out. -/
theorem start_idle (cfg : Config) (nonblock : Bool) (now b : Nat) :
    ((start env cfg nonblock now).backends b).busy = false := by
  have hpool : (start env cfg nonblock now).pool = if nonblock then
      (if cfg.backendHost = [] then none else poolCreate env cfg.backend).map poolSetNonblock
      else if cfg.backendHost = [] then none else poolCreate env cfg.backend := rfl
  have hnew : ∀ p, (if cfg.backendHost = [] then none else poolCreate env cfg.backend) = some p →
      (p.conns b).busy = false := by
    intro p hp
    split at hp
    · cases hp
    · exact (poolCreate_unused hp).free b
  unfold Server.backends
  rw [hpool]
  generalize (if cfg.backendHost = [] then none else poolCreate env cfg.backend) = p at hnew
  cases p with
  | none => cases nonblock <;> rfl
  | some p =>
      have hfree := hnew p rfl
      cases nonblock with
      | false => exact hfree
      | true =>
          change ((poolSetNonblock p).conns b).busy = false
          rw [setNonblock_conn]
          exact hfree

theorem start_owns (cfg : Config) (nonblock : Bool) (now : Nat) :
    (start env cfg nonblock now).Owns := by
  have hnone : Accounted (start env cfg nonblock now).conns [] :=
    ⟨nofun, fun i op _ hlive => absurd rfl hlive⟩
  have hall : ∀ r ∈ [acceptRequest], r = acceptRequest := by simp
  refine ⟨hnone.accepts hall, fun i => Or.inl (.rested rfl (Or.inl rfl) rfl rfl), fun b hb => ?_⟩
  rw [start_idle] at hb
  cases hb

/-- Backends belong to the connections whose pipelines run on them. -/
structure Server.ExclusivelyOwned (s : Server) : Prop where
  running : ∀ i, (s.conns i).be ≠ none ↔
    (s.conns i).beWait = .sending ∨ (s.conns i).beWait = .reading
  requested : ∀ i, (s.conns i).be ≠ none ↔ (s.conns i).beSendPending ≠ (s.conns i).beRecvPending
  unique : ∀ i j b, (s.conns i).be = some b → (s.conns j).be = some b → i = j
  busy : ∀ b, (s.backends b).busy = true ↔ ∃ i, (s.conns i).be = some b
  alive : ∀ i b, (s.conns i).be = some b → (s.backends b).alive = true

/-- Between two iterations a connection holds a backend exactly while it sends to it or reads from it,
with one request pending; no backend has two holders, and the busy ones are those that are held. -/
theorem backends_exclusivelyOwned {cfg : Config} {nonblock : Bool} {now : Nat} {inputs : List Input}
    (hrun : Runs.Along (step w env)
      (fun s input => Delivers Current s input ∧ (step w env s input).Lacks (· = .noSqe))
      (start env cfg nonblock now) inputs) :
    (Runs.run (step w env) (start env cfg nonblock now) inputs).ExclusivelyOwned := by
  have hready : (Runs.run (step w env) (start env cfg nonblock now) inputs).Ready :=
    run_ready env cfg nonblock now inputs
  have howns := owns_stable.run (start_owns cfg nonblock now) hrun
  generalize Runs.run (step w env) (start env cfg nonblock now) inputs = s at hready howns ⊢
  have hcoherent : ∀ i, (s.conns i).Coherent := fun i =>
    (howns.coherent i).resolve_right fun hc => hc.live (hready.finished i nofun hc.closed)
  refine ⟨fun i => (hcoherent i).running, fun i => ?_, hready.good.unique, fun b => ⟨howns.busy b, ?_⟩, ?_⟩
  · rw [(hcoherent i).exactly_one.2]
    cases (s.conns i).beSendPending <;> cases (s.conns i).beRecvPending <;> simp
  · rintro ⟨i, hbe⟩
    exact (hready.good.held i b hbe).1
  · exact fun i b hbe => (hready.good.held i b hbe).2

/-- A client runs its Bind on the only backend. -/
theorem backends_exclusivelyOwned_bind :
    (smallRun [accepts 0, receives 0 [.startup, .parse smallParse, .bind smallBind]]).ExclusivelyOwned ∧
      ((smallRun [accepts 0, receives 0 [.startup, .parse smallParse, .bind smallBind]]).conns
        ⟨0, by decide⟩).be = some 0 :=
  ⟨backends_exclusivelyOwned (by decide +kernel), by decide +kernel⟩

end
