import PqProxy.LoopBooks
import PqProxy.LoopLost

/-! Completions that come late. A completion carries the number of a slot, and the slot can have been given
to another connection meanwhile. -/

/-- A request of an earlier connection of the slot. -/
def Server.Stale (s : Server) (r : Request) : Prop := ¬ Current (s.conns r.slot) r

/-- The handler of such a completion goes on: the slot is in use, and what comes from a backend is for a
connection that holds one. -/
def Server.Heeds (s : Server) (r : Request) : Prop :=
  (s.conns r.slot).state ≠ .free ∧ (r.op = .beSend ∨ r.op = .beRecv → (s.conns r.slot).be ≠ none)

/-- Completions of requests of earlier connections leave the one that has the slot now alone. -/
def Server.Isolated (w : Pqwire) (env : Env) (s : Server) : Prop :=
  ∀ now k r cqe, s.inflight[k]? = some r → s.Stale r →
    (step w env s (.complete now k cqe)).conns r.slot = s.conns r.slot

/-- A slot is given to a new connection while no request for an earlier one is in flight. -/
def TakesClear (s : Server) : Input → Prop
  | .complete _ k (.accepted ..) => (∃ r ∈ s.inflight[k]?, r.op = .accept) →
      ∀ i ∈ allocConn s, ∀ r ∈ s.inflight, r.op = .accept ∨ r.slot ≠ i
  | _ => True

instance (s : Server) : ∀ input, Decidable (TakesClear s input)
  | .timeout _ => isTrue trivial
  | .complete _ k (.accepted ..) => inferInstanceAs (Decidable ((∃ r ∈ s.inflight[k]?, r.op = .accept) →
      ∀ i ∈ allocConn s, ∀ r ∈ s.inflight, r.op = .accept ∨ r.slot ≠ i))
  | .complete _ _ (.failed _) | .complete _ _ .eof | .complete _ _ (.received _)
  | .complete _ _ (.sent _) | .complete _ _ (.polled _) | .complete _ _ (.data _) => isTrue trivial

section

variable {w : Pqwire} {env : Env} {i : Slot} {s t u : Server}

/-- The entries that wait for submission are of the connections that have the slots. -/
def Server.Prepared (s : Server) : Prop := ∀ r ∈ s.sq, Current (s.conns r.slot) r

theorem Fate.gen {c c' : Conn} (h : Fate c c') : c'.gen = c.gen := by
  rcases h with h | ⟨-, -, h⟩
  · exact h.gen
  · exact h

/-- A connection prepares requests of its own. -/
theorem Server.Prepared.grows (h : s.Prepared) {f : Conn → Conn} (hf : (f (s.conns i)).gen = (s.conns i).gen)
    (hgrows : Grows w ((s.cell i).upd f) (t.cell i)) (hothers : ∀ j, j ≠ i → t.conns j = s.conns j) :
    t.Prepared := by
  have hgen : ∀ j, (t.conns j).gen = (s.conns j).gen := fun j => by
    by_cases hj : j = i
    · rw [hj]
      exact hgrows.keeps.gen.trans hf
    · rw [hothers j hj]
  obtain ⟨new, hnew, hown, -⟩ := hgrows.sq
  intro r hr
  rw [show t.sq = s.sq ++ new from hnew] at hr
  rcases List.mem_append.mp hr with hr | hr
  · exact (h r hr).imp_right fun heq => heq.trans (hgen r.slot).symm
  · have hr' := hown r hr
    have hslot : r.slot = i := hr'.slot
    rw [hslot]
    exact Or.inr (hr'.gen.trans (hf.trans (hgen i).symm))

theorem Server.Prepared.same (h : s.Prepared) (hsq : t.sq = s.sq)
    (hgen : ∀ j, (t.conns j).gen = (s.conns j).gen) : t.Prepared := by
  intro r hr
  rw [hsq] at hr
  exact (h r hr).imp_right fun heq => heq.trans (hgen r.slot).symm

theorem Change.prepared (h : Change w i s t) (hs : s.Prepared) : t.Prepared := by
  have hgen := fun j => (h.fate j).gen
  cases h with
  | act hturn => exact hs.grows (f := id) rfl hturn.act.grows hturn.others
  | abandon _ habandon => exact hs.same habandon.sq hgen
  | close _ hclose => exact hs.same hclose.sq hgen

theorem Changes.prepared (h : Changes w s t) (hs : s.Prepared) : t.Prepared := by
  induction h with
  | refl => exact hs
  | tail _ hchange ih =>
      obtain ⟨i, hchange⟩ := hchange
      exact hchange.prepared ih

theorem Begins.prepared {r : Request} (h : Begins w r s t) (hs : s.Prepared) (hop : r.op ≠ .accept) :
    t.Prepared := by
  have hgen := fun j => (h.fate hop j).gen
  cases h with
  | skip => exact hs
  | accept hacc => exact absurd hacc hop
  | recv | poll => exact hs.same rfl hgen
  | send n =>
      have hflag : (s.updConn r.slot fun c => { c with sendPending := false }).Prepared := by
        refine hs.same rfl fun j => ?_
        exact (fate_others (Beside.updConn s _).others (Or.inl (by
          rw [conns_updConn]
          exact .of_lasting rfl)) j).gen
      generalize s.updConn r.slot (fun c => { c with sendPending := false }) = u at hflag
      refine hflag.grows (w := w) (f := id) rfl ?_ (Beside.onCell (i := r.slot) u _).others
      rw [cell_onCell (advanceSend_io n (u.cell r.slot)).1.slot]
      exact (ext_io (advanceSend_io n (u.cell r.slot)).1).toGrows
  | sendCut _ _ habandon => exact hs.same habandon.sq hgen
  | land _ hland => exact hs.grows (by cases r.op <;> rfl) hland.land.grows hland.others
  | landCut _ hland hlive habandon =>
      exact Change.prepared (.abandon hlive habandon)
        (hs.grows (by cases r.op <;> rfl) hland.land.grows hland.others)

theorem Changes.inflight (h : Changes w s t) : t.inflight = s.inflight := by
  induction h with
  | refl => rfl
  | tail _ hchange ih =>
      obtain ⟨i, hchange⟩ := hchange
      exact hchange.frame.inflight.trans ih

/-- The requests in flight are of the connections that have the slots. -/
def Server.Clear (s : Server) : Prop := ∀ r ∈ s.inflight, Current (s.conns r.slot) r

theorem Submitted.clear (h : Submitted s t) (hs : s.Prepared) (hin : s.Clear) : t.Clear := by
  obtain ⟨l, hl, haccept⟩ := h.inflight
  have hrest := h.rest
  simp only [Prod.mk.injEq] at hrest
  obtain ⟨-, -, -, -, -, hconns, -⟩ := hrest
  intro r hr
  rw [hl] at hr
  rw [hconns]
  rcases List.mem_append.mp hr with hr | hr
  · exact hin r hr
  · rcases List.mem_append.mp hr with hr | hr
    · exact hs r hr
    · rw [haccept r hr]
      exact Or.inl rfl

theorem Changes.clear (h : Changes w s t) (hs : s.Clear) : t.Clear := by
  intro r hr
  rw [h.inflight] at hr
  exact (hs r hr).imp_right fun heq => heq.trans (h.fate r.slot).gen.symm

/-- A slot that no request is in flight for is given to a new connection. -/
theorem acceptOne_clear (env : Env) (hs : s.Good none) (hsq : s.sq = []) (hin : s.Clear)
    (htakes : ∀ i ∈ allocConn s, ∀ r ∈ s.inflight, r.op = .accept ∨ r.slot ≠ i) (fd : Nat)
    (setup : AcceptSetup) : (acceptOne env (drainQueue w env) s fd setup).Prepared ∧
      (acceptOne env (drainQueue w env) s fd setup).Clear := by
  cases halloc : allocConn s with
  | none =>
      have hsame : acceptOne env (drainQueue w env) s fd setup = s := by
        unfold acceptOne
        rw [halloc]
      rw [hsame]
      refine ⟨fun r hr => ?_, hin⟩
      rw [hsq] at hr
      cases hr
  | some i =>
      obtain ⟨t, haccept, -, hmoves, -⟩ := acceptOne_admits (w := w) env hs halloc fd setup
      refine ⟨hmoves.changes.prepared fun r hr => ?_, hmoves.changes.clear fun r hr => ?_⟩
      · rw [haccept.sq, hsq] at hr
        cases hr
      · rw [haccept.inflight] at hr
        rcases htakes i halloc r hr with hop | hne
        · exact Or.inl hop
        · rw [haccept.others r.slot hne]
          exact hin r hr

theorem step_clear (hs : s.Ready) (hin : s.Clear) {input : Input} (htakes : TakesClear s input) :
    (step w env s input).Clear := by
  cases input with
  | timeout now =>
      obtain ⟨hmaint, -⟩ := maintained_serverTick w env hs.good now
      have hsame : (serverTick env s now).inflight = s.inflight := (hmaint.frame ⟨0, by decide⟩).inflight
      intro r hr
      rw [show (step w env s (.timeout now)).inflight = s.inflight from hsame] at hr
      rw [show (step w env s (.timeout now)).conns = s.conns from hmaint.conns]
      exact hin r hr
  | complete now k cqe =>
      cases hr : s.inflight[k]? with
      | none =>
          have heq : step w env s (.complete now k cqe) = submitAll s := by
            simp only [step, dispatch, hr]
          rw [heq]
          refine (submitted_all s).clear (fun r hr => ?_) hin
          rw [hs.sq] at hr
          cases hr
      | some r =>
          have herase : ({ s with inflight := s.inflight.eraseIdx k } : Server).Good none :=
            hs.good.erase fun x hx => List.mem_of_mem_eraseIdx hx
          obtain ⟨hmaint, hgood⟩ := maintained_serverTick w env herase now
          have hsq := hmaint.sq.trans hs.sq
          have hsame := (hmaint.frame ⟨0, by decide⟩).inflight
          have hconns := hmaint.conns
          rw [step_dispatchTo hr]
          have hplain : r.op = .recv ∨ r.op = .send →
              (serverTick env { s with inflight := s.inflight.eraseIdx k } now).tls = false := fun hop => by
            rw [(hmaint.frame ⟨0, by decide⟩).tls]
            exact hs.good.mode.plain_of (List.mem_of_getElem? hr) hop
          generalize serverTick env { s with inflight := s.inflight.eraseIdx k } now = m
            at hmaint hgood hsq hsame hconns hplain ⊢
          have hsub : ∀ x ∈ m.inflight, x ∈ s.inflight := fun x hx => by
            rw [show m.inflight = s.inflight.eraseIdx k from hsame] at hx
            exact List.mem_of_mem_eraseIdx hx
          have hinM : m.Clear := fun x hx => by
            rw [show m.conns = s.conns from hconns]
            exact hin x (hsub x hx)
          have hnone : m.Prepared := fun x hx => by
            rw [hsq] at hx
            cases hx
          by_cases hop : r.op = .accept
          · rw [hop]
            dsimp only [dispatchTo]
            cases cqe with
            | accepted fd setup =>
                obtain ⟨hprepared, hclear⟩ := acceptOne_clear (w := w) env hgood hsq hinM
                  (fun i hi x hx => htakes ⟨r, hr, hop⟩ i
                    (allocConn_congr (show m.conns = s.conns from hconns) ▸ hi) x (hsub x hx)) fd setup
                exact (submitted_accept _).clear hprepared hclear
            | _ => exact (submitted_accept m).clear hnone hinM
          · obtain ⟨u, ⟨⟨b, hopens, hmoves⟩, -⟩, heq⟩ := dispatchTo_spec (w := w) env hgood hplain cqe
            rw [heq, if_neg hop]
            obtain ⟨a, hbegins, hchanges⟩ := hopens.begins
            have hall : Changes w a u := hchanges.trans hmoves.changes
            refine (submitted_all u).clear (hall.prepared (hbegins.prepared hnone hop)) (hall.clear ?_)
            obtain ⟨j, hframe, -⟩ := hbegins.frame hgood.toOwned
            intro x hx
            rw [hframe.inflight] at hx
            exact (hinM x hx).imp_right fun heq => heq.trans (hbegins.fate hop x.slot).gen.symm

theorem closeConn_free (drain : Server → Slot → Server × Bool) (s : Server) (i : Slot) :
    ((closeConn env drain s i).conns i).state = .free := by
  unfold closeConn
  split
  · assumption
  · dsimp only
    rw [conns_updConn]
    rfl

/-- A request that fails closes its connection, or takes its backend away. -/
theorem step_failed (now : Nat) (hw : w.Appends) (hs : s.Ready) {k : Nat} {r : Request}
    (hr : s.inflight[k]? = some r) (hop : r.op ≠ .accept) (hheeds : s.Heeds r) :
    (step w env s (.complete now k (.failed false))).conns r.slot ≠ s.conns r.slot := by
  obtain ⟨hlive, hbe⟩ := hheeds
  by_cases hto : r.op = .beSend ∨ r.op = .beRecv
  · have hfails : s.Fails w r.slot r.op (.failed false) := by
      rcases hto with hop | hop
      · rw [hop]
        exact (rfl : false = false)
      · rw [hop]
        trivial
    obtain ⟨behind, hlog⟩ := step_fails env now hw hs hr (hbe hto) hfails
    intro heq
    rw [heq] at hlog
    exact absurd (List.self_eq_append_right.mp hlog) nofun
  · have hconns : (serverTick env { s with inflight := s.inflight.eraseIdx k } now).conns = s.conns :=
      conns_serverTick now
    rw [step_dispatchTo hr]
    generalize serverTick env { s with inflight := s.inflight.eraseIdx k } now = m at hconns ⊢
    have hliveM : (m.conns r.slot).state ≠ .free := by
      rw [hconns]
      exact hlive
    have hfree : ((dispatchTo w env (drainQueue w env) m r.op r.slot (.failed false)).conns r.slot).state =
        .free := by
      unfold dispatchTo
      cases hkind : r.op with
      | accept => exact absurd hkind hop
      | recv | send | poll =>
          dsimp only
          rw [if_neg hliveM]
          exact closeConn_free ..
      | beSend => exact absurd (Or.inl hkind) hto
      | beRecv => exact absurd (Or.inr hkind) hto
    intro heq
    exact hlive (heq ▸ hfree)

/-- Nothing is done with a completion for a slot that is free, nor with one of a backend that the
connection does not hold. -/
theorem step_unheeded {now k : Nat} {r : Request} (cqe : Cqe) (hr : s.inflight[k]? = some r)
    (hop : r.op ≠ .accept) (hheeds : ¬ s.Heeds r) :
    (step w env s (.complete now k cqe)).conns r.slot = s.conns r.slot := by
  have hconns : (serverTick env { s with inflight := s.inflight.eraseIdx k } now).conns = s.conns :=
    conns_serverTick now
  rw [step_dispatchTo hr]
  generalize serverTick env { s with inflight := s.inflight.eraseIdx k } now = m at hconns ⊢
  have hskip : (m.conns r.slot).state = .free ∨
      (r.op = .beSend ∨ r.op = .beRecv) ∧ (m.conns r.slot).be = none := by
    rw [hconns]
    by_contra hnot
    obtain ⟨hlive, hbe⟩ := not_or.mp hnot
    exact hheeds ⟨hlive, fun hto hnone => hbe ⟨hto, hnone⟩⟩
  have hsame : dispatchTo w env (drainQueue w env) m r.op r.slot cqe = m := by
    unfold dispatchTo
    cases hkind : r.op with
    | accept => exact absurd hkind hop
    | recv | send | poll => exact if_pos (hskip.resolve_right fun h => by simp [hkind] at h)
    | beSend | beRecv => exact if_pos (hskip.imp_right And.right)
  rw [hsame]
  exact congrFun hconns r.slot

theorem isolated_iff (hw : w.Appends) (hs : s.Ready) :
    s.Isolated w env ↔ ∀ r ∈ s.inflight, s.Stale r → ¬ s.Heeds r := by
  constructor
  · intro h r hr hstale hheeds
    obtain ⟨k, hk⟩ := List.mem_iff_getElem?.mp hr
    exact step_failed 0 hw hs hk (fun hop => hstale (Or.inl hop)) hheeds
      (h 0 k r (.failed false) hk hstale)
  · intro h now k r cqe hk hstale
    exact step_unheeded cqe hk (fun hop => hstale (Or.inl hop)) (h r (List.mem_of_getElem? hk) hstale)

/-- The completions of earlier connections leave a connection alone as long as slots are given away only
when nothing is in flight for them, and exactly when none of these requests is one that its handler goes
on with. -/
theorem completions_isolated (hw : w.Appends) {env : Env} (cfg : Config) (nonblock : Bool) (now : Nat)
    (inputs : List Input) :
    let s := Runs.run (step w env) (start env cfg nonblock now) inputs
    (Runs.Along (step w env) TakesClear (start env cfg nonblock now) inputs → s.Isolated w env) ∧
      (s.Isolated w env ↔ ∀ r ∈ s.inflight, s.Stale r → ¬ s.Heeds r) := by
  intro s
  have hready : s.Ready := run_ready env cfg nonblock now inputs
  have hiff : s.Isolated w env ↔ ∀ r ∈ s.inflight, s.Stale r → ¬ s.Heeds r := isolated_iff hw hready
  refine ⟨fun hrun => hiff.mpr fun r hr hstale => absurd ?_ hstale, hiff⟩
  have hstep : ∀ t input, Server.Ready t ∧ t.Clear → TakesClear t input →
      (step w env t input).Ready ∧ (step w env t input).Clear :=
    fun t input ht htakes => ⟨step_ready env ht.1 input, step_clear ht.1 ht.2 htakes⟩
  have hstart : (start env cfg nonblock now).Clear := by
    unfold start
    refine (submitted_accept _).clear (fun x hx => ?_) fun x hx => ?_
    · cases hx
    · cases hx
  exact (Runs.Along.invariant hstep ⟨start_ready env cfg nonblock now, hstart⟩ hrun).2 r hr

/-- A client leaves with nothing in flight, and another one takes the slot. -/
def clearInputs : List Input := [accepts 0, .complete 0 0 .eof, accepts 0, receives 0 [.startup]]

theorem completions_isolated_clear : (smallRun clearInputs).Isolated pgWire smallEnv ∧
    ((smallRun clearInputs).conns ⟨0, by decide⟩).gen = 2 := by
  have hrun : Runs.Along (step pgWire smallEnv) TakesClear (start smallEnv smallConfig true 0)
      clearInputs := by decide +kernel
  exact ⟨(completions_isolated WirePg.appends smallConfig true 0 clearInputs).1 hrun, by decide +kernel⟩

/-- A client leaves while its backend answers, and another one takes the slot. -/
def staleInputs : List Input :=
  [accepts 0, receives 0 [.startup, .parse smallParse, .bind smallBind], .complete 0 1 (.sent 77),
    .complete 0 2 .eof, accepts 0, receives 2 [.startup, .parse smallParse, .bind smallBind]]

/-- The answer to the first client ends the pipeline of the second one. -/
theorem not_completions_isolated :
    let s := smallRun staleInputs
    let t := step pgWire smallEnv s (.complete 0 1 (.data bareResponse.bytes))
    ¬ s.Isolated pgWire smallEnv ∧ (s.conns ⟨0, by decide⟩).gen = 2 ∧
      .completed false ∉ (s.conns ⟨0, by decide⟩).log ∧ .completed false ∈ (t.conns ⟨0, by decide⟩).log := by
  have hlate : ∃ r ∈ (smallRun staleInputs).inflight[1]?, r.slot = ⟨0, by decide⟩ ∧
      ¬ Current ((smallRun staleInputs).conns r.slot) r := by decide +kernel
  have hbefore : .completed false ∉ ((smallRun staleInputs).conns ⟨0, by decide⟩).log := by decide +kernel
  have hafter : .completed false ∈ ((step pgWire smallEnv (smallRun staleInputs)
      (.complete 0 1 (.data bareResponse.bytes))).conns ⟨0, by decide⟩).log := by decide +kernel
  obtain ⟨r, hr, hslot, hstale⟩ := hlate
  refine ⟨fun h => ?_, by decide +kernel, hbefore, hafter⟩
  have hsame := h 0 1 r (.data bareResponse.bytes) hr hstale
  rw [hslot] at hsame
  rw [hsame] at hafter
  exact hbefore hafter

end
