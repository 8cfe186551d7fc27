import PqProxy.LoopStep
import PqProxy.Runs

/-! Runs of the event loop. An iteration is taken apart into changes to one connection each; what every
change preserves holds in every state between two iterations. -/

section

variable {w : Pqwire} {env : Env} {i : Slot} {s t u : Server}

/-- A change of connection `i` within the dispatch of a completion. -/
inductive Change (w : Pqwire) (i : Slot) (s s' : Server) : Prop where
  | act (hturn : ActTurn w i s s')
  | abandon (hlive : (s.conns i).state ≠ .free) (habandon : Abandoned w i s s')
  | close (hlive : (s.conns i).state ≠ .free) (hclose : Closed w i s s')

/-- Changes of any connections, one after the other. -/
def Changes (w : Pqwire) : Server → Server → Prop :=
  Relation.ReflTransGen fun s s' => ∃ i, Change w i s s'

theorem Change.frame (h : Change w i s t) : Frame w i s t := by
  cases h with
  | act hturn => exact hturn.toFrame
  | abandon _ habandon => exact habandon.toFrame
  | close _ hclose => exact hclose.toFrame

theorem Turns.changes (h : Turns w s t) : Changes w s t :=
  Relation.ReflTransGen.mono (fun _ _ ⟨i, hturn⟩ => ⟨i, .act hturn⟩) _ _ h

/-- The end of a connection begins with the loss of its backend. -/
theorem Ended.abandoned (h : Ended w i s t) : (s.conns i).state ≠ .free ∧
    ∃ m, Abandoned w i s m ∧ Changes w m t := by
  obtain ⟨hlive, habandon, hpath, -, hclose⟩ := h
  have hlive' : (_ : Conn).state ≠ .free := fun hfree => hlive <| by
    rw [(hpath.keeps i).1.free, habandon.conn] at hfree
    exact hfree
  exact ⟨hlive, _, habandon, hpath.changes.tail ⟨i, .close hlive' hclose⟩⟩

theorem Ended.changes (h : Ended w i s t) : Changes w s t := by
  obtain ⟨hlive, m, habandon, hchanges⟩ := h.abandoned
  exact .head ⟨i, .abandon hlive habandon⟩ hchanges

theorem Moves.changes (h : Moves w s t) : Changes w s t := by
  induction h with
  | refl => exact .refl
  | tail _ hturn ih =>
      obtain ⟨i, hturn | hend⟩ := hturn
      · exact ih.tail ⟨i, .act hturn⟩
      · exact ih.trans hend.changes

/-- What the completion of request `r` does first. -/
inductive Begins (w : Pqwire) (r : Request) (s : Server) : Server → Prop where
  | skip (hskip : r.op = .accept ∨ (s.conns r.slot).state = .free ∨
      ((r.op = .beSend ∨ r.op = .beRecv) ∧ (s.conns r.slot).be = none)) : Begins w r s s
  | accept {i : Slot} {t : Server} (hop : r.op = .accept) (haccept : Accepted w i s t) :
      Begins w r s t
  | recv (hop : r.op = .recv) (hlive : (s.conns r.slot).state ≠ .free) :
      Begins w r s (s.updConn r.slot fun c => { c with recvPending := false })
  | send (n : Nat) (hop : r.op = .send) (hlive : (s.conns r.slot).state ≠ .free) :
      Begins w r s ((s.updConn r.slot fun c => { c with sendPending := false }).onCell r.slot fun c =>
        (advanceSend n c, true)).1
  | sendCut {t : Server} (hop : r.op = .send) (hlive : (s.conns r.slot).state ≠ .free)
      (habandon : Abandoned w r.slot (s.updConn r.slot fun c => { c with sendPending := false }) t) :
      Begins w r s t
  | poll (hop : r.op = .poll) (hlive : (s.conns r.slot).state ≠ .free) :
      Begins w r s (s.updConn r.slot fun c => { c with pollPending := false })
  | land {t : Server} (hop : r.op = .beSend ∨ r.op = .beRecv)
      (hland : LandTurn w r.op r.slot s t) (hgo : (t.conns r.slot).GoesOn) :
      Begins w r s t
  | landCut {t u : Server} (hop : r.op = .beSend ∨ r.op = .beRecv)
      (hland : LandTurn w r.op r.slot s t)
      (hlive : (t.conns r.slot).state ≠ .free) (habandon : Abandoned w r.slot t u) : Begins w r s u

theorem Opens.begins {r : Request} (h : Opens w r s t) : ∃ m, Begins w r s m ∧ Changes w m t := by
  cases h with
  | skip hskip => exact ⟨s, .skip hskip, .refl⟩
  | accept hop haccept => exact ⟨t, .accept hop haccept, .refl⟩
  | recv hop hlive => exact ⟨_, .recv hop hlive, .refl⟩
  | send n hop hlive => exact ⟨_, .send n hop hlive, .refl⟩
  | sendCut hop hlive hend =>
      obtain ⟨-, m, habandon, hchanges⟩ := hend.abandoned
      exact ⟨m, .sendCut hop hlive habandon, hchanges⟩
  | poll hop hlive => exact ⟨_, .poll hop hlive, .refl⟩
  | @land m _ hop hland hgo hpath => exact ⟨m, .land hop hland hgo, hpath.changes⟩
  | landCut hop hland hend =>
      obtain ⟨hlive, m, habandon, hchanges⟩ := hend.abandoned
      exact ⟨m, .landCut hop hland hlive habandon, hchanges⟩

theorem Change.sound (h : Change w i s t) (hs : s.Sound) : t.Sound := by
  refine hs.frame h.frame ?_
  cases h with
  | act hturn => exact hturn.act.tidy (hs.tidy i)
  | abandon _ habandon =>
      rw [habandon.conn]
      exact fun hnot => ⟨(hs.tidy i hnot).1, (hs.tidy i hnot).2.1, rfl⟩
  | close _ hclose =>
      rw [hclose.conn]
      exact fun _ => ⟨rfl, rfl, hclose.be⟩

theorem Change.log (h : Change w i s t) (j : Slot) : ∃ l, (t.conns j).log = (s.conns j).log ++ l := by
  by_cases hj : j = i
  · subst hj
    cases h with
    | act hturn =>
        obtain ⟨l, hl, -⟩ := hturn.act.grows.log
        exact ⟨l, hl⟩
    | abandon _ habandon =>
        rw [habandon.conn]
        exact ⟨_, rfl⟩
    | close _ hclose =>
        rw [hclose.conn]
        exact ⟨_, rfl⟩
  · exact ⟨[], by rw [h.frame.others j hj, List.append_nil]⟩

theorem Changes.log (h : Changes w s t) (j : Slot) : ∃ l, (t.conns j).log = (s.conns j).log ++ l := by
  induction h with
  | refl => exact ⟨[], (List.append_nil _).symm⟩
  | tail _ hchange ih =>
      obtain ⟨i, hchange⟩ := hchange
      obtain ⟨l, hl⟩ := ih
      obtain ⟨m, hm⟩ := hchange.log j
      exact ⟨l ++ m, by rw [hm, hl, List.append_assoc]⟩

theorem Changes.log_mem (h : Changes w s t) {j : Slot} {o : Obs} (ho : o ∈ (s.conns j).log) :
    o ∈ (t.conns j).log := by
  obtain ⟨l, hl⟩ := h.log j
  rw [hl]
  exact List.mem_append_left l ho

theorem Changes.sound (h : Changes w s t) (hs : s.Sound) : t.Sound := by
  induction h with
  | refl => exact hs
  | tail _ hchange ih =>
      obtain ⟨i, hchange⟩ := hchange
      exact hchange.sound ih

/-- The first part of a dispatch concerns one connection. -/
theorem Begins.frame {r : Request} (h : Begins w r s t) (hown : Owned s) :
    ∃ i, Frame w i s t ∧ (r.op ≠ .accept → i = r.slot) := by
  cases h with
  | skip => exact ⟨r.slot, (Beside.refl s).frame fun b hb => ⟨hown.held _ b hb, Or.inl hb⟩, fun _ => rfl⟩
  | accept hop haccept => exact ⟨_, haccept.toFrame, fun hne => absurd hop hne⟩
  | recv => exact ⟨r.slot, ((Beside.updConn s _).local hown (by simp)).toFrame, fun _ => rfl⟩
  | send n =>
      refine ⟨r.slot, (((Beside.updConn s _).trans (.onCell _ _)).local hown ?_).toFrame, fun _ => rfl⟩
      rw [conns_onCell, ((advanceSend_io n _).1).conn]
      simp [Server.cell]
  | sendCut _ _ habandon =>
      have hflag : Frame w r.slot s (s.updConn r.slot fun c => { c with sendPending := false }) :=
        ((Beside.updConn s _).local hown (by simp)).toFrame
      exact ⟨r.slot, hflag.trans habandon.toFrame, fun _ => rfl⟩
  | poll => exact ⟨r.slot, ((Beside.updConn s _).local hown (by simp)).toFrame, fun _ => rfl⟩
  | land _ hland => exact ⟨r.slot, hland.toFrame, fun _ => rfl⟩
  | landCut _ hland _ habandon => exact ⟨r.slot, hland.toFrame.trans habandon.toFrame, fun _ => rfl⟩

theorem Admits.tidy {gen fd : Nat} {c : Conn} (h : Admits s gen fd c) : c.Tidy := by
  have hempty : (Conn.fresh gen).feQ.toList = [] := rfl
  cases h with
  | cut => exact fun _ => ⟨rfl, hempty, rfl⟩
  | tls => exact fun _ => ⟨rfl, hempty, rfl⟩
  | plain => exact fun _ => ⟨rfl, hempty, rfl⟩

theorem Begins.sound {r : Request} (h : Begins w r s t) (hs : s.Sound) : t.Sound := by
  obtain ⟨i, hframe, hslot⟩ := h.frame hs.toOwned
  cases h with
  | skip => exact hs
  | accept hop haccept =>
      obtain ⟨fd, hadmits⟩ := haccept.conn
      exact hs.frame haccept.toFrame hadmits.tidy
  | recv hop =>
      rw [hslot (by rw [hop]; rintro ⟨⟩)] at hframe
      exact hs.frame hframe (by rw [conns_updConn]; exact hs.tidy r.slot)
  | send n hop =>
      rw [hslot (by rw [hop]; rintro ⟨⟩)] at hframe
      refine hs.frame hframe ?_
      rw [conns_onCell, (advanceSend_io n _).1.conn]
      simp only [Server.cell, conns_updConn]
      exact hs.tidy r.slot
  | sendCut hop _ habandon =>
      rw [hslot (by rw [hop]; rintro ⟨⟩)] at hframe
      refine hs.frame hframe ?_
      rw [habandon.conn, conns_updConn]
      exact fun hnot => ⟨(hs.tidy r.slot hnot).1, (hs.tidy r.slot hnot).2.1, rfl⟩
  | poll hop =>
      rw [hslot (by rw [hop]; rintro ⟨⟩)] at hframe
      exact hs.frame hframe (by rw [conns_updConn]; exact hs.tidy r.slot)
  | land _ hland => exact hs.land hland
  | landCut _ hland hlive habandon => exact Change.sound (.abandon hlive habandon) (hs.land hland)

/-- None of these entries is in a history. -/
def Server.Lacks (Bad : Obs → Prop) (s : Server) : Prop := ∀ i, ∀ o ∈ (s.conns i).log, ¬ Bad o

instance (Bad : Obs → Prop) [DecidablePred Bad] (s : Server) : Decidable (s.Lacks Bad) :=
  inferInstanceAs (Decidable (∀ i, ∀ o ∈ (s.conns i).log, ¬ Bad o))

theorem Server.Lacks.back {Bad : Obs → Prop} (h : t.Lacks Bad) (hchanges : Changes w s t) :
    s.Lacks Bad := fun i o ho => h i o (hchanges.log_mem ho)

/-! ### The rest of an iteration -/

/-- The periodic maintenance: only backends that nobody holds change. -/
structure Maintained (w : Pqwire) (s t : Server) : Prop where
  frame : ∀ i, Local w i s t
  conns : t.conns = s.conns
  sq : t.sq = s.sq
  waiters : t.waiters = s.waiters

/-- The entries go to the kernel, at its end with one that accepts connections. -/
structure Submitted (s t : Server) : Prop where
  rest : (t.cfg, t.tls, t.pool, t.asyncBackend, t.fairSchedule, t.conns, t.waiters, t.writes, t.stuck) =
    (s.cfg, s.tls, s.pool, s.asyncBackend, s.fairSchedule, s.conns, s.waiters, s.writes, s.stuck)
  sq : t.sq = []
  inflight : ∃ l, t.inflight = s.inflight ++ (s.sq ++ l) ∧ ∀ r ∈ l, r = acceptRequest
  sends : t.sends = s.sends ++ s.sq.filterMap s.deliver

theorem submitted_all (s : Server) : Submitted s (submitAll s) :=
  ⟨rfl, rfl, ⟨[], by simp [submitAll]⟩, rfl⟩

theorem submitted_accept (s : Server) : Submitted s (submitAll (submitAccept s)) := by
  rcases submitAccept_cases s with h | h
  · rw [h]
    refine ⟨rfl, rfl, ⟨[acceptRequest], rfl, by simp⟩, ?_⟩
    change s.sends ++ (s.sq ++ [acceptRequest]).filterMap s.deliver = _
    rw [List.filterMap_append]
    exact congrArg _ (List.append_nil _)
  · rw [h]
    exact submitted_all s

theorem serverTick_inflight (rs : List Request) (now : Nat) :
    serverTick env { s with inflight := rs } now = { serverTick env s now with inflight := rs } := by
  unfold serverTick
  split
  · rfl
  · rfl

theorem maintained_serverTick (w : Pqwire) (env : Env) (hs : s.Good none) (now : Nat) :
    Maintained w s (serverTick env s now) ∧ (serverTick env s now).Good none := by
  obtain ⟨-, hconns, hsq, hwaiters, hgood⟩ := serverTick_spec env w ⟨0, by decide⟩ hs now
  exact ⟨⟨fun i => (serverTick_spec env w i hs now).1, hconns, hsq, hwaiters⟩, hgood⟩

variable (w env) in
/-- An iteration that ends with a completion: maintenance, what the completion does first, and changes of
any connections. -/
theorem dispatch_changes (hs : s.Ready) (now : Nat) {k : Nat} {r : Request} (hr : s.inflight[k]? = some r)
    (cqe : Cqe) :
    ∃ m a u, Maintained w { s with inflight := s.inflight.eraseIdx k } m ∧ m.Good none ∧ Begins w r m a ∧
      Changes w a u ∧ dispatch w env s (.complete now k cqe) =
        if r.op = .accept then submitAccept u else u := by
  have herase : ({ s with inflight := s.inflight.eraseIdx k } : Server).Good none :=
    hs.good.erase fun x hx => List.mem_of_mem_eraseIdx hx
  obtain ⟨hmaint, hgood⟩ := maintained_serverTick w env herase now
  have hplain : r.op = .recv ∨ r.op = .send →
      (serverTick env { s with inflight := s.inflight.eraseIdx k } now).tls = false := fun hop => by
    rw [(hmaint.frame r.slot).tls]
    exact hs.good.mode.plain_of (List.mem_of_getElem? hr) hop
  obtain ⟨u, ⟨⟨v, hopens, hmoves⟩, -⟩, heq⟩ := dispatchTo_spec (w := w) env hgood hplain cqe
  obtain ⟨a, hbegins, hchanges⟩ := hopens.begins
  refine ⟨_, a, u, hmaint, hgood, hbegins, hchanges.trans hmoves.changes, ?_⟩
  rw [← heq]
  simp only [dispatch, hr]
  rfl

/-- The completion that ends an iteration is of a request that satisfies `D`. -/
def Delivers (D : Conn → Request → Prop) (s : Server) : Input → Prop
  | .timeout _ => True
  | .complete _ k _ => ∀ r ∈ s.inflight[k]?, D (s.conns r.slot) r

instance (D : Conn → Request → Prop) [∀ c r, Decidable (D c r)] (s : Server) :
    ∀ input, Decidable (Delivers D s input)
  | .timeout _ => isTrue trivial
  | .complete _ k _ => inferInstanceAs (Decidable (∀ r ∈ s.inflight[k]?, D (s.conns r.slot) r))

theorem delivers_any (s : Server) (input : Input) : Delivers (fun _ _ => True) s input := by
  cases input with
  | timeout => trivial
  | complete => exact fun _ _ => trivial

/-- What no step enters is in no history at the end. -/
theorem Server.Lacks.run {Bad : Obs → Prop} {C : Server → Input → Prop} {cfg : Config}
    {nonblock : Bool} {now : Nat} {inputs : List Input}
    (hrun : Runs.Along (step w env) (fun s input => C s input ∧ (step w env s input).Lacks Bad)
      (start env cfg nonblock now) inputs) :
    (Runs.run (step w env) (start env cfg nonblock now) inputs).Lacks Bad :=
  Runs.Along.invariant (fun _ _ _ h => h.2) (fun _ _ ho => nomatch ho) hrun

/-- `I` is kept by everything the event loop does, as long as completions are of requests that satisfy
`D` and nothing in `Bad` is noted. -/
structure Server.Stable (w : Pqwire) (Bad : Obs → Prop) (D : Conn → Request → Prop) (I : Server → Prop) :
    Prop where
  maintained : ∀ {s t}, s.Sound → Maintained w s t → I s → I t
  begins : ∀ {s r k t}, s.Ready → s.inflight[k]? = some r → D (s.conns r.slot) r →
    Begins w r { s with inflight := s.inflight.eraseIdx k } t → t.Lacks Bad → I s → I t
  change : ∀ {i s t}, s.Sound → Change w i s t → t.Lacks Bad → I s → I t
  submitted : ∀ {s t}, Submitted s t → I s → I t

namespace Server.Stable

variable {Bad : Obs → Prop} {D : Conn → Request → Prop} {I : Server → Prop}

theorem changes (h : Server.Stable w Bad D I) (hs : s.Sound) (hchanges : Changes w s t) (ht : t.Lacks Bad)
    (hI : I s) : I t := by
  induction hchanges with
  | refl => exact hI
  | tail hpath hchange ih =>
      obtain ⟨i, hchange⟩ := hchange
      have hback := ht.back (.single ⟨i, hchange⟩)
      exact h.change (Changes.sound hpath hs) hchange ht (ih hback)

theorem next (h : Server.Stable w Bad D I) (hs : s.Ready) (hI : I s) {input : Input}
    (hdelivers : Delivers D s input) (hlacks : (step w env s input).Lacks Bad) :
    I (step w env s input) := by
  have htick := fun now => maintained_serverTick w env hs.good now
  cases input with
  | timeout now => exact h.maintained hs.good.toSound (htick now).1 hI
  | complete now k cqe =>
      cases hr : s.inflight[k]? with
      | none =>
          have heq : step w env s (.complete now k cqe) = submitAll s := by
            simp only [step, dispatch, hr]
          rw [heq]
          exact h.submitted (submitted_all s) hI
      | some r =>
          obtain ⟨u, ⟨⟨m, hopens, hmoves⟩, -⟩, heq⟩ := (step_complete env hs hr :
            ∃ u, Dispatched w r
              (serverTick env { s with inflight := s.inflight.eraseIdx k } now) u ∧
              step w env s (.complete now k cqe) =
                submitAll (if r.op = .accept then submitAccept u else u))
          have hsubmit : Submitted u (step w env s (.complete now k cqe)) := by
            rw [heq]
            split
            · exact submitted_accept u
            · exact submitted_all u
          have hu : u.Lacks Bad := by
            have hconns : (step w env s (.complete now k cqe)).conns = u.conns := by
              have := hsubmit.rest
              simp only [Prod.mk.injEq] at this
              exact this.2.2.2.2.2.1
            unfold Server.Lacks at hlacks ⊢
            rwa [hconns] at hlacks
          -- the completion is taken from what is in flight before the maintenance
          rw [serverTick_inflight] at hopens
          obtain ⟨b, hbegins, hchanges⟩ := hopens.begins
          have hall : Changes w b u := hchanges.trans hmoves.changes
          obtain ⟨hmaint, hgood⟩ := htick now
          have hin : (serverTick env s now).inflight = s.inflight :=
            (hmaint.frame ⟨0, by decide⟩).inflight
          have hready : (serverTick env s now).Ready :=
            ⟨hgood, hmaint.sq.trans hs.sq, fun j => hmaint.conns ▸ hs.finished j⟩
          have herase : ({ serverTick env s now with
              inflight := s.inflight.eraseIdx k } : Server).Good none :=
            hgood.erase fun x hx => hin ▸ List.mem_of_mem_eraseIdx hx
          have hb : I b := by
            refine h.begins hready (hin ▸ hr) ?_ (hin ▸ hbegins) (hu.back hall)
              (h.maintained hs.good.toSound hmaint hI)
            rw [hmaint.conns]
            exact hdelivers r hr
          exact h.submitted hsubmit
            (h.changes (hbegins.sound herase.toSound) hall hu hb)

/-- An invariant of the event loop holds at the end of every run on the conditions it needs. -/
theorem run (h : Server.Stable w Bad D I) {cfg : Config} {nonblock : Bool} {now : Nat}
    (hstart : I (start env cfg nonblock now)) {inputs : List Input}
    (hrun : Runs.Along (step w env)
      (fun s input => Delivers D s input ∧ (step w env s input).Lacks Bad)
      (start env cfg nonblock now) inputs) :
    I (Runs.run (step w env) (start env cfg nonblock now) inputs) := by
  have hinv : ∀ s input, s.Ready ∧ I s →
      Delivers D s input ∧ (step w env s input).Lacks Bad →
        (step w env s input).Ready ∧ I (step w env s input) :=
    fun s input hs hcond => ⟨step_ready env hs.1 input, h.next hs.1 hs.2 hcond.1 hcond.2⟩
  exact (Runs.Along.invariant hinv ⟨start_ready env cfg nonblock now, hstart⟩ hrun).2

/-- Nothing is asked of a run. -/
theorem along_any (s : Server) (inputs : List Input) : Runs.Along (step w env)
    (fun s input => Delivers (fun _ _ => True) s input ∧ (step w env s input).Lacks fun _ => False)
    s inputs :=
  Runs.Along.of_forall (fun s input => ⟨delivers_any s input, fun _ _ _ => id⟩) s inputs

end Server.Stable

/-! ### Invariants of one connection -/

/-- The request of the frontend that has completed is no longer pending. -/
def Conn.delivered (c : Conn) : Op → Conn
  | .recv => { c with recvPending := false }
  | .send => { c with sendPending := false }
  | .poll => { c with pollPending := false }
  | _ => c

/-- `P` is kept by everything that happens to a connection of a server with this configuration. -/
structure Conn.Stable (w : Pqwire) (cfg : Config) (tls hasPool : Bool) (Bad : Obs → Prop)
    (D : Conn → Request → Prop) (P : Conn → Prop) : Prop where
  fresh : ∀ gen, P (.fresh gen)
  admits : ∀ {s gen fd c}, s.cfg = cfg → s.tls = tls → Admits s gen fd c → P c
  act : ∀ {c c' h h'}, c.conn.Tidy → Act w cfg hasPool c h c' h' → (∀ o ∈ c'.conn.log, ¬ Bad o) →
    P c.conn → P c'.conn
  land : ∀ {r c c' h h'}, c.conn.Tidy → D c.conn r → Land w r.op c h c' h' →
    (∀ o ∈ c'.conn.log, ¬ Bad o) → P c.conn → P c'.conn
  delivered : ∀ {r c}, c.state ≠ .free → D c r → P c → P (c.delivered r.op)
  abandon : ∀ {c}, c.state ≠ .free → P c → P { c.note .closed with be := none }
  close : ∀ {c}, c.state ≠ .free → .closed ∈ c.log → c.be = none → P c → P c.close

/-- The same for a property of a connection and the backend it holds. -/
structure Conn.Paired (w : Pqwire) (cfg : Config) (tls hasPool : Bool) (Bad : Obs → Prop)
    (D : Conn → Request → Prop) (P : Conn → BackendConn → Prop) : Prop where
  fresh : ∀ gen, P (.fresh gen) noBackend
  admits : ∀ {s gen fd c}, s.cfg = cfg → s.tls = tls → Admits s gen fd c → P c noBackend
  act : ∀ {c c' h h'}, c.conn.Tidy → Act w cfg hasPool c h c' h' → (∀ o ∈ c'.conn.log, ¬ Bad o) →
    P c.conn h → P c'.conn h'
  land : ∀ {r c c' h h'}, c.conn.Tidy → D c.conn r → Land w r.op c h c' h' →
    (∀ o ∈ c'.conn.log, ¬ Bad o) → P c.conn h → P c'.conn h'
  delivered : ∀ {r c h}, c.state ≠ .free → D c r → P c h → P (c.delivered r.op) h
  abandon : ∀ {c h}, c.state ≠ .free → P c h → P { c.note .closed with be := none } noBackend
  close : ∀ {c}, c.state ≠ .free → .closed ∈ c.log → c.be = none → P c noBackend →
    P c.close noBackend

/-- Every connection of a server with this configuration, together with the backend it holds, satisfies
`P`. -/
structure Server.Every (cfg : Config) (tls hasPool : Bool) (P : Conn → BackendConn → Prop)
    (s : Server) : Prop where
  cfg : s.cfg = cfg
  tls : s.tls = tls
  pool : s.pool.isSome = hasPool
  all : ∀ i, P (s.conns i) (s.held i)

theorem Frame.isSome (h : Frame w i s t) : t.pool.isSome = s.pool.isSome := by
  have hsetup := congrArg Option.isSome h.setup
  rwa [Option.isSome_map, Option.isSome_map] at hsetup

theorem Server.held_of_none (h : (s.conns i).be = none) : s.held i = noBackend := by
  rw [Server.held, h]

section

variable {cfg : Config} {tls hasPool : Bool} {P : Conn → BackendConn → Prop}

/-- Only connection `i` and its backend change. -/
theorem Server.Every.frame (h : s.Every cfg tls hasPool P) (hown : Owned s) (hframe : Frame w i s t)
    (hP : P (t.conns i) (t.held i)) : t.Every cfg tls hasPool P where
  cfg := hframe.cfg.trans h.cfg
  tls := hframe.tls.trans h.tls
  pool := hframe.isSome.trans h.pool
  all := by
    intro j
    by_cases hj : j = i
    · rw [hj]
      exact hP
    · rw [hframe.others j hj, hframe.held_other hown hj]
      exact h.all j

theorem Admits.be {gen fd : Nat} {c : Conn} (h : Admits s gen fd c) : c.be = none := by
  cases h <;> rfl

theorem delivered_be (c : Conn) (op : Op) : (c.delivered op).be = c.be := by
  cases op <;> rfl

namespace Conn.Paired

variable {Bad : Obs → Prop} {D : Conn → Request → Prop}

theorem change (h : Conn.Paired w cfg tls hasPool Bad D P) (hs : s.Sound) (hchange : Change w i s t)
    (ht : t.Lacks Bad) (hall : s.Every cfg tls hasPool P) : t.Every cfg tls hasPool P := by
  refine hall.frame hs.toOwned hchange.frame ?_
  cases hchange with
  | act hturn =>
      have hact := hturn.act
      rw [hall.cfg, hall.pool] at hact
      exact h.act (hs.tidy i) hact (ht i) (hall.all i)
  | abandon hlive habandon =>
      have hbe : (t.conns i).be = none := by rw [habandon.conn]
      rw [Server.held_of_none hbe, habandon.conn]
      exact h.abandon hlive (hall.all i)
  | close hlive hclose =>
      have hheld : s.held i = noBackend := Server.held_of_none hclose.be
      have hbe : (t.conns i).be = none := by
        rw [hclose.conn]
        exact hclose.be
      rw [Server.held_of_none hbe, hclose.conn]
      exact h.close hlive hclose.closed hclose.be (hheld ▸ hall.all i)

/-- The request of a frontend is delivered to its connection. -/
theorem onDelivered (h : Conn.Paired w cfg tls hasPool Bad D P) {r : Request}
    (hlive : (s.conns r.slot).state ≠ .free) (hD : D (s.conns r.slot) r)
    (hall : s.Every cfg tls hasPool P) (hsame : (s.conns r.slot).be = (t.conns r.slot).be)
    (hconn : t.conns r.slot = (s.conns r.slot).delivered r.op) (hpool : t.pool = s.pool) :
    P (t.conns r.slot) (t.held r.slot) := by
  have hheld : t.held r.slot = s.held r.slot := by
    rw [Server.held, Server.held, ← hsame]
    simp only [Server.backends, hpool]
  rw [hheld, hconn]
  exact h.delivered hlive hD (hall.all r.slot)

theorem begins (h : Conn.Paired w cfg tls hasPool Bad D P) {r : Request} (hs : s.Sound)
    (hD : D (s.conns r.slot) r) (hbegins : Begins w r s t) (ht : t.Lacks Bad)
    (hall : s.Every cfg tls hasPool P) : t.Every cfg tls hasPool P := by
  obtain ⟨j, hframe, hslot⟩ := hbegins.frame hs.toOwned
  have hflag : ∀ {f : Conn → Conn}, (∀ c, f c = c.delivered r.op) →
      (s.conns r.slot).state ≠ .free →
      P ((s.updConn r.slot f).conns r.slot) ((s.updConn r.slot f).held r.slot) := by
    intro f hf hlive
    have hconn : (s.updConn r.slot f).conns r.slot = (s.conns r.slot).delivered r.op := by
      rw [conns_updConn, hf]
    exact h.onDelivered hlive hD hall (by rw [hconn, delivered_be]) hconn rfl
  cases hbegins with
  | skip => exact hall
  | accept hop haccept =>
      obtain ⟨fd, hadmits⟩ := haccept.conn
      refine hall.frame hs.toOwned haccept.toFrame ?_
      rw [Server.held_of_none hadmits.be]
      exact h.admits hall.cfg hall.tls hadmits
  | recv hop hlive =>
      obtain rfl := hslot (by rw [hop]; nofun)
      exact hall.frame hs.toOwned hframe (hflag (fun c => by rw [hop]; rfl) hlive)
  | send n hop hlive =>
      obtain rfl := hslot (by rw [hop]; nofun)
      have hP := hflag (f := fun c => { c with sendPending := false }) (fun c => by rw [hop]; rfl) hlive
      generalize hu : s.updConn r.slot (fun c => { c with sendPending := false }) = u at hP hframe ht ⊢
      have htidy : (u.conns r.slot).Tidy := by
        rw [← hu, conns_updConn]
        exact hs.tidy r.slot
      have hio := (advanceSend_io n (u.cell r.slot)).1
      have hbeside : Beside r.slot u (u.onCell r.slot fun c => (advanceSend n c, true)).1 := .onCell u _
      have hbe : ((u.onCell r.slot fun c => (advanceSend n c, true)).1.conns r.slot).be =
          (u.conns r.slot).be := by
        rw [conns_onCell, hio.conn]
        rfl
      refine hall.frame hs.toOwned hframe ?_
      have hlog := ht r.slot
      rw [hbeside.held hbe, conns_onCell]
      rw [conns_onCell] at hlog
      exact h.act htidy (.io hio) hlog hP
  | sendCut hop hlive habandon =>
      obtain rfl := hslot (by rw [hop]; nofun)
      have hP := hflag (f := fun c => { c with sendPending := false }) (fun c => by rw [hop]; rfl) hlive
      have hbe : (t.conns r.slot).be = none := by rw [habandon.conn]
      refine hall.frame hs.toOwned hframe ?_
      rw [Server.held_of_none hbe, habandon.conn]
      refine h.abandon ?_ hP
      rw [conns_updConn]
      exact hlive
  | poll hop hlive =>
      obtain rfl := hslot (by rw [hop]; nofun)
      exact hall.frame hs.toOwned hframe (hflag (fun c => by rw [hop]; rfl) hlive)
  | land _ hland =>
      exact hall.frame hs.toOwned hland.toFrame
        (h.land (hs.tidy r.slot) hD hland.land (ht r.slot) (hall.all r.slot))
  | landCut _ hland hlive habandon =>
      have hm := ht.back (.single ⟨r.slot, .abandon hlive habandon⟩)
      exact h.change (hs.land hland) (.abandon hlive habandon) ht
        (hall.frame hs.toOwned hland.toFrame
          (h.land (hs.tidy r.slot) hD hland.land (hm r.slot) (hall.all r.slot)))

/-- A backend that is held is left alone by the maintenance. -/
theorem maintained_held (hs : Owned s) (h : Maintained w s t) (i : Slot) : t.held i = s.held i := by
  obtain ⟨j, hj⟩ : ∃ j : Slot, i ≠ j := by
    by_cases hi : i = ⟨0, by decide⟩
    · refine ⟨⟨1, by decide⟩, ?_⟩
      rw [hi]
      decide
    · exact ⟨⟨0, by decide⟩, hi⟩
  exact (h.frame j).toFrame.held_other hs hj

theorem stable (h : Conn.Paired w cfg tls hasPool Bad D P) :
    Server.Stable w Bad D (Server.Every cfg tls hasPool P) where
  maintained := by
    intro s t hs hmaint hall
    have hframe := (hmaint.frame ⟨0, by decide⟩).toFrame
    refine ⟨hframe.cfg.trans hall.cfg, hframe.tls.trans hall.tls, hframe.isSome.trans hall.pool, ?_⟩
    intro i
    rw [maintained_held hs.toOwned hmaint, hmaint.conns]
    exact hall.all i
  begins := by
    intro s r k t hs _ hD hbegins ht hall
    have herase : ({ s with inflight := s.inflight.eraseIdx k } : Server).Good none :=
      hs.good.erase fun x hx => List.mem_of_mem_eraseIdx hx
    exact h.begins herase.toSound hD hbegins ht ⟨hall.cfg, hall.tls, hall.pool, hall.all⟩
  change := fun hs hchange ht hall => h.change hs hchange ht hall
  submitted := by
    intro s t hsubmit hall
    have hrest := hsubmit.rest
    simp only [Prod.mk.injEq] at hrest
    obtain ⟨hcfg, htls, hpool, -, -, hconns, -⟩ := hrest
    refine ⟨hcfg.trans hall.cfg, htls.trans hall.tls, hpool ▸ hall.pool, fun i => ?_⟩
    have hheld : t.held i = s.held i := by
      simp only [Server.held, Server.backends, hconns, hpool]
    rw [hheld, hconns]
    exact hall.all i

/-- Such a property holds of every connection in every state of a run. -/
theorem run {nonblock : Bool} {now : Nat}
    (h : Conn.Paired w cfg (!cfg.plain) (start env cfg nonblock now).pool.isSome Bad D P)
    {inputs : List Input}
    (hrun : Runs.Along (step w env)
      (fun s input => Delivers D s input ∧ (step w env s input).Lacks Bad)
      (start env cfg nonblock now) inputs) (i : Slot) :
    P ((Runs.run (step w env) (start env cfg nonblock now) inputs).conns i)
      ((Runs.run (step w env) (start env cfg nonblock now) inputs).held i) :=
  (h.stable.run ⟨rfl, rfl, rfl, fun _ => h.fresh 0⟩ hrun).all i

end Conn.Paired

end

namespace Conn.Stable

variable {cfg : Config} {tls hasPool : Bool} {Bad : Obs → Prop} {D : Conn → Request → Prop}
  {P : Conn → Prop}

/-- What the backend is does not matter. -/
theorem paired (h : Conn.Stable w cfg tls hasPool Bad D P) :
    Conn.Paired w cfg tls hasPool Bad D fun c _ => P c where
  fresh := h.fresh
  admits := h.admits
  act := h.act
  land := h.land
  delivered := h.delivered
  abandon := h.abandon
  close := h.close

/-- Such a property holds of every connection in every state of a run. -/
theorem run {nonblock : Bool} {now : Nat}
    (h : Conn.Stable w cfg (!cfg.plain) (start env cfg nonblock now).pool.isSome Bad D P)
    {inputs : List Input}
    (hrun : Runs.Along (step w env)
      (fun s input => Delivers D s input ∧ (step w env s input).Lacks Bad)
      (start env cfg nonblock now) inputs) (i : Slot) :
    P ((Runs.run (step w env) (start env cfg nonblock now) inputs).conns i) :=
  h.paired.run hrun i

end Conn.Stable

/-- A plain server with one backend. -/
def smallConfig : Config where
  plain := true
  requireMtls := false
  identitySlot := 0
  identityParamName := none
  backendHost := "db".toList
  backendUser := none
  backendUseGroupAsUser := false
  backendGroups := []
  backendLazyGroup := false
  backendPoolSize := 1
  maintainIntervalMs := 0
  fairSchedule := true
  rejectSimpleQuery := true
  msgZerocopy := false

def smallEnv : Env := answering bareResponse

def smallServer : Server := start smallEnv smallConfig true 0

def smallRun (inputs : List Input) : Server := Runs.run (step pgWire smallEnv) smallServer inputs

/-- The request in place `k` completes by accepting a client. -/
def accepts (k : Nat) : Input :=
  .complete 0 k (.accepted 7 ⟨false, true, true, .done, ⟨identityClear, false⟩⟩)

/-- The request in place `k` completes by receiving these messages. -/
def receives (k : Nat) (es : List Event) : Input := .complete 0 k (.received es)

/-- The certificate of the client of a TLS server. -/
def smallPeer : Peer := ⟨⟨"r1".toList, "blue".toList, -1⟩, true⟩

/-- The request in place `k` completes by accepting a client whose handshake is over at once. -/
def acceptsTls (k : Nat) : Input := .complete 0 k (.accepted 7 ⟨false, true, true, .done, smallPeer⟩)

/-- The poll in place `k` completes: there is room for so many bytes, and these messages are there. -/
def polls (k room : Nat) (reads : List (List Event)) : Input :=
  .complete 0 k (.polled
    ⟨false, true, true, .done, smallPeer, ⟨[room], false⟩, reads, .wants, ⟨[], false⟩⟩)

def smallParse : PqParse := ⟨"s".toList, "INSERT INTO t VALUES ($1)".toList, []⟩

def smallBind : PqBind := ⟨"s".toList, [], [⟨0, some (Text.bytes "x".toList)⟩], []⟩

end
