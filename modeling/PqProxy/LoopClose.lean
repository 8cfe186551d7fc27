import PqProxy.LoopProcess

/-! The end of a connection, and the beginning of one. What holds of the server between two
completions is stated with one connection exempt: the one that is being worked for. -/

/-- On a TLS server every connection is a TLS connection and only polls; on a plain server none is in
a handshake. -/
structure Server.Mode (s : Server) : Prop where
  tls : s.tls = true → ∀ j, (s.conns j).state ≠ .free → (s.conns j).ssl = true
  plain : s.tls = false → ∀ j, (s.conns j).state ≠ .tlsHs ∧ (s.conns j).ssl = false
  requests : s.tls = true → ∀ r, r ∈ s.inflight ∨ r ∈ s.sq → r.op ≠ .recv ∧ r.op ≠ .send

/-- A TLS connection is polled. -/
def Conn.Polled (c : Conn) : Prop := c.state ≠ .free → c.ssl = true → c.pollPending = true

/-- The server between two completions, except for one connection. -/
structure Server.Good (x : Option Slot) (s : Server) : Prop extends Steady s where
  mode : s.Mode
  admitted : ∀ j, some j ≠ x → (s.conns j).Admitted s.cfg
  polled : ∀ j, some j ≠ x → (s.conns j).Polled

section

variable {w : Pqwire} (env : Env) {i : Slot} {s t u : Server} {x : Option Slot}

theorem Server.Good.exempt (h : s.Good none) (x : Option Slot) : s.Good x :=
  { h with admitted := fun j _ => h.admitted j nofun, polled := fun j _ => h.polled j nofun }

/-- The connection that was exempt is in order again. -/
theorem Server.Good.close (h : s.Good (some i)) (hadm : (s.conns i).Admitted s.cfg)
    (hpolled : (s.conns i).Polled) : s.Good none where
  toSteady := h.toSteady
  mode := h.mode
  admitted := by
    intro j _
    by_cases hj : j = i
    · rw [hj]
      exact hadm
    · exact h.admitted j fun heq => hj (Option.some.inj heq)
  polled := by
    intro j _
    by_cases hj : j = i
    · rw [hj]
      exact hpolled
    · exact h.polled j fun heq => hj (Option.some.inj heq)

/-- The connection goes on, and the entries it prepares are its own. -/
theorem Server.Mode.grows (h : s.Mode) (hframe : Frame w i s t) {c : Cell}
    (hgrows : Grows w c (t.cell i)) (hstate : c.conn.state = (s.conns i).state)
    (hssl : c.conn.ssl = (s.conns i).ssl) (hsq : c.sq = s.sq)
    (hsame : (s.conns i).state = .free → t.sq = s.sq) : t.Mode := by
  have hkeeps : Keeps c.conn (t.conns i) := hgrows.keeps
  have hsslT : (t.conns i).ssl = (s.conns i).ssl := hkeeps.ssl.trans hssl
  refine ⟨fun htls j hlive => ?_, fun htls j => ?_, fun htls r hr => ?_⟩
  · rw [hframe.tls] at htls
    by_cases hj : j = i
    · rw [hj] at hlive ⊢
      rw [hsslT]
      exact h.tls htls i fun hfree => hlive (hkeeps.free.mpr (hstate.trans hfree))
    · rw [hframe.others j hj] at hlive ⊢
      exact h.tls htls j hlive
  · rw [hframe.tls] at htls
    by_cases hj : j = i
    · rw [hj, hsslT]
      exact ⟨fun hhs => (h.plain htls i).1 (hstate.symm.trans (hkeeps.hs hhs)), (h.plain htls i).2⟩
    · rw [hframe.others j hj]
      exact h.plain htls j
  · rw [hframe.tls] at htls
    rw [hframe.inflight] at hr
    obtain ⟨new, hnew, hown, -⟩ := hgrows.sq
    rw [hsq] at hnew
    rcases hr with hr | hr
    · exact h.requests htls r (Or.inl hr)
    · by_cases hlive : (s.conns i).state = .free
      · rw [hsame hlive] at hr
        exact h.requests htls r (Or.inr hr)
      · rw [show t.sq = s.sq ++ new from hnew] at hr
        rcases List.mem_append.mp hr with hr | hr
        · exact h.requests htls r (Or.inr hr)
        · have htrue : c.conn.ssl = true := hssl.trans (h.tls htls i hlive)
          refine ⟨fun hop => ?_, fun hop => ?_⟩
          · cases htrue.symm.trans ((hown r hr).plain (Or.inl hop))
          · cases htrue.symm.trans ((hown r hr).plain (Or.inr hop))

theorem Server.Mode.act (h : s.Mode) (hturn : ActTurn w i s t) : t.Mode :=
  h.grows hturn.toFrame hturn.act.grows rfl rfl rfl hturn.sq_free

theorem Server.Mode.path (h : s.Mode) (hpath : Turns w s t) : t.Mode := by
  induction hpath with
  | refl => exact h
  | tail _ hturn ih =>
      obtain ⟨i, hturn⟩ := hturn
      exact ih.act hturn

/-- Only connection `i` changes, which keeps its mode, and no entry is prepared. -/
theorem Server.Mode.frame (h : s.Mode) (hframe : Frame w i s t) (hsq : t.sq = s.sq)
    (htls : s.tls = true → (t.conns i).state ≠ .free → (t.conns i).ssl = true)
    (hplain : s.tls = false → (t.conns i).state ≠ .tlsHs ∧ (t.conns i).ssl = false) : t.Mode := by
  refine ⟨fun hmode j => ?_, fun hmode j => ?_, fun hmode r hr => ?_⟩
  · rw [hframe.tls] at hmode
    by_cases hj : j = i
    · rw [hj]
      exact htls hmode
    · rw [hframe.others j hj]
      exact h.tls hmode j
  · rw [hframe.tls] at hmode
    by_cases hj : j = i
    · rw [hj]
      exact hplain hmode
    · rw [hframe.others j hj]
      exact h.plain hmode j
  · rw [hframe.tls] at hmode
    rw [hframe.inflight, hsq] at hr
    exact h.requests hmode r hr

theorem Turns.cfg (h : Turns w s t) : t.cfg = s.cfg ∧ t.tls = s.tls := by
  induction h with
  | refl => exact ⟨rfl, rfl⟩
  | tail _ hturn ih =>
      obtain ⟨i, hturn⟩ := hturn
      exact ⟨hturn.cfg.trans ih.1, hturn.tls.trans ih.2⟩

/-- A poll that is pending stays pending. -/
theorem Turns.polled (h : Turns w s t) {j : Slot} (hp : (s.conns j).Polled) : (t.conns j).Polled := by
  induction h with
  | refl => exact hp
  | tail _ hturn ih =>
      obtain ⟨i, hturn⟩ := hturn
      by_cases hj : j = i
      · subst hj
        have hgrows := hturn.act.grows
        intro hlive hssl
        refine (hgrows.sends.pollPending (ih (fun hfree => hlive (hgrows.keeps.free.mpr hfree)) ?_)).1
        exact hgrows.keeps.ssl.symm.trans hssl
      · rw [hturn.others j hj]
        exact ih

/-- What is done for the exempt connection keeps the others in order. -/
theorem Kept.good (h : Kept w x s t) (hs : s.Good x) (ht : t.Steady) : t.Good x where
  toSteady := ht
  mode := hs.mode.path h.path
  admitted := fun j hj => by
    rw [h.path.cfg.1]
    exact h.admitted hs.toSound hj (hs.admitted j hj)
  polled := fun j hj => h.path.polled (hs.polled j hj)

theorem Settled.good (h : Settled w i s t) (hs : s.Good (some i)) : t.Good (some i) :=
  h.kept.good hs (h.steady hs.toSteady)

/-- A connection past its handshake stays in order itself. -/
theorem Settled.good_open (h : Settled w i s t) (hs : s.Good none) (hopen : (s.conns i).Open) :
    t.Good none := by
  refine (h.good (hs.exempt _)).close ?_ (h.kept.path.polled (hs.polled i nofun))
  rw [h.kept.path.cfg.1]
  exact h.admitted hopen (hs.admitted i nofun)

/-! ### Closing -/

@[simp] theorem Waiters.slots_remove (q : Waiters) (i : Slot) :
    (q.remove i).slots = q.slots.filter (· ≠ i) := by
  unfold Waiters.remove
  split
  · rename_i hlen
    rw [← q.ring.length_toList] at hlen
    exact (List.filter_eq_self.mpr (List.length_filter_eq_length_iff.mp hlen)).symm
  · exact RingBuffer.toList_compact ..

theorem conn_be_none {c : Conn} (h : c.be = none) : { c with be := none } = c := by
  cases c
  cases h
  rfl

theorem Beside.finish (h : Beside i s t) (hbe : (t.conns i).be = (s.conns i).be) (failed : Bool) :
    Beside i (finishBackend env s i failed) (finishBackend env t i failed) := by
  unfold finishBackend
  rw [hbe]
  cases (s.conns i).be with
  | none => exact h
  | some b =>
      obtain ⟨hothers, hwaiters, hrest⟩ := h
      simp only [Prod.mk.injEq] at hrest
      refine ⟨hothers, hwaiters, ?_⟩
      simp [Server.updPool, hrest]

/-- What is left of a connection when it is closed. -/
theorem close_facts (c : Conn) : c.close.state = .free ∧ c.close.ssl = false ∧
    c.close.beWait = .idle ∧ c.close.feQ.toList = [] ∧ c.close.be = c.be ∧
      c.close.drainingQueue = c.drainingQueue := ⟨rfl, rfl, rfl, rfl, rfl, rfl⟩

/-- The first part of `close_conn`. -/
theorem abandoned_spec (hs : s.Steady) :
    ∃ t, Abandoned w i s t ∧ ({ s with waiters := s.waiters.remove i } : Server).updConn i
        (fun c => c.note .closed) = t ∧ (s.conns i).be = none ∨
      Abandoned w i s t ∧ (finishBackend env (({ s with
        waiters := s.waiters.remove i } : Server).updConn i fun c => c.note .closed) i true).updConn i
          (fun c => { c with be := none }) = t ∧ (s.conns i).be ≠ none ∧ t.pool.isSome = true := by
  have hring : ∀ j, j ≠ i → (j ∈ (s.waiters.remove i).slots ↔ j ∈ s.waiters.slots) := by
    intro j hj
    rw [Waiters.slots_remove, List.mem_filter]
    simp [hj]
  have hnot : i ∉ (s.waiters.remove i).slots := by
    rw [Waiters.slots_remove, List.mem_filter]
    simp
  have hbeside : Beside i s (({ s with waiters := s.waiters.remove i } : Server).updConn i
      fun c => c.note .closed) := ⟨fun j hj => Function.update_of_ne hj .., hring, rfl⟩
  have hconn : (({ s with waiters := s.waiters.remove i } : Server).updConn i
      fun c => c.note .closed).conns i = (s.conns i).note .closed := conns_updConn ..
  have hmine : (({ s with waiters := s.waiters.remove i } : Server).updConn i
      fun c => c.note .closed).waiters = s.waiters.remove i := rfl
  have hsq : (({ s with waiters := s.waiters.remove i } : Server).updConn i
      fun c => c.note .closed).sq = s.sq := rfl
  generalize ({ s with waiters := s.waiters.remove i } : Server).updConn i
    (fun c => c.note .closed) = t at hbeside hconn hmine hsq
  have hbe : (t.conns i).be = (s.conns i).be := by
    rw [hconn]
    rfl
  cases hnone : (s.conns i).be with
  | none =>
      have hlocal := hbeside.local (w := w) hs.toOwned hbe
      refine ⟨t, Or.inl ⟨⟨hlocal.toFrame, hsq, hlocal.busy, hmine ▸ hnot, ?_⟩, rfl, rfl⟩⟩
      rw [hconn, conn_be_none]
      exact hnone
  | some b =>
      have hfinish := hbeside.finish env hbe true
      have hgive := hfinish.trans (.updConn (finishBackend env t i true) fun c => { c with be := none })
      have hconnU : ((finishBackend env t i true).updConn i fun c => { c with be := none }).conns i =
          { (s.conns i).note .closed with be := none } := by
        rw [conns_updConn, conns_finishBackend, hconn]
      have hlocal := local_finish (w := w) env hs.toSound true hgive (by rw [hconnU])
      obtain ⟨p, hpool, -⟩ := hs.toOwned.pool hnone
      have hsome : ((finishBackend env t i true).updConn i fun c => { c with be := none }).pool.isSome =
          true := by
        have hsetup := hlocal.setup
        rw [hpool] at hsetup
        cases hp : ((finishBackend env t i true).updConn i fun c => { c with be := none }).pool with
        | none =>
            rw [hp] at hsetup
            cases hsetup
        | some q => rfl
      have hringU : ((finishBackend env t i true).updConn i fun c => { c with be := none }).waiters =
          s.waiters.remove i := (cell_finishBackend env t i true).2.trans hmine
      have hsqU : ((finishBackend env t i true).updConn i fun c => { c with be := none }).sq =
          s.sq := (congrArg Cell.sq (cell_finishBackend env t i true).1).trans hsq
      exact ⟨_, Or.inr ⟨⟨hlocal.toFrame, hsqU, hlocal.busy, hringU ▸ hnot, hconnU⟩, rfl, nofun, hsome⟩⟩

/-- A change to one connection that leaves it in a state of its own keeps the others in order. -/
theorem Server.Good.frame (hs : s.Good (some i)) (h : Frame w i s t) (htidy : (t.conns i).Tidy)
    (hrest : (t.conns i).Rested) (hdrain : (t.conns i).drainingQueue = false) (hmode : t.Mode) :
    t.Good (some i) := by
  have hne : ∀ {j}, some j ≠ some i → j ≠ i := fun hj heq => hj (congrArg some heq)
  refine ⟨⟨hs.toSound.frame h htidy, fun j => ?_, fun j => ?_⟩, hmode, fun j hj => ?_, fun j hj => ?_⟩
  · by_cases hj : j = i
    · rw [hj]
      exact hrest
    · rw [h.others j hj]
      exact hs.rested j
  · by_cases hj : j = i
    · rw [hj]
      exact hdrain
    · rw [h.others j hj]
      exact hs.undrained j
  · rw [h.others j (hne hj), h.cfg]
    exact hs.admitted j hj
  · rw [h.others j (hne hj)]
    exact hs.polled j hj

theorem Abandoned.good (h : Abandoned w i s t) (hs : s.Good (some i))
    (hlive : (s.conns i).state ≠ .free) : t.Good (some i) := by
  have hconn := h.conn
  have hnote : ∀ o ∈ (s.conns i).log, o ∈ (t.conns i).log := fun o ho => by
    rw [hconn]
    exact List.mem_append_left _ ho
  have hfields : (t.conns i).state = (s.conns i).state ∧ (t.conns i).ssl = (s.conns i).ssl ∧
      (t.conns i).beWait = (s.conns i).beWait ∧ (t.conns i).feQ = (s.conns i).feQ ∧
      (t.conns i).drainingQueue = (s.conns i).drainingQueue ∧ (t.conns i).be = none := by
    rw [hconn]
    exact ⟨rfl, rfl, rfl, rfl, rfl, rfl⟩
  obtain ⟨hstate, hssl, hwait, hqueue, hdrain, hbe⟩ := hfields
  refine hs.frame h.toFrame (fun hnot => ?_) ?_ (hdrain.trans (hs.undrained i))
    (hs.mode.frame h.toFrame h.sq (fun htls _ => hssl.trans (hs.mode.tls htls i hlive)) fun htls => ?_)
  · have hclosed : ¬ (s.conns i).Open := fun hopen => hnot ⟨hstate ▸ hopen.1, hstate ▸ hopen.2⟩
    obtain ⟨hidle, hempty, -⟩ := hs.tidy i hclosed
    exact ⟨hwait.trans hidle, by rw [hqueue]; exact hempty, hbe⟩
  · rcases hs.rested i with hrest | hrest | hrest
    · exact Or.inl (by rw [hwait]; exact hrest)
    · exact Or.inr (Or.inl (by rw [hqueue]; exact hrest))
    · exact Or.inr (Or.inr (hrest.imp (hnote _) (hnote _)))
  · obtain ⟨hhs, hplain⟩ := hs.mode.plain htls i
    exact ⟨hstate ▸ hhs, hssl.trans hplain⟩

/-- The second part of `close_conn`. -/
theorem ended_spec (hlive : (s.conns i).state ≠ .free) (habandon : Abandoned w i s t)
    (ht : t.Good (some i)) (hkept : Kept w none t u) (hwoken : (s.conns i).be ≠ none → Woken w t u) :
    Ended w i s (u.updConn i Conn.close) ∧ (u.updConn i Conn.close).Good none := by
  have hsame : u.conns i = t.conns i := (hkept.still i nofun (Or.inr habandon.ring)).1
  have hbe : (u.conns i).be = none := by
    rw [hsame, habandon.conn]
  have hu : u.Good (some i) := by
    refine (hkept.exempt (some i)).good ht ⟨ht.toSound.path hkept.path, fun j => ?_, fun j => ?_⟩
    · exact hkept.rested j nofun (ht.rested j)
    · exact (hkept.draining j).trans (ht.undrained j)
  obtain ⟨hstate, hssl, hwait, hqueue, hbeC, hdrain⟩ := close_facts (u.conns i)
  have hconn : (u.updConn i Conn.close).conns i = (u.conns i).close := conns_updConn ..
  rw [← hconn] at hstate hssl hwait hqueue hbeC hdrain
  have hbeside : Beside i u (u.updConn i Conn.close) := .updConn u _
  have hframe := (hbeside.local (w := w) hu.toOwned hbeC).toFrame
  have hsq : (u.updConn i Conn.close).sq = u.sq := rfl
  have hclosed : Closed w i u (u.updConn i Conn.close) := by
    refine ⟨hframe, rfl, rfl, rfl, (hkept.still i nofun (Or.inr habandon.ring)).2 habandon.ring, hbe, ?_,
      hconn⟩
    rw [hsame, habandon.conn]
    exact List.mem_append_right _ List.mem_cons_self
  generalize u.updConn i Conn.close = v at hstate hssl hwait hqueue hbeC hdrain hframe hsq hclosed
  refine ⟨⟨hlive, habandon, hkept.path, hwoken, hclosed⟩, ?_⟩
  have hv : v.Good (some i) := hu.frame hframe
    (fun _ => ⟨hwait, hqueue, hbeC.trans hbe⟩) (Or.inr (Or.inl hqueue))
    (hdrain.trans (hu.undrained i))
    (hu.mode.frame hframe hsq (fun _ hnot => absurd hstate hnot)
      fun _ => ⟨by rw [hstate]; nofun, hssl⟩)
  exact hv.close (fun hopen => absurd hstate hopen.1) fun hnot => absurd hstate hnot

theorem closeConn_spec (hs : s.Good (some i)) (hlive : (s.conns i).state ≠ .free) :
    Ended w i s (closeConn env (drainQueue w env) s i) ∧
      (closeConn env (drainQueue w env) s i).Good none := by
  have hconn : (({ s with waiters := s.waiters.remove i } : Server).updConn i
      fun c => c.note .closed).conns i = (s.conns i).note .closed := conns_updConn ..
  have hbe : ((({ s with waiters := s.waiters.remove i } : Server).updConn i
      fun c => c.note .closed).conns i).be = (s.conns i).be := by
    rw [hconn]
    rfl
  have hpool : (({ s with waiters := s.waiters.remove i } : Server).updConn i
      fun c => c.note .closed).pool = s.pool := rfl
  obtain ⟨t, hcases⟩ := abandoned_spec (w := w) (i := i) env hs.toSteady
  unfold closeConn
  rw [if_neg hlive]
  dsimp only
  generalize ({ s with waiters := s.waiters.remove i } : Server).updConn i
    (fun c => c.note .closed) = v at hcases hbe hpool ⊢
  rw [hbe, hpool]
  rcases hcases with ⟨habandon, rfl, hnone⟩ | ⟨habandon, heq, hsome, hpoolT⟩
  · rw [hnone, if_neg (by simp)]
    exact ended_spec hlive habandon (habandon.good hs hlive) (.refl _) fun h => absurd hnone h
  · obtain ⟨b, hb⟩ := Option.ne_none_iff_exists'.mp hsome
    obtain ⟨p, hp, -⟩ := hs.toOwned.pool hb
    rw [hb, hp, if_pos (by simp), heq]
    have ht := habandon.good hs hlive
    obtain ⟨hkept, hwoken⟩ := fairScheduleWaiters_spec (drainQueue_spec w env) ht.toSound ht.calm
      ht.room
    exact ended_spec hlive habandon ht hkept fun _ => hwoken hpoolT

/-- A handler that fails ends its connection. -/
theorem closeUnless_spec {r : Server × Bool} (hfail : r.2 = false → r.1.Good (some i))
    (hlive : (r.1.conns i).state ≠ .free) (hgood : r.2 = true → r.1.Good none) :
    (r.2 = true → closeUnless env (drainQueue w env) r i = r.1) ∧
      (r.2 = false → Ended w i r.1 (closeUnless env (drainQueue w env) r i)) ∧
        (closeUnless env (drainQueue w env) r i).Good none := by
  obtain ⟨t, _ | _⟩ := r
  · obtain ⟨hend, hend'⟩ := closeConn_spec (w := w) env (hfail rfl) hlive
    exact ⟨nofun, fun _ => hend, hend'⟩
  · exact ⟨fun _ => rfl, nofun, hgood rfl⟩

end
