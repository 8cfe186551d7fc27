import PqProxy.LoopLand
import PqProxy.PoolExclusive
import PqProxy.Runs

/-! One iteration of the event loop: what the dispatch of a completion begins with, and the turns that
follow. Between two iterations the server is in order. -/

section

variable {w : Pqwire} (env : Env) {i : Slot} {s t u : Server}

theorem Turns.moves (h : Turns w s t) : Moves w s t :=
  Relation.ReflTransGen.mono (fun _ _ ⟨i, hturn⟩ => ⟨i, .act hturn⟩) _ _ h

/-- A handler returns, and its connection is closed if it failed. -/
theorem finish_spec {r : Server × Bool} (hpath : Turns w t r.1) (hgood : r.1.Good (some i))
    (hlive : (r.1.conns i).state ≠ .free) (hok : r.2 = true → r.1.Good none) :
    Moves w t (closeUnless env (drainQueue w env) r i) ∧
      (closeUnless env (drainQueue w env) r i).Good none := by
  obtain ⟨hsame, hend, hafter⟩ := closeUnless_spec (w := w) env (fun _ => hgood) hlive hok
  refine ⟨?_, hafter⟩
  cases hr : r.2 with
  | true =>
      rw [hsame hr]
      exact hpath.moves
  | false => exact hpath.moves.tail ⟨i, .ended (hend hr)⟩

theorem Settled.live (h : Settled w i s t) (hlive : (s.conns i).state ≠ .free) :
    (t.conns i).state ≠ .free := fun hfree => hlive ((h.keeps i).free.mp hfree)

/-- A receive is no longer pending. -/
theorem settled_recv (hs : s.Steady) :
    Settled w i s (s.updConn i fun c => { c with recvPending := false }) := by
  refine .of_turn hs (turn_updConn hs.toOwned rfl Iff.rfl (.io ?_)) (by rw [conns_updConn]; rfl)
  exact .of_conn rfl rfl rfl (.of_same rfl rfl rfl id)

theorem onRecv_spec (hs : s.Good none) (hopen : (s.conns i).Open) (cqe : Cqe) :
    Moves w (s.updConn i fun c => { c with recvPending := false })
        (onRecv w env (drainQueue w env) s i cqe) ∧
      (onRecv w env (drainQueue w env) s i cqe).Good none := by
  have hclear := settled_recv (w := w) (i := i) hs.toSteady
  have ht := hclear.good_open hs hopen
  have hopenT := hclear.open hopen
  unfold onRecv
  dsimp only
  generalize s.updConn i (fun c => { c with recvPending := false }) = t at hclear ht hopenT ⊢
  have hcut : ∀ u, Settled w i t u → Moves w t (closeConn env (drainQueue w env) u i) ∧
      (closeConn env (drainQueue w env) u i).Good none := fun u hu =>
    finish_spec (r := (u, false)) env hu.kept.path ((hu.good_open ht hopenT).exempt _)
      (hu.open hopenT).1 nofun
  split
  · rename_i es
    have hfront := processFrontend_spec (w := w) env es ht.toSteady hopenT (ht.admitted i nofun)
    generalize processFrontend w env (drainQueue w env) t i es = r at hfront
    obtain ⟨u, _ | _⟩ := r
    · exact hcut u hfront
    · dsimp only at hfront ⊢
      split
      · exact hcut u hfront
      · have hu := hfront.good_open ht hopenT
        have hrecv := settled_io (w := w) (i := i) hu.toSteady (hfront.open hopenT).1
          (submitRecv_io (u.cell i))
        have hend := hrecv.good_open hu (hfront.open hopenT)
        exact finish_spec env (hfront.kept.path.trans hrecv.kept.path) (hend.exempt _)
          (hrecv.open (hfront.open hopenT)).1 fun _ => hend
  · exact hcut t (.refl ht.toSteady)

/-- A flag of the connection is cleared, which is otherwise as before. -/
theorem cleared_good (w : Pqwire) {f : Conn → Conn} (hs : s.Good none)
    (hside : (f (s.conns i)).side = (s.conns i).side)
    (hstate : (f (s.conns i)).state = (s.conns i).state) (hssl : (f (s.conns i)).ssl = (s.conns i).ssl)
    (hlog : (f (s.conns i)).log = (s.conns i).log) : (s.updConn i f).Good (some i) := by
  have hconn : (s.updConn i f).conns i = f (s.conns i) := conns_updConn ..
  have hsq : (s.updConn i f).sq = s.sq := rfl
  have hbeside : Beside i s (s.updConn i f) := .updConn s f
  rw [← hconn] at hside hstate hssl hlog
  generalize s.updConn i f = t at hside hstate hssl hlog hsq hbeside
  simp only [Conn.side, Prod.mk.injEq] at hside
  obtain ⟨hbe, hwait, hdrain, hqueue⟩ := hside
  have hframe := (hbeside.local (w := w) hs.toOwned hbe).toFrame
  refine (hs.exempt (some i)).frame hframe (fun hnot => ?_)
    ((hs.rested i).of_eq hwait (Or.inl hqueue) fun o ho => by rw [hlog]; exact ho)
    (hdrain.trans (hs.undrained i)) (hs.mode.frame hframe hsq (fun htls hlive => ?_) fun htls => ?_)
  · obtain ⟨hidle, hempty, hnone⟩ := hs.tidy i fun hopen => hnot ⟨hstate ▸ hopen.1, hstate ▸ hopen.2⟩
    exact ⟨hwait.trans hidle, by rw [hqueue]; exact hempty, hbe.trans hnone⟩
  · exact hssl.trans (hs.mode.tls htls i (hstate ▸ hlive))
  · obtain ⟨hhs, hplain⟩ := hs.mode.plain htls i
    exact ⟨hstate ▸ hhs, hssl.trans hplain⟩

/-- A write has completed: more of the output is sent, or the connection is closed. -/
theorem onSend_spec {r : Request} (hs : s.Good none) (hop : r.op = .send) (hslot : r.slot = i)
    (hopen : (s.conns i).Open) (hssl : (s.conns i).ssl = false) (cqe : Cqe) :
    (∃ t, Opens w r s t ∧ Moves w t (onSend env (drainQueue w env) s i cqe)) ∧
      (onSend env (drainQueue w env) s i cqe).Good none := by
  subst hslot
  have hclear := cleared_good (i := r.slot) w (f := fun c => { c with sendPending := false }) hs rfl
    rfl rfl rfl
  have hconn : (s.updConn r.slot fun c => { c with sendPending := false }).conns r.slot =
      { s.conns r.slot with sendPending := false } := conns_updConn ..
  have hfields : ((s.updConn r.slot fun c => { c with sendPending := false }).conns r.slot).state =
      (s.conns r.slot).state ∧
        ((s.updConn r.slot fun c => { c with sendPending := false }).conns r.slot).ssl = false ∧
        ((s.updConn r.slot fun c => { c with sendPending := false }).conns r.slot).Admitted s.cfg := by
    rw [hconn]
    exact ⟨rfl, hssl, hs.admitted r.slot nofun⟩
  have hcfg : (s.updConn r.slot fun c => { c with sendPending := false }).cfg = s.cfg := rfl
  obtain ⟨hstate, hsslT, hadmT⟩ := hfields
  unfold onSend
  dsimp only
  split
  · rename_i n
    have hopens : Opens w r s _ := .send n hop hopen.1
    generalize (s.updConn r.slot fun c => { c with sendPending := false }) = t
      at hclear hstate hsslT hadmT hcfg hopens ⊢
    have hopenT : (t.conns r.slot).Open :=
      ⟨fun h => hopen.1 (hstate.symm.trans h), fun h => hopen.2 (hstate.symm.trans h)⟩
    obtain ⟨hio, -⟩ := advanceSend_io n (t.cell r.slot)
    have hsent := settled_io (w := w) (f := fun c => (advanceSend n c, true)) hclear.toSteady hopenT.1
      hio
    generalize (t.onCell r.slot fun c => (advanceSend n c, true)).1 = u at hopens hsent ⊢
    have hopenU := hsent.open hopenT
    have hu : u.Good none := by
      refine (hsent.good hclear).close ?_ fun _ htls => ?_
      · rw [hsent.kept.path.cfg.1, hcfg]
        exact hsent.admitted hopenT hadmT
      · cases (((hsent.keeps r.slot).ssl.trans hsslT).symm.trans htls)
    split
    · obtain ⟨hend, hgood⟩ := closeConn_spec (w := w) env (hu.exempt _) hopenU.1
      exact ⟨⟨u, hopens, .single ⟨r.slot, .ended hend⟩⟩, hgood⟩
    · exact ⟨⟨u, hopens, .refl⟩, hu⟩
  · obtain ⟨hend, hgood⟩ := closeConn_spec (w := w) env hclear fun h => hopen.1 (hstate.symm.trans h)
    exact ⟨⟨_, .sendCut hop hopen.1 hend, .refl⟩, hgood⟩

theorem submitPoll_polled {c : Cell} (hok : (submitPoll c).2 = true) : (submitPoll c).1.conn.Polled := by
  unfold submitPoll at hok ⊢
  split
  · rename_i hskip
    intro hlive hssl
    rcases hskip with h | h | h
    · cases h.symm.trans hssl
    · exact h
    · exact absurd h hlive
  · rename_i hgo
    rw [if_neg hgo] at hok
    dsimp only at hok ⊢
    rcases prep_cases c { c.request .poll with
      pollOut := c.conn.wantPollOut || decide (c.conn.sendOff < c.conn.sendLen) } (fun conn =>
        { conn with
          pollPending := true
          polledOut := c.conn.wantPollOut || decide (c.conn.sendOff < c.conn.sendLen) }) with h | h
    · rw [h]
      exact fun _ _ => rfl
    · rw [h] at hok
      cases hok

theorem settled_poll (hs : s.Steady) (hlive : (s.conns i).state ≠ .free) :
    Settled w i s (s.onCell i submitPoll).1 ∧
      ((s.onCell i submitPoll).2 = true → ((s.onCell i submitPoll).1.conns i).Polled) := by
  refine ⟨settled_io hs hlive (submitPoll_io (s.cell i)).1, fun hok => ?_⟩
  rw [conns_onCell]
  exact submitPoll_polled hok

theorem settled_tlsWrite (hs : s.Steady) (writes : TlsWrites) :
    Settled w i s (s.onConn i (tlsDriveWrite writes)).1 :=
  settled_ioConn hs (tlsDriveWriteFrom_io writes.fails writes.written (s.cell i))

theorem tlsDriveRead_spec (readEnd : ReadEnd) (reads : List (List Event)) (hs : s.Steady)
    (hopen : (s.conns i).Open) (hadm : (s.conns i).Admitted s.cfg) :
    Settled w i s (tlsDriveRead w env (drainQueue w env) readEnd reads s i).1 := by
  induction reads generalizing s with
  | nil =>
      cases readEnd with
      | wants => exact .refl hs
      | closed =>
          rw [tlsDriveRead]
          refine .of_turn hs (turn_updConn hs.toOwned rfl Iff.rfl (.closing hopen)) ?_
          rw [conns_updConn]
          rfl
      | failed => exact .refl hs
  | cons es reads ih =>
      have hfront := processFrontend_spec (w := w) env es hs hopen hadm
      rw [tlsDriveRead]
      generalize processFrontend w env (drainQueue w env) s i es = r at hfront
      obtain ⟨u, _ | _⟩ := r
      · exact hfront
      · refine hfront.trans (ih (hfront.steady hs) (hfront.open hopen) ?_)
        rw [hfront.kept.path.cfg.1]
        exact hfront.admitted hopen hadm

/-- How the handler of a poll ends: whatever the connection was, it is polled again. -/
structure Polls (w : Pqwire) (i : Slot) (s : Server) (r : Server × Bool) : Prop where
  settled : Settled w i s r.1
  admitted : r.2 = true → (r.1.conns i).Admitted r.1.cfg
  polled : r.2 = true → (r.1.conns i).Polled

theorem Polls.cut (h : Settled w i s t) : Polls w i s (t, false) := ⟨h, nofun, nofun⟩

theorem Polls.trans {r : Server × Bool} (h : Settled w i s t) (k : Polls w i t r) : Polls w i s r :=
  ⟨h.trans k.settled, k.admitted, k.polled⟩

/-- The connection is polled at the end of a handler. -/
theorem polls_again (hs : s.Steady) (hlive : (s.conns i).state ≠ .free)
    (hadm : (s.conns i).Admitted s.cfg) : Polls w i s (s.onCell i submitPoll) := by
  obtain ⟨hsettled, hpolled⟩ := settled_poll (w := w) hs hlive
  refine ⟨hsettled, fun _ => ?_, hpolled⟩
  have hconn := conns_onCell s i submitPoll
  have hcfg : (s.onCell i submitPoll).1.cfg = s.cfg := rfl
  rw [hcfg, hconn, (submitPoll_io (s.cell i)).1.conn]
  exact hadm

/-- A step that the handler may skip. -/
theorem settled_if {c : Prop} [Decidable c] {r : Server × Bool} (hs : s.Steady)
    (h : Settled w i s r.1) : Settled w i s (if c then r else (s, true)).1 := by
  split
  · exact h
  · exact .refl hs

theorem onTlsReady_spec (hs : s.Steady) (hopen : (s.conns i).Open) (hadm : (s.conns i).Admitted s.cfg)
    (io : TlsIo) : Polls w i s (onTlsReady w env (drainQueue w env) s i io) := by
  have hwrite := settled_if (c := io.writable = true) hs (settled_tlsWrite (w := w) (i := i) hs io.writes)
  unfold onTlsReady
  generalize (if io.writable = true then s.onConn i (tlsDriveWrite io.writes) else (s, true)) = r
    at hwrite
  obtain ⟨t, _ | _⟩ := r
  · exact .cut hwrite
  have ht := hwrite.steady hs
  have hopenT := hwrite.open hopen
  have hadmT : (t.conns i).Admitted t.cfg := by
    rw [hwrite.kept.path.cfg.1]
    exact hwrite.admitted hopen hadm
  refine .trans hwrite ?_
  have hread := settled_if (c := io.readable = true) ht
    (tlsDriveRead_spec (w := w) env io.readEnd io.reads ht hopenT hadmT)
  dsimp only
  generalize (if io.readable = true then
    tlsDriveRead w env (drainQueue w env) io.readEnd io.reads t i else (t, true)) = r at hread
  obtain ⟨u, _ | _⟩ := r
  · exact .cut hread
  have hu := hread.steady ht
  have hopenU := hread.open hopenT
  have hadmU : (u.conns i).Admitted u.cfg := by
    rw [hread.kept.path.cfg.1]
    exact hread.admitted hopenT hadmT
  refine .trans hread ?_
  have hlater := settled_if (c := (u.conns i).sendOff < (u.conns i).sendLen) hu
    (settled_tlsWrite (w := w) (i := i) hu io.laterWrites)
  dsimp only
  generalize (if (u.conns i).sendOff < (u.conns i).sendLen then
    u.onConn i (tlsDriveWrite io.laterWrites) else (u, true)) = r at hlater
  obtain ⟨v, _ | _⟩ := r
  · exact .cut hlater
  refine .trans hlater ?_
  dsimp only
  split
  · exact .cut (.refl (hlater.steady hu))
  · refine polls_again (hlater.steady hu) (hlater.open hopenU).1 ?_
    rw [hlater.kept.path.cfg.1]
    exact hlater.admitted hopenU hadmU

/-- The handshake is over. -/
theorem handshake_spec (hs : s.Steady) (hstate : (s.conns i).state = .tlsHs) (peer : Peer) :
    Settled w i s (s.onConn i (tlsOnHandshakeDone s.cfg peer)).1 ∧
      ((s.onConn i (tlsOnHandshakeDone s.cfg peer)).1.conns i).Open ∧
      ((s.onConn i (tlsOnHandshakeDone s.cfg peer)).2 = true →
        ((s.onConn i (tlsOnHandshakeDone s.cfg peer)).1.conns i).Admitted s.cfg) := by
  have hself : (s.onConn i (tlsOnHandshakeDone s.cfg peer)).1.conns i =
      (tlsOnHandshakeDone s.cfg peer (s.conns i)).1 := Function.update_self ..
  have hside : (tlsOnHandshakeDone s.cfg peer (s.conns i)).1.side = (s.conns i).side := by
    unfold tlsOnHandshakeDone
    dsimp only
    split <;> rfl
  have hactive := handshake_active s.cfg peer (s.conns i)
  have hfields := hside
  simp only [Conn.side, Prod.mk.injEq] at hfields
  refine ⟨.of_turn hs (turn_onConn hs.toOwned hfields.1 (by rw [hfields.2.1])
    (.handshake peer hstate)) (by rw [hself, hside]), ?_, fun hok => ?_⟩
  · rw [hself]
    exact ⟨fun h => (by cases hactive.symm.trans h), fun h => (by cases hactive.symm.trans h)⟩
  · rw [hself]
    change (tlsOnHandshakeDone s.cfg peer (s.conns i)).2 = true at hok
    intro _
    unfold tlsOnHandshakeDone at hok ⊢
    dsimp only at hok ⊢
    split
    · exact Or.inl rfl
    · rename_i hbad
      rw [if_neg hbad] at hok
      simpa using Or.inr hok

theorem onTlsPoll_spec (hs : s.Steady) (hlive : (s.conns i).state ≠ .free)
    (hadm : (s.conns i).Admitted s.cfg) (io : TlsIo) :
    Polls w i s (onTlsPoll w env (drainQueue w env) s i io) := by
  unfold onTlsPoll
  split
  · exact .cut (.refl hs)
  · split
    · rename_i hstate
      split
      · exact .cut (.refl hs)
      · rename_i write _
        have hwant : Settled w i s (s.updConn i fun c => { c with wantPollOut := write }) := by
          refine .of_turn hs (turn_updConn hs.toOwned rfl Iff.rfl (.io ?_)) (by rw [conns_updConn]; rfl)
          exact .of_conn rfl rfl rfl (.of_same rfl rfl rfl id)
        have hconn : (s.updConn i fun c => { c with wantPollOut := write }).conns i =
            { s.conns i with wantPollOut := write } := conns_updConn ..
        refine .trans hwant (polls_again (hwant.steady hs) ?_ ?_)
        · rw [hconn]
          exact hlive
        · rw [hconn]
          exact hadm
      · obtain ⟨hdone, hopen, hok⟩ := handshake_spec (w := w) hs hstate io.peer
        have hcfg : (s.onConn i (tlsOnHandshakeDone s.cfg io.peer)).1.cfg = s.cfg := rfl
        generalize s.onConn i (tlsOnHandshakeDone s.cfg io.peer) = r at hdone hopen hok hcfg ⊢
        obtain ⟨t, _ | _⟩ := r
        · exact .cut hdone
        · refine .trans hdone (onTlsReady_spec env (hdone.steady hs) hopen ?_ io)
          rw [hcfg]
          exact hok rfl
    · rename_i hstate
      exact onTlsReady_spec env hs ⟨hlive, hstate⟩ hadm io

/-- A poll has completed: whatever happens, the connection is polled again or closed. -/
theorem onPoll_spec (hs : s.Good none) (hlive : (s.conns i).state ≠ .free) (cqe : Cqe) :
    Moves w (s.updConn i fun c => { c with pollPending := false })
        (onPoll w env (drainQueue w env) s i cqe) ∧
      (onPoll w env (drainQueue w env) s i cqe).Good none := by
  have hclear := cleared_good (i := i) w (f := fun c => { c with pollPending := false }) hs rfl rfl
    rfl rfl
  have hconn : (s.updConn i fun c => { c with pollPending := false }).conns i =
      { s.conns i with pollPending := false } := conns_updConn ..
  have hfields : ((s.updConn i fun c => { c with pollPending := false }).conns i).state =
      (s.conns i).state ∧
        ((s.updConn i fun c => { c with pollPending := false }).conns i).Admitted s.cfg := by
    rw [hconn]
    exact ⟨rfl, hs.admitted i nofun⟩
  have hcfg : (s.updConn i fun c => { c with pollPending := false }).cfg = s.cfg := rfl
  obtain ⟨hstate, hadm⟩ := hfields
  unfold onPoll
  dsimp only
  generalize s.updConn i (fun c => { c with pollPending := false }) = t
    at hclear hstate hadm hcfg ⊢
  have hliveT : (t.conns i).state ≠ .free := fun h => hlive (hstate.symm.trans h)
  split
  · rename_i io
    have hpoll := onTlsPoll_spec (w := w) env hclear.toSteady hliveT (hcfg ▸ hadm) io
    have hgood := hpoll.settled.good hclear
    exact finish_spec env hpoll.settled.kept.path hgood (hpoll.settled.live hliveT) fun hok =>
      hgood.close (hpoll.admitted hok) (hpoll.polled hok)
  · exact finish_spec (r := (t, false)) env .refl hclear hliveT nofun

/-! ### Accepting -/

theorem fresh_facts (gen : Nat) {s : Server} {fd : Nat} {c : Conn} (h : Admits s gen fd c) :
    c.be = none ∧ c.beWait = .idle ∧ c.drainingQueue = false ∧ c.feQ.toList = [] ∧ c.gen = gen ∧
      (s.tls = true → c.state ≠ .free → c.ssl = true) ∧
      (s.tls = false → c.state ≠ .tlsHs ∧ c.ssl = false) := by
  cases h with
  | cut => exact ⟨rfl, rfl, rfl, rfl, rfl, fun _ h => absurd rfl h, fun _ => ⟨nofun, rfl⟩⟩
  | tls htls => exact ⟨rfl, rfl, rfl, rfl, rfl, fun _ _ => rfl, fun h => (nomatch htls.symm.trans h)⟩
  | plain htls =>
      exact ⟨rfl, rfl, rfl, rfl, rfl, fun h => (nomatch htls.symm.trans h), fun _ => ⟨nofun, rfl⟩⟩

theorem accepted_spec (hs : s.Good none) (hfree : (s.conns i).state = .free) {fd : Nat}
    {f : Conn → Conn} (hconn : Admits s ((s.conns i).gen + 1) fd (f (s.conns i))) :
    Accepted w i s (s.updConn i f) ∧ (s.updConn i f).Good (some i) := by
  have hself : (s.updConn i f).conns i = f (s.conns i) := conns_updConn ..
  have hbeside : Beside i s (s.updConn i f) := .updConn s f
  have hsq : (s.updConn i f).sq = s.sq := rfl
  have hpool : (s.updConn i f).pool = s.pool := rfl
  have hring : (s.updConn i f).waiters = s.waiters := rfl
  rw [← hself] at hconn
  generalize s.updConn i f = t at hconn hbeside hsq hpool hring
  obtain ⟨hbe, hwait, hdrain, hqueue, -, htls, hplain⟩ := fresh_facts _ hconn
  have hframe : Frame w i s t := hbeside.frame fun b hb => nomatch hbe.symm.trans hb
  refine ⟨⟨hframe, hsq, hpool, hring, hfree, fd, hconn⟩, (hs.exempt (some i)).frame hframe
    (fun _ => ⟨hwait, hqueue, hbe⟩) (Or.inr (Or.inl hqueue)) hdrain
    (hs.mode.frame hframe hsq htls hplain)⟩

/-- The first request of a new connection, or its end. -/
theorem acceptWith_spec {submit : Cell → Cell × Bool} (hs : s.Good (some i))
    (hlive : (s.conns i).state ≠ .free) (hpath : Turns w t s)
    (hsettled : Settled w i s (s.onCell i submit).1)
    (hok : (s.onCell i submit).2 = true → (s.onCell i submit).1.Good none) :
    Moves w t (acceptWith env (drainQueue w env) s i submit) ∧
      (acceptWith env (drainQueue w env) s i submit).Good none :=
  finish_spec env (hpath.trans hsettled.kept.path) (hsettled.good hs) (hsettled.live hlive) hok

/-- What `accept_one` makes of a zeroed slot before the first request of the connection. -/
def AcceptSetup.admitted (setup : AcceptSetup) (s : Server) (gen fd : Nat) : Conn :=
  if setup.created = false ∨ s.tls = true ∧ setup.tlsCreated = false then
    Conn.opened gen fd (setup.zerocopyOk s.cfg)
  else if s.tls then { Conn.opened gen fd (setup.zerocopyOk s.cfg) with ssl := true, state := .tlsHs }
  else { Conn.opened gen fd (setup.zerocopyOk s.cfg) with
    state := .active,
    id := { plainIdentity with identitySlot := s.cfg.identitySlot }, identityReady := true }

/-- `accept_one` admits a connection to the slot, and does the rest to that connection. -/
theorem acceptOne_admits (hs : s.Good none) (halloc : allocConn s = some i) (fd : Nat)
    (setup : AcceptSetup) :
    ∃ t, Accepted w i s t ∧ t.conns i = setup.admitted s ((s.conns i).gen + 1) fd ∧
      Moves w t (acceptOne env (drainQueue w env) s fd setup) ∧
      (acceptOne env (drainQueue w env) s fd setup).Good none := by
  unfold acceptOne
  rw [halloc]
  have hfree : (s.conns i).state = .free := by simpa using List.find?_some halloc
  have hcut := accepted_spec (w := w) (f := fun c => Conn.opened (c.gen + 1) fd (setup.zerocopyOk s.cfg))
    hs hfree .cut
  have htlsConn : (s.updConn i fun c => Conn.opened (c.gen + 1) fd (setup.zerocopyOk s.cfg)).updConn i
      (fun c => { c with ssl := true, state := .tlsHs }) = s.updConn i fun c =>
        { Conn.opened (c.gen + 1) fd (setup.zerocopyOk s.cfg) with ssl := true, state := .tlsHs } :=
    updConn_updConn ..
  have hplainConn : (s.updConn i fun c => Conn.opened (c.gen + 1) fd (setup.zerocopyOk s.cfg)).updConn i
      (fun c => { c with
        state := .active, id := { plainIdentity with identitySlot := s.cfg.identitySlot },
        identityReady := true }) = s.updConn i fun c => {
          Conn.opened (c.gen + 1) fd (setup.zerocopyOk s.cfg) with
          state := .active,
          id := { plainIdentity with identitySlot := s.cfg.identitySlot },
          identityReady := true } := updConn_updConn ..
  have hcutConn : ((s.updConn i fun c =>
      Conn.opened (c.gen + 1) fd (setup.zerocopyOk s.cfg)).conns i).state = .free := by
    rw [conns_updConn]
    rfl
  have hcutGood : (s.updConn i fun c => Conn.opened (c.gen + 1) fd (setup.zerocopyOk s.cfg)).Good none :=
    hcut.2.close (fun h => absurd hcutConn h.1) fun h => absurd hcutConn h
  have hmode : (s.updConn i fun c => Conn.opened (c.gen + 1) fd (setup.zerocopyOk s.cfg)).tls = s.tls := rfl
  have hcfg : (s.updConn i fun c => Conn.opened (c.gen + 1) fd (setup.zerocopyOk s.cfg)).cfg = s.cfg := rfl
  dsimp only
  rw [hmode]
  -- the connection is cut off before it begins
  have hend : setup.created = false ∨ s.tls = true ∧ setup.tlsCreated = false →
      ∃ t, Accepted w i s t ∧ t.conns i = setup.admitted s ((s.conns i).gen + 1) fd ∧
        Moves w t (closeConn env (drainQueue w env)
          (s.updConn i fun c => Conn.opened (c.gen + 1) fd (setup.zerocopyOk s.cfg)) i) ∧
        (closeConn env (drainQueue w env) (s.updConn i fun c =>
          Conn.opened (c.gen + 1) fd (setup.zerocopyOk s.cfg)) i).Good none := by
    intro hfails
    unfold closeConn
    rw [if_pos hcutConn]
    exact ⟨_, hcut.1, (conns_updConn ..).trans (if_pos hfails).symm, .refl, hcutGood⟩
  by_cases hcreated : setup.created = false
  · rw [if_pos hcreated]
    exact hend (Or.inl hcreated)
  · rw [if_neg hcreated]
    by_cases htls : s.tls = true
    · rw [if_pos htls]
      by_cases hsession : setup.tlsCreated = false
      · rw [if_pos hsession]
        exact hend (Or.inr ⟨htls, hsession⟩)
      · rw [if_neg hsession, htlsConn]
        have hadmitted : setup.admitted s ((s.conns i).gen + 1) fd =
            { Conn.opened ((s.conns i).gen + 1) fd (setup.zerocopyOk s.cfg) with
              ssl := true, state := .tlsHs } := by
          rw [AcceptSetup.admitted, if_neg (not_or.mpr ⟨hcreated, fun h => hsession h.2⟩), if_pos htls]
        rw [hadmitted]
        have htlsSpec := accepted_spec (w := w)
          (f := fun c => { Conn.opened (c.gen + 1) fd (setup.zerocopyOk s.cfg) with
            ssl := true, state := .tlsHs }) hs hfree (.tls htls)
        have hconn : (s.updConn i fun c => { Conn.opened (c.gen + 1) fd (setup.zerocopyOk s.cfg) with
            ssl := true, state := .tlsHs }).conns i = {
              Conn.opened ((s.conns i).gen + 1) fd (setup.zerocopyOk s.cfg) with
              ssl := true, state := .tlsHs } := conns_updConn ..
        have hcfgT : (s.updConn i fun c => { Conn.opened (c.gen + 1) fd (setup.zerocopyOk s.cfg) with
            ssl := true, state := .tlsHs }).cfg = s.cfg := rfl
        generalize (s.updConn i fun c => { Conn.opened (c.gen + 1) fd (setup.zerocopyOk s.cfg) with
          ssl := true, state := .tlsHs }) = t at htlsSpec hconn hcfgT ⊢
        obtain ⟨haccept, hgood⟩ := htlsSpec
        have hstate : (t.conns i).state = .tlsHs := by rw [hconn]
        have hlive : (t.conns i).state ≠ .free := fun h => by cases hstate.symm.trans h
        -- a poll of a connection that is in order otherwise
        have hpoll : ∀ u, Settled w i t u → (u.conns i).Admitted u.cfg →
            Moves w t (acceptWith env (drainQueue w env) u i submitPoll) ∧
              (acceptWith env (drainQueue w env) u i submitPoll).Good none := by
          intro u hu hadm
          have hagain := polls_again (w := w) (hu.steady hgood.toSteady) (hu.live hlive) hadm
          exact acceptWith_spec env (hu.good hgood) (hu.live hlive) hu.kept.path hagain.settled
            fun hok => (hagain.settled.good (hu.good hgood)).close (hagain.admitted hok)
              (hagain.polled hok)
        split
        · obtain ⟨hended, hafter⟩ := closeConn_spec (w := w) env hgood hlive
          exact ⟨t, haccept, hconn, .single ⟨i, .ended hended⟩, hafter⟩
        · obtain ⟨hmoves, hafter⟩ := hpoll t (.refl hgood.toSteady) fun h => absurd hstate h.2
          exact ⟨t, haccept, hconn, hmoves, hafter⟩
        · obtain ⟨hdone, hopen, hok⟩ := handshake_spec (w := w) hgood.toSteady hstate setup.peer
          have hcfgU : (t.onConn i (tlsOnHandshakeDone t.cfg setup.peer)).1.cfg = t.cfg := rfl
          generalize t.onConn i (tlsOnHandshakeDone t.cfg setup.peer) = x at hdone hopen hok hcfgU ⊢
          obtain ⟨u, _ | _⟩ := x
          · obtain ⟨hended, hafter⟩ := closeConn_spec (w := w) env (hdone.good hgood) hopen.1
            exact ⟨t, haccept, hconn, hdone.kept.path.moves.tail ⟨i, .ended hended⟩, hafter⟩
          · obtain ⟨hmoves, hafter⟩ := hpoll u hdone (hcfgU ▸ hok rfl)
            exact ⟨t, haccept, hconn, hmoves, hafter⟩
    · rw [if_neg htls, hcfg, hplainConn]
      rw [Bool.not_eq_true] at htls
      have hadmitted : setup.admitted s ((s.conns i).gen + 1) fd =
          { Conn.opened ((s.conns i).gen + 1) fd (setup.zerocopyOk s.cfg) with
            state := .active,
            id := { plainIdentity with identitySlot := s.cfg.identitySlot }, identityReady := true } := by
        rw [AcceptSetup.admitted, htls, if_neg (not_or.mpr ⟨hcreated, fun h => by cases h.1⟩)]
        rfl
      rw [hadmitted]
      have hplainSpec := accepted_spec (w := w) (f := fun c => {
        Conn.opened (c.gen + 1) fd (setup.zerocopyOk s.cfg) with
        state := .active,
        id := { plainIdentity with identitySlot := s.cfg.identitySlot },
        identityReady := true }) hs hfree (.plain htls)
      have hconn : (s.updConn i fun c => { Conn.opened (c.gen + 1) fd (setup.zerocopyOk s.cfg) with
          state := .active,
          id := { plainIdentity with identitySlot := s.cfg.identitySlot },
          identityReady := true }).conns i = {
            Conn.opened ((s.conns i).gen + 1) fd (setup.zerocopyOk s.cfg) with
            state := .active,
            id := { plainIdentity with identitySlot := s.cfg.identitySlot },
            identityReady := true } := conns_updConn ..
      generalize (s.updConn i fun c => { Conn.opened (c.gen + 1) fd (setup.zerocopyOk s.cfg) with
        state := .active,
        id := { plainIdentity with identitySlot := s.cfg.identitySlot },
        identityReady := true }) = t at hplainSpec hconn ⊢
      obtain ⟨haccept, hgood⟩ := hplainSpec
      obtain ⟨hopen, hready, hssl⟩ : (t.conns i).Open ∧ (t.conns i).identityReady = true ∧
          (t.conns i).ssl = false := by
        rw [hconn]
        exact ⟨⟨by rintro ⟨⟩, by rintro ⟨⟩⟩, rfl, rfl⟩
      have ht : t.Good none := hgood.close (fun _ => Or.inl hready)
        fun _ h => by cases hssl.symm.trans h
      have hrecv := settled_io (w := w) (i := i) ht.toSteady hopen.1 (submitRecv_io (t.cell i))
      obtain ⟨hmoves, hafter⟩ := acceptWith_spec env hgood hopen.1 .refl hrecv
        fun _ => hrecv.good_open ht hopen
      exact ⟨t, haccept, hconn, hmoves, hafter⟩

theorem acceptOne_spec {r : Request} (hs : s.Good none) (hop : r.op = .accept) (fd : Nat)
    (setup : AcceptSetup) :
    (∃ t, Opens w r s t ∧ Moves w t (acceptOne env (drainQueue w env) s fd setup)) ∧
      (acceptOne env (drainQueue w env) s fd setup).Good none := by
  cases halloc : allocConn s with
  | none =>
      unfold acceptOne
      rw [halloc]
      exact ⟨⟨s, .skip (Or.inl hop), .refl⟩, hs⟩
  | some i =>
      obtain ⟨t, haccept, -, hmoves, hgood⟩ := acceptOne_admits (w := w) env hs halloc fd setup
      exact ⟨⟨t, .accept hop haccept, hmoves⟩, hgood⟩

/-- Backends that are checked out are left alone by the periodic maintenance, and no connection is
changed. -/
theorem serverTick_spec (w : Pqwire) (i : Slot) (hs : s.Good none) (now : Nat) :
    Local w i s (serverTick env s now) ∧ (serverTick env s now).conns = s.conns ∧
      (serverTick env s now).sq = s.sq ∧ (serverTick env s now).waiters = s.waiters ∧
      (serverTick env s now).Good none := by
  unfold serverTick
  split
  · rename_i hdue
    obtain ⟨p, hpool⟩ := Option.isSome_iff_exists.mp hdue.2.2
    have hidle := poolMaintain_idle w env p
    obtain ⟨hsame, hkeep⟩ := poolMaintain_keeps env p
    have hsilent := silent_poolMaintain env p
    have hpoolT : ({ s.updPool (poolMaintain env) with lastMaintainMs := now } : Server).pool =
        some (poolMaintain env p) := by
      change s.pool.map _ = _
      rw [hpool]
      rfl
    have hback : ∀ b, s.backends b = p.conns b := fun b => by rw [Server.backends, hpool]
    have hback' : ∀ b, ({ s.updPool (poolMaintain env) with lastMaintainMs := now } :
        Server).backends b = (poolMaintain env p).conns b := fun b => by
      rw [Server.backends, hpoolT]
    have hframe : Frame w i s { s.updPool (poolMaintain env) with lastMaintainMs := now } := by
      refine ⟨fun _ _ => rfl, fun b hb _ => ?_, fun b hbe => ?_, fun _ _ => Iff.rfl, fun hwf q hq => ?_,
        rfl, rfl, ?_, rfl, rfl, rfl, rfl, rfl, fun _ hf => ?_⟩
      · rw [hback', hback]
        exact hidle.held b (hback b ▸ hb)
      · have hheld := hs.toOwned.held i b hbe
        refine ⟨?_, Or.inl hbe⟩
        rw [hback] at hheld
        rw [hback', hidle.held b hheld]
        exact hheld
      · rw [hpoolT] at hq
        cases hq
        exact hidle.wf (hwf p hpool)
      · rw [hpoolT, hpool]
        exact congrArg some hsilent.setup
      · intro hreject hoff
        have hoffp : p.cfg.healthCheckOnCheckout = false := by
          rw [← Pool.cfg_eq hsilent.setup]
          exact hoff _ hpoolT
        obtain ⟨heq, hall⟩ := hf hreject fun q hq => by
          rw [hpool] at hq
          cases hq
          exact hoffp
        refine ⟨?_, hall⟩
        rw [Server.written, hpool] at heq
        rw [Server.written, hpoolT]
        exact (hsilent.written hoffp).trans heq
    refine ⟨⟨hframe, fun b hb => ?_⟩, rfl, rfl, rfl, ?_⟩
    · rw [hback', hsame b, ← hback] at hb
      by_cases hbe : (s.conns i).be = some b
      · exact Or.inl hbe
      · exact Or.inr ⟨hb, hbe⟩
    · exact ⟨⟨hs.toSound.frame hframe (hs.tidy i), hs.rested, hs.undrained⟩,
        ⟨hs.mode.tls, hs.mode.plain, hs.mode.requests⟩, hs.admitted, hs.polled⟩
  · exact ⟨.refl hs.toOwned, rfl, rfl, rfl, hs⟩

/-- A completion is no longer in flight. -/
theorem Server.Good.erase (hs : s.Good none) {rs : List Request} (hsub : ∀ r ∈ rs, r ∈ s.inflight) :
    ({ s with inflight := rs } : Server).Good none :=
  ⟨⟨⟨⟨hs.held, hs.unique⟩, hs.wf, hs.tidy, hs.unprobed⟩, hs.rested, hs.undrained⟩,
    ⟨hs.mode.tls, hs.mode.plain, fun htls r hr => hs.mode.requests htls r (hr.imp_left (hsub r))⟩,
    hs.admitted, hs.polled⟩

/-- What the dispatch of a completion does. -/
structure Dispatched (w : Pqwire) (r : Request) (s s' : Server) : Prop where
  moves : ∃ t, Opens w r s t ∧ Moves w t s'
  good : s'.Good none

theorem Dispatched.skip {r : Request} (hs : s.Good none)
    (h : r.op = .accept ∨ (s.conns r.slot).state = .free ∨
      ((r.op = .beSend ∨ r.op = .beRecv) ∧ (s.conns r.slot).be = none)) : Dispatched w r s s :=
  ⟨⟨s, .skip h, .refl⟩, hs⟩

/-- The completion of a request to a backend. -/
theorem landed_dispatched {r : Request} {x : Server × Bool} (hs : s.Good none)
    (hop : r.op = .beSend ∨ r.op = .beRecv) (hland : LandedTo w r.op r.slot s x) :
    Dispatched w r s (closeUnless env (drainQueue w env) x r.slot) := by
  obtain ⟨⟨t, hturn, hends⟩, hgood⟩ := hland
  have hopenT : (t.conns r.slot).Open := hturn.land.keeps.open (hturn.land.open (hs.tidy r.slot))
  rcases hends with ⟨hgo, hpath, hwoken⟩ | ⟨rfl, hover⟩
  · have hopen : (x.1.conns r.slot).Open := (hpath.keeps r.slot).1.open hopenT
    obtain ⟨hmoves, hafter⟩ := finish_spec (w := w) (t := x.1) env .refl (hgood.exempt _) hopen.1
      fun _ => hgood
    exact ⟨⟨x.1, .land hop hturn hgo hpath hwoken, hmoves⟩, hafter⟩
  · obtain ⟨-, hend, hafter⟩ := closeUnless_spec (r := (t, false)) (w := w) env
      (fun _ => hgood.exempt _) hopenT.1 nofun
    exact ⟨⟨_, .landCut hop hturn (hend rfl) hover, .refl⟩, hafter⟩

/-- A receive or a write of the frontend completes on a plain server only. -/
theorem Server.Mode.plain_of (h : s.Mode) {r : Request} (hr : r ∈ s.inflight)
    (hop : r.op = .recv ∨ r.op = .send) : s.tls = false := by
  rw [← Bool.not_eq_true]
  intro htls
  obtain ⟨hrecv, hsend⟩ := h.requests htls r (Or.inl hr)
  exact hop.elim hrecv hsend

theorem dispatchTo_spec {r : Request} (hs : s.Good none)
    (hplain : r.op = .recv ∨ r.op = .send → s.tls = false) (cqe : Cqe) :
    ∃ u, Dispatched w r s u ∧ dispatchTo w env (drainQueue w env) s r.op r.slot cqe =
      if r.op = .accept then submitAccept u else u := by
  have hopen : s.tls = false → (s.conns r.slot).state ≠ .free →
      (s.conns r.slot).Open ∧ (s.conns r.slot).ssl = false := fun htls hlive =>
    ⟨⟨hlive, (hs.mode.plain htls r.slot).1⟩, (hs.mode.plain htls r.slot).2⟩
  unfold dispatchTo
  cases hop : r.op with
  | accept =>
      cases cqe with
      | accepted fd setup =>
          obtain ⟨hmoves, hgood⟩ := acceptOne_spec (w := w) env hs hop fd setup
          exact ⟨_, ⟨hmoves, hgood⟩, (if_pos rfl).symm⟩
      | failed => exact ⟨s, .skip hs (Or.inl hop), (if_pos rfl).symm⟩
      | eof => exact ⟨s, .skip hs (Or.inl hop), (if_pos rfl).symm⟩
      | received => exact ⟨s, .skip hs (Or.inl hop), (if_pos rfl).symm⟩
      | sent => exact ⟨s, .skip hs (Or.inl hop), (if_pos rfl).symm⟩
      | polled => exact ⟨s, .skip hs (Or.inl hop), (if_pos rfl).symm⟩
      | data => exact ⟨s, .skip hs (Or.inl hop), (if_pos rfl).symm⟩
  | recv =>
      dsimp only
      split
      · rename_i hfree
        exact ⟨s, .skip hs (Or.inr (Or.inl hfree)), (if_neg nofun).symm⟩
      · rename_i hlive
        obtain ⟨hmoves, hgood⟩ := onRecv_spec (w := w) env hs (hopen (hplain (Or.inl hop)) hlive).1 cqe
        exact ⟨_, ⟨⟨_, .recv hop hlive, hmoves⟩, hgood⟩, (if_neg nofun).symm⟩
  | send =>
      dsimp only
      split
      · rename_i hfree
        exact ⟨s, .skip hs (Or.inr (Or.inl hfree)), (if_neg nofun).symm⟩
      · rename_i hlive
        obtain ⟨hactive, hssl⟩ := hopen (hplain (Or.inr hop)) hlive
        obtain ⟨hmoves, hgood⟩ := onSend_spec (w := w) env hs hop rfl hactive hssl cqe
        exact ⟨_, ⟨hmoves, hgood⟩, (if_neg nofun).symm⟩
  | poll =>
      dsimp only
      split
      · rename_i hfree
        exact ⟨s, .skip hs (Or.inr (Or.inl hfree)), (if_neg nofun).symm⟩
      · rename_i hlive
        obtain ⟨hmoves, hgood⟩ := onPoll_spec (w := w) env hs hlive cqe
        exact ⟨_, ⟨⟨_, .poll hop hlive, hmoves⟩, hgood⟩, (if_neg nofun).symm⟩
  | beSend =>
      dsimp only
      split
      · rename_i hskip
        rcases hskip with h | h
        · exact ⟨s, .skip hs (Or.inr (Or.inl h)), (if_neg nofun).symm⟩
        · exact ⟨s, .skip hs (Or.inr (Or.inr ⟨Or.inl hop, h⟩)), (if_neg nofun).symm⟩
      · rename_i hgo
        obtain ⟨b, hbe⟩ := Option.ne_none_iff_exists'.mp (not_or.mp hgo).2
        obtain ⟨hland, -⟩ := onBeSendCqe_spec (w := w) env hs hbe cqe
        rw [← hop] at hland
        exact ⟨_, landed_dispatched env hs (Or.inl hop) hland, (if_neg nofun).symm⟩
  | beRecv =>
      dsimp only
      split
      · rename_i hskip
        rcases hskip with h | h
        · exact ⟨s, .skip hs (Or.inr (Or.inl h)), (if_neg nofun).symm⟩
        · exact ⟨s, .skip hs (Or.inr (Or.inr ⟨Or.inr hop, h⟩)), (if_neg nofun).symm⟩
      · rename_i hgo
        obtain ⟨b, hbe⟩ := Option.ne_none_iff_exists'.mp (not_or.mp hgo).2
        obtain ⟨hland, -⟩ := onBeRecvCqe_spec (w := w) env hs hbe cqe
        rw [← hop] at hland
        exact ⟨_, landed_dispatched env hs (Or.inr hop) hland, (if_neg nofun).symm⟩

/-! ### Closed connections -/

/-- A connection that was closed is free; connection `x` is exempt. -/
def Server.Finished (x : Option Slot) (s : Server) : Prop :=
  ∀ j, some j ≠ x → .closed ∈ (s.conns j).log → (s.conns j).state = .free

theorem Grows.closed_iff {c c' : Cell} (h : Grows w c c') :
    .closed ∈ c'.conn.log ↔ .closed ∈ c.conn.log := by
  obtain ⟨l, hl, hfits⟩ := h.log
  rw [hl, List.mem_append]
  exact or_iff_left hfits.closed

section

variable {x : Option Slot}

/-- Only connection `i` changes. -/
theorem Server.Finished.frame (h : s.Finished x) (hframe : Frame w i s t)
    (hi : some i ≠ x → .closed ∈ (t.conns i).log → (t.conns i).state = .free) : t.Finished x := by
  intro j hj
  by_cases hji : j = i
  · rw [hji] at hj ⊢
    exact hi hj
  · rw [hframe.others j hji]
    exact h j hj

/-- The connection goes on from `c`. -/
theorem Server.Finished.grows (h : s.Finished x) (hframe : Frame w i s t) {c : Cell}
    (hgrows : Grows w c (t.cell i)) (hstate : c.conn.state = (s.conns i).state)
    (hlog : c.conn.log = (s.conns i).log) : t.Finished x := by
  refine h.frame hframe fun hi hclosed => hgrows.keeps.free.mpr ?_
  rw [hstate]
  exact h i hi (hlog ▸ hgrows.closed_iff.mp hclosed)

theorem Server.Finished.path (h : s.Finished x) (hpath : Turns w s t) : t.Finished x := by
  induction hpath with
  | refl => exact h
  | tail _ hturn ih =>
      obtain ⟨i, hturn⟩ := hturn
      exact ih.grows hturn.toFrame hturn.act.grows rfl rfl

theorem Server.Finished.ended (h : s.Finished none) (hend : Ended w i s t) : t.Finished none := by
  obtain ⟨hlive, habandon, hpath, -, hclose⟩ := hend
  have hexempt : s.Finished (some i) := fun j _ => h j nofun
  have hbefore := (hexempt.frame habandon.toFrame fun hi => absurd rfl hi).path hpath
  intro j _
  by_cases hj : j = i
  · rw [hj, hclose.conn]
    exact fun _ => rfl
  · rw [hclose.others j hj]
    exact hbefore j fun heq => hj (Option.some.inj heq)

theorem Server.Finished.moves (h : s.Finished none) (hmoves : Moves w s t) : t.Finished none := by
  induction hmoves with
  | refl => exact h
  | tail _ hturn ih =>
      obtain ⟨i, hturn | hend⟩ := hturn
      · exact ih.grows hturn.toFrame hturn.act.grows rfl rfl
      · exact ih.ended hend

theorem Server.Finished.updConn (h : s.Finished none) {f : Conn → Conn}
    (hstate : (f (s.conns i)).state = (s.conns i).state) (hlog : (f (s.conns i)).log = (s.conns i).log) :
    (s.updConn i f).Finished none := by
  intro j hj
  by_cases hji : j = i
  · rw [hji, conns_updConn, hstate, hlog]
    exact h i nofun
  · rw [(Beside.updConn (i := i) s f).others j hji]
    exact h j hj

theorem Server.Finished.opens {r : Request} (h : s.Finished none) (hopens : Opens w r s t) :
    t.Finished none := by
  cases hopens with
  | skip => exact h
  | accept hop haccept =>
      refine h.frame haccept.toFrame fun _ hclosed => ?_
      obtain ⟨fd, hadmits⟩ := haccept.conn
      generalize t.conns _ = c at hadmits hclosed
      cases hadmits <;> cases hclosed
  | recv => exact h.updConn rfl rfl
  | send n =>
      have hclear : (s.updConn r.slot fun c => { c with sendPending := false }).Finished none :=
        h.updConn rfl rfl
      generalize s.updConn r.slot (fun c => { c with sendPending := false }) = u at hclear ⊢
      have hext := ext_io (w := w) (advanceSend_io n (u.cell r.slot)).1
      intro j hj
      by_cases hji : j = r.slot
      · rw [hji, conns_onCell]
        exact fun hclosed => hext.keeps.free.mpr (hclear r.slot nofun (hext.closed_iff.mp hclosed))
      · rw [(Beside.onCell (i := r.slot) u fun c => (advanceSend n c, true)).others j hji]
        exact hclear j hj
  | sendCut hop hlive hend => exact (h.updConn rfl rfl : Server.Finished none _).ended hend
  | poll => exact h.updConn rfl rfl
  | land _ hland _ hpath =>
      obtain ⟨hstate, -, -, hlog, -⟩ := landed_fields (s.conns r.slot) r.op
      exact (h.grows hland.toFrame hland.land.grows hstate hlog).path hpath
  | landCut _ hland hend =>
      obtain ⟨hstate, -, -, hlog, -⟩ := landed_fields (s.conns r.slot) r.op
      exact (h.grows hland.toFrame hland.land.grows hstate hlog).ended hend

end

/-- The server between two iterations of the loop. -/
structure Server.Ready (s : Server) : Prop where
  good : s.Good none
  sq : s.sq = []
  finished : s.Finished none

theorem submitAccept_cases (s : Server) :
    submitAccept s = { s with sq := s.sq ++ [acceptRequest] } ∨ submitAccept s = s := by
  unfold submitAccept
  split
  · exact Or.inl rfl
  · exact Or.inr rfl

theorem Server.Good.submitAccept (hs : s.Good none) : (submitAccept s).Good none := by
  rcases submitAccept_cases s with h | h
  · rw [h]
    refine ⟨⟨⟨⟨hs.held, hs.unique⟩, hs.wf, hs.tidy, hs.unprobed⟩, hs.rested, hs.undrained⟩,
      ⟨hs.mode.tls, hs.mode.plain, fun htls r hr => ?_⟩, hs.admitted, hs.polled⟩
    rcases hr with hr | hr
    · exact hs.mode.requests htls r (Or.inl hr)
    · rcases List.mem_append.mp hr with hr | hr
      · exact hs.mode.requests htls r (Or.inr hr)
      · rw [List.mem_singleton.mp hr]
        exact ⟨nofun, nofun⟩
  · rw [h]
    exact hs

theorem Server.Good.submitAll (hs : s.Good none) (hfinished : s.Finished none) :
    (submitAll s).Ready := by
  refine ⟨⟨⟨⟨⟨hs.held, hs.unique⟩, hs.wf, hs.tidy, hs.unprobed⟩, hs.rested, hs.undrained⟩,
    ⟨hs.mode.tls, hs.mode.plain, fun htls r hr => ?_⟩, hs.admitted, hs.polled⟩, rfl, hfinished⟩
  rcases hr with hr | hr
  · exact hs.mode.requests htls r (List.mem_append.mp hr)
  · cases hr

/-- An iteration that ends with a completion: maintenance, the dispatch, and the submission. -/
theorem step_complete (hs : s.Ready) {now k : Nat} {cqe : Cqe} {r : Request}
    (hr : s.inflight[k]? = some r) :
    ∃ u, Dispatched w r (serverTick env { s with inflight := s.inflight.eraseIdx k } now) u ∧
      step w env s (.complete now k cqe) =
        submitAll (if r.op = .accept then submitAccept u else u) := by
  have herase : ({ s with inflight := s.inflight.eraseIdx k } : Server).Good none :=
    hs.good.erase fun x hx => List.mem_of_mem_eraseIdx hx
  obtain ⟨htick, -, -, -, hgood⟩ := serverTick_spec env w r.slot herase now
  have hplain : r.op = .recv ∨ r.op = .send →
      (serverTick env { s with inflight := s.inflight.eraseIdx k } now).tls = false := by
    intro hop
    rw [htick.tls]
    exact hs.good.mode.plain_of (List.mem_of_getElem? hr) hop
  obtain ⟨u, hdispatch, heq⟩ := dispatchTo_spec (w := w) env hgood hplain cqe
  refine ⟨u, hdispatch, ?_⟩
  rw [← heq]
  unfold step dispatch
  dsimp only
  rw [hr]
  rfl

theorem step_ready (hs : s.Ready) (input : Input) : (step w env s input).Ready := by
  cases input with
  | timeout now =>
      obtain ⟨-, hconns, hsq, -, hgood⟩ := serverTick_spec env w ⟨0, by decide⟩ hs.good now
      exact ⟨hgood, hsq.trans hs.sq, fun j => hconns ▸ hs.finished j⟩
  | complete now k cqe =>
      cases hr : s.inflight[k]? with
      | none =>
          unfold step dispatch
          dsimp only
          rw [hr]
          exact hs.good.submitAll hs.finished
      | some r =>
          obtain ⟨u, hdispatch, heq⟩ := (step_complete env hs hr : ∃ u, Dispatched w r
            (serverTick env { s with inflight := s.inflight.eraseIdx k } now) u ∧
              step w env s (.complete now k cqe) =
                submitAll (if r.op = .accept then submitAccept u else u))
          obtain ⟨t, hopens, hmoves⟩ := hdispatch.moves
          have htick : (serverTick env { s with inflight := s.inflight.eraseIdx k } now).conns =
              s.conns := by
            have herase : ({ s with inflight := s.inflight.eraseIdx k } : Server).Good none :=
              hs.good.erase fun x hx => List.mem_of_mem_eraseIdx hx
            exact (serverTick_spec env w ⟨0, by decide⟩ herase now).2.1
          have hfinished : u.Finished none := by
            refine Server.Finished.moves (Server.Finished.opens ?_ hopens) hmoves
            unfold Server.Finished
            rw [htick]
            exact hs.finished
          rw [heq]
          split
          · refine hdispatch.good.submitAccept.submitAll ?_
            rcases submitAccept_cases u with h | h
            · rw [h]
              exact hfinished
            · rw [h]
              exact hfinished
          · exact hdispatch.good.submitAll hfinished

theorem start_ready (cfg : Config) (nonblock : Bool) (now : Nat) :
    (start env cfg nonblock now).Ready := by
  unfold start
  generalize hp : (if cfg.backendHost = [] then none else poolCreate env cfg.backend) = p
  have hnew : ∀ q, p = some q → q.Wf ∧ q.cfg.healthCheckOnCheckout = false := by
    intro q hq
    rw [hq] at hp
    split at hp
    · cases hp
    · refine ⟨(poolCreate_unused hp).wf, ?_⟩
      rw [(poolCreate_silent env hp).1]
      rfl
  have hpool : ∀ q, (if nonblock then p.map poolSetNonblock else p) = some q →
      q.Wf ∧ q.cfg.healthCheckOnCheckout = false := by
    intro q hq
    split at hq
    · obtain ⟨x, hx, rfl⟩ := Option.map_eq_some_iff.mp hq
      exact ⟨setNonblock_wf (hnew x hx).1, (hnew x hx).2⟩
    · exact hnew q hq
  dsimp only
  refine (Server.Good.submitAccept ⟨⟨⟨⟨?_, ?_⟩, fun q hq => (hpool q hq).1, ?_,
    fun q hq => (hpool q hq).2⟩, ?_, fun _ => rfl⟩, ⟨?_, ?_, ?_⟩, ?_, ?_⟩).submitAll ?_
  · exact fun i b hb => nomatch hb
  · exact fun i j b hb => nomatch hb
  · exact fun i _ => ⟨rfl, rfl, rfl⟩
  · exact fun i => Or.inr (Or.inl rfl)
  · exact fun _ j hlive => absurd rfl hlive
  · exact fun _ j => ⟨nofun, rfl⟩
  · exact fun _ r hr => hr.elim nofun nofun
  · exact fun j _ hopen => absurd rfl hopen.1
  · exact fun j _ hlive => absurd rfl hlive
  · exact fun j _ hclosed => nomatch hclosed

/-- Every state between two iterations is in order. -/
theorem run_ready (cfg : Config) (nonblock : Bool) (now : Nat) (inputs : List Input) :
    (Runs.run (step w env) (start env cfg nonblock now) inputs).Ready := by
  have hstart := start_ready env cfg nonblock now
  generalize start env cfg nonblock now = s at hstart
  induction inputs generalizing s with
  | nil => exact hstart
  | cons input inputs ih => exact ih _ (step_ready env hstart input)

end
