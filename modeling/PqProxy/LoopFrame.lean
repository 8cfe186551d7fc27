import PqProxy.LoopHistory

/-! The frames of the changes that the functions of the event loop are made of: to a connection
alone, and to the backends through one call of the pool. -/

/-- A connection that is free or in its handshake has nothing to do with backends. -/
def Conn.Tidy (c : Conn) : Prop := ¬ c.Open → c.beWait = .idle ∧ c.feQ.toList = [] ∧ c.be = none

/-- What the connections and the pool have to agree on. -/
structure Server.Sound (s : Server) : Prop extends Owned s where
  wf : s.Wf
  tidy : ∀ i, (s.conns i).Tidy
  unprobed : ∀ p, s.pool = some p → p.cfg.healthCheckOnCheckout = false

/-- `t` differs from `s` in connection `i` and the submission queue, and in the place of the
connection among those that wait. -/
structure Beside (i : Slot) (s t : Server) : Prop where
  others : ∀ j, j ≠ i → t.conns j = s.conns j
  waiters : ∀ j, j ≠ i → (j ∈ t.waiters.slots ↔ j ∈ s.waiters.slots)
  rest : (t.cfg, t.tls, t.pool, t.asyncBackend, t.fairSchedule, t.inflight, t.sends, t.writes, t.stuck) =
    (s.cfg, s.tls, s.pool, s.asyncBackend, s.fairSchedule, s.inflight, s.sends, s.writes, s.stuck)

namespace Beside

variable {i : Slot} {s t u : Server}

theorem refl (s : Server) : Beside i s s := ⟨fun _ _ => rfl, fun _ _ => Iff.rfl, rfl⟩

theorem trans (h : Beside i s t) (k : Beside i t u) : Beside i s u :=
  ⟨fun j hj => (k.others j hj).trans (h.others j hj),
    fun j hj => (k.waiters j hj).trans (h.waiters j hj), k.rest.trans h.rest⟩

theorem setConn (s : Server) (c : Conn) : Beside i s (s.setConn i c) :=
  ⟨fun _ hj => Function.update_of_ne hj .., fun _ _ => Iff.rfl, rfl⟩

theorem updConn (s : Server) (f : Conn → Conn) : Beside i s (s.updConn i f) := setConn s _

theorem onConn (s : Server) (f : Conn → Conn × Bool) : Beside i s (s.onConn i f).1 := setConn s _

theorem onCell (s : Server) (f : Cell → Cell × Bool) : Beside i s (s.onCell i f).1 :=
  ⟨fun _ hj => Function.update_of_ne hj .., fun _ _ => Iff.rfl, rfl⟩

theorem pool (h : Beside i s t) : t.pool = s.pool := by
  have := h.rest
  simp only [Prod.mk.injEq] at this
  exact this.2.2.1

theorem backends (h : Beside i s t) (b : Nat) : t.backends b = s.backends b := by
  rw [Server.backends, Server.backends, h.pool]

theorem cfg (h : Beside i s t) : t.cfg = s.cfg := congrArg Prod.fst h.rest

end Beside

/-- A frame whose backends are busy for connection `i` or as before. -/
structure Local (w : Pqwire) (i : Slot) (s t : Server) : Prop extends Frame w i s t where
  busy : Busies i s t

theorem Local.trans {w : Pqwire} {i : Slot} {s t u : Server} (h : Local w i s t) (k : Local w i t u) :
    Local w i s u := ⟨h.toFrame.trans k.toFrame, h.busy.trans k.busy⟩

section

variable {w : Pqwire} {i : Slot} {s t : Server}

/-- The faithfulness of what was written depends on the configuration and the pool alone. -/
theorem Server.Faithful.congr (hcfg : t.cfg = s.cfg) (hpool : t.pool = s.pool)
    (hwrites : t.writes = s.writes) (h : s.Faithful w) : t.Faithful w := by
  unfold Server.Faithful Server.written at h ⊢
  rwa [hcfg, hpool, hwrites]

theorem Beside.frame (h : Beside i s t)
    (howned : ∀ b, (t.conns i).be = some b →
      (s.backends b).Held ∧ ((s.conns i).be = some b ∨ ¬ (s.backends b).Held)) : Frame w i s t := by
  obtain ⟨hothers, hwaiters, hrest⟩ := h
  simp only [Prod.mk.injEq] at hrest
  obtain ⟨hcfg, htls, hpool, hasync, hfair, hinflight, hsends, hwrites, hstuck⟩ := hrest
  have hback : ∀ b, t.backends b = s.backends b := fun b => by
    rw [Server.backends, Server.backends, hpool]
  exact ⟨hothers, fun b _ _ => hback b, fun b hbe => hback b ▸ howned b hbe, hwaiters,
    fun hwf p hp => hwf p (hpool ▸ hp), hcfg, htls, by rw [hpool], hasync, hfair, hinflight, hsends,
    hstuck, fun _ => Server.Faithful.congr hcfg hpool hwrites⟩

/-- Only the connection changes, and it keeps its backend. -/
theorem Beside.local (h : Beside i s t) (hown : Owned s) (hbe : (t.conns i).be = (s.conns i).be) :
    Local w i s t := by
  refine ⟨h.frame fun b hb => ?_, fun b hb => ?_⟩
  · rw [hbe] at hb
    exact ⟨hown.held i b hb, Or.inl hb⟩
  · rw [h.backends] at hb
    by_cases hheld : (s.conns i).be = some b
    · exact Or.inl (hbe.trans hheld)
    · exact Or.inr ⟨hb, hheld⟩

/-- What a call may write for a connection. -/
def WritesWhole (w : Pqwire) (s : Server) (i : Slot) (p p' : Pool) : Prop :=
  w.ReplacesSlot → s.cfg.rejectSimpleQuery = true → p.cfg.healthCheckOnCheckout = false →
    p'.written = p.written ∨
      ∃ data, p'.written = p.written ++ [data] ∧ Written.Whole w ⟨s.conns i, data⟩

theorem faithful_afterCall {p p' : Pool} (hpool : s.pool = some p) (hsetup : p'.setup = p.setup)
    (hwrites : WritesWhole w s i p p') (hw : w.ReplacesSlot) (h : s.Faithful w) :
    (s.afterCall i p').Faithful w := by
  intro hreject hoff
  have hoffp : p.cfg.healthCheckOnCheckout = false := by
    rw [← Pool.cfg_eq hsetup]
    exact hoff p' rfl
  obtain ⟨hsame, hall⟩ := h hreject fun q hq => by
    rw [hpool] at hq
    exact Option.some.inj hq ▸ hoffp
  have hwritten : s.written = p.written := by rw [Server.written, hpool]
  change p'.written = (s.writes ++ (p'.written.drop s.written.length).map _).map Written.data ∧
    ∀ x ∈ s.writes ++ (p'.written.drop s.written.length).map _, x.Whole w
  rw [hwritten] at hsame ⊢
  rcases hwrites hw hreject hoffp with hnone | ⟨data, hdata, hwhole⟩
  · rw [hnone, List.drop_length, List.map_nil, List.append_nil]
    exact ⟨hsame, hall⟩
  · rw [hdata, List.drop_left, List.map_append, ← hsame]
    refine ⟨rfl, fun x hx => ?_⟩
    rcases List.mem_append.mp hx with hx | hx
    · exact hall x hx
    · rw [List.map_singleton, List.mem_singleton] at hx
      rw [hx]
      exact hwhole

/-- A call on the pool that leaves the connection without a new backend. -/
theorem local_call (hown : Owned s) {p p' : Pool} (hpool : s.pool = some p) (hcall : Call p p' none)
    (hwrites : WritesWhole w s i p p') : Local w i s (s.afterCall i p') := by
  have hback : ∀ b, s.backends b = p.conns b := fun b => by rw [Server.backends, hpool]
  have hsame : ∀ b, (s.backends b).Held → p'.conns b = s.backends b := fun b hb => by
    rw [hback] at hb ⊢
    exact hcall.held b hb
  refine ⟨⟨fun _ _ => rfl, fun b hb _ => hsame b hb, fun b hbe => ?_, fun _ _ => Iff.rfl, ?_, rfl,
    rfl, ?_, rfl, rfl, rfl, rfl, rfl, fun hw => faithful_afterCall hpool hcall.setup hwrites hw⟩,
    fun b hb => ?_⟩
  · have hheld := hown.held i b hbe
    refine ⟨?_, Or.inl hbe⟩
    rw [show (s.afterCall i p').backends b = s.backends b from hsame b hheld]
    exact hheld
  · rintro hwf q ⟨⟩
    exact hcall.wf (hwf p hpool)
  · rw [hpool]
    exact congrArg some hcall.setup
  · by_cases hbe : (s.conns i).be = some b
    · exact Or.inl hbe
    · rcases hcall.busy b hb with h | h
      · cases h
      · exact Or.inr ⟨hback b ▸ h, hbe⟩

/-- The backend that the connection holds is left alone by such a call. -/
theorem held_call (hown : Owned s) {p p' : Pool} (hpool : s.pool = some p) (hcall : Call p p' none) :
    (s.afterCall i p').held i = s.held i := by
  have hconn : (s.afterCall i p').conns i = s.conns i := rfl
  unfold Server.held
  rw [hconn]
  cases hbe : (s.conns i).be with
  | none => rfl
  | some b =>
      have hback : s.backends b = p.conns b := by rw [Server.backends, hpool]
      have hheld := hown.held i b hbe
      rw [hback] at hheld
      exact (hcall.held b hheld).trans hback.symm

/-- A call that hands out backend `b` to the connection. -/
theorem frame_begin {p p' : Pool} {b : Nat} (hpool : s.pool = some p) (hcall : Call p p' (some b))
    (hheld : (p'.conns b).Held ∧ ¬ (p.conns b).Held) (hwrites : WritesWhole w s i p p')
    (h : Beside i (s.afterCall i p') t) (hbe : (t.conns i).be = some b) :
    Frame w i s t ∧ ((s.conns i).be = none → Busies i s t) := by
  have hback : ∀ b, s.backends b = p.conns b := fun b => by rw [Server.backends, hpool]
  have hback' : ∀ b, t.backends b = p'.conns b := h.backends
  obtain ⟨hothers, hwaiters, hrest⟩ := h
  simp only [Prod.mk.injEq] at hrest
  obtain ⟨hcfg, htls, hpool', hasync, hfair, hinflight, hsends, hwr, hstuck⟩ := hrest
  refine ⟨⟨hothers, fun a ha _ => ?_, fun a ha => ?_, hwaiters, ?_, hcfg, htls, ?_, hasync, hfair,
    hinflight, hsends, hstuck, fun hw hs => ?_⟩, fun hnone a ha => ?_⟩
  · rw [hback] at ha
    rw [hback, hback']
    exact hcall.held a ha
  · rw [hbe] at ha
    cases ha
    rw [hback, hback']
    exact ⟨hheld.1, Or.inr hheld.2⟩
  · intro hwf q hq
    rw [hpool'] at hq
    cases hq
    exact hcall.wf (hwf p hpool)
  · rw [hpool', hpool]
    exact congrArg some hcall.setup
  · exact (faithful_afterCall hpool hcall.setup hwrites hw hs).congr hcfg hpool' hwr
  · rw [hback'] at ha
    rcases hcall.busy a ha with h | h
    · exact Or.inl (hbe.trans h)
    · exact Or.inr ⟨hback a ▸ h, fun heq => absurd (heq.symm.trans hnone) nofun⟩

/-- A held backend belongs to a pool. -/
theorem Owned.pool (hown : Owned s) {b : Nat} (hbe : (s.conns i).be = some b) :
    ∃ p, s.pool = some p ∧ s.backends b = p.conns b := by
  cases hp : s.pool with
  | none =>
      have hheld := hown.held i b hbe
      rw [Server.backends, hp] at hheld
      cases hheld.1
  | some p => exact ⟨p, rfl, by rw [Server.backends, hp]⟩

/-- The connection gives its backend up. -/
theorem local_finish (env : Env) (hs : s.Sound) (failed : Bool)
    (h : Beside i (finishBackend env s i failed) t) (hnone : (t.conns i).be = none) :
    Local w i s t := by
  unfold finishBackend at h
  cases hbe : (s.conns i).be with
  | none =>
      rw [hbe] at h
      exact h.local hs.toOwned (hnone.trans hbe.symm)
  | some b =>
      rw [hbe] at h
      dsimp only at h
      obtain ⟨p, hpool, hback⟩ := hs.toOwned.pool hbe
      obtain ⟨hsilent, hbusy⟩ := asyncFinish_call env p (b := b) failed
      have hlt : b < p.maxConns := (hs.wf p hpool).lt_of_alive (by
        have hheld := hs.toOwned.held i b hbe
        rw [hback] at hheld
        exact hheld.2)
      have htouch := touches_asyncFinish env p hlt failed
      have hpool' : (s.updPool fun p => asyncFinish env p b failed).pool =
          some (asyncFinish env p b failed) := by
        rw [Server.updPool, hpool]
        rfl
      have hconns : ∀ a, t.backends a = (asyncFinish env p b failed).conns a := fun a => by
        rw [h.backends, Server.backends, hpool']
      have hconns' : ∀ a, s.backends a = p.conns a := fun a => by rw [Server.backends, hpool]
      obtain ⟨hothers, hwaiters, hrest⟩ := h
      simp only [Prod.mk.injEq] at hrest
      obtain ⟨hcfg, htls, hpt, hasync, hfair, hinflight, hsends, hwr, hstuck⟩ := hrest
      rw [hpool'] at hpt
      refine ⟨⟨hothers, fun a _ hne => ?_, fun a ha => ?_, hwaiters, ?_, hcfg, htls, ?_, hasync,
        hfair, hinflight, hsends, hstuck, fun _ hs => ?_⟩, fun a ha => ?_⟩
      · rw [hconns, hconns']
        exact htouch.others a fun hab => hne (by rw [hbe, hab])
      · rw [hnone] at ha
        cases ha
      · intro hwf q hq
        rw [hpt] at hq
        cases hq
        exact htouch.wf (hwf p hpool)
      · rw [hpt, hpool]
        exact congrArg some hsilent.setup
      · intro hreject hoff
        rw [hcfg] at hreject
        obtain ⟨hsame, hall⟩ := hs hreject fun q hq => by
          rw [hpool] at hq
          cases hq
          rw [← Pool.cfg_eq hsilent.setup]
          exact hoff _ hpt
        have hoffp : p.cfg.healthCheckOnCheckout = false := by
          rw [← Pool.cfg_eq hsilent.setup]
          exact hoff _ hpt
        have hwritten : t.written = s.written := by
          rw [Server.written, Server.written, hpt, hpool]
          exact hsilent.written hoffp
        rw [hwritten, show t.writes = s.writes from hwr]
        exact ⟨hsame, hall⟩
      · rw [hconns] at ha
        obtain ⟨hbusy', hne⟩ := hbusy a ha
        refine Or.inr ⟨hconns' a ▸ hbusy', fun heq => hne ?_⟩
        rw [hbe] at heq
        exact (Option.some.inj heq).symm

/-- The backend of the connection changes, but not its descriptor. -/
theorem local_backend (hs : s.Sound) {b : Nat} (hbe : (s.conns i).be = some b) {c : BackendConn}
    (hfd : c.fd = (s.backends b).fd) (halive : c.alive = (s.backends b).alive)
    (hbusy : c.busy = (s.backends b).busy)
    (h : Beside i (s.updPool fun p => p.setConn b c) t) (hsame : (t.conns i).be = some b) :
    Local w i s t := by
  obtain ⟨p, hpool, hback⟩ := hs.toOwned.pool hbe
  rw [hback] at hfd halive hbusy
  have htouch : Touches b p (p.setConn b c) := touches_same hfd halive
  have hpool' : (s.updPool fun p => p.setConn b c).pool = some (p.setConn b c) := by
    rw [Server.updPool, hpool]
    rfl
  have hconns : ∀ a, t.backends a = (p.setConn b c).conns a := fun a => by
    rw [h.backends, Server.backends, hpool']
  have hconns' : ∀ a, s.backends a = p.conns a := fun a => by rw [Server.backends, hpool]
  obtain ⟨hothers, hwaiters, hrest⟩ := h
  simp only [Prod.mk.injEq] at hrest
  obtain ⟨hcfg, htls, hpt, hasync, hfair, hinflight, hsends, hwr, hstuck⟩ := hrest
  rw [hpool'] at hpt
  have hheld := hs.toOwned.held i b hbe
  rw [hback] at hheld
  refine ⟨⟨hothers, fun a _ hne => ?_, fun a ha => ?_, hwaiters, ?_, hcfg, htls, ?_, hasync,
    hfair, hinflight, hsends, hstuck, fun _ hf => ?_⟩, fun a ha => ?_⟩
  · rw [hconns, hconns']
    exact htouch.others a fun hab => hne (by rw [hbe, hab])
  · rw [hsame] at ha
    cases ha
    rw [hconns, Pool.setConn_self]
    exact ⟨⟨hbusy.trans hheld.1, halive.trans hheld.2⟩, Or.inl hbe⟩
  · intro hwf q hq
    rw [hpt] at hq
    cases hq
    exact htouch.wf (hwf p hpool)
  · rw [hpt, hpool]
    rfl
  · unfold Server.Faithful Server.written at hf ⊢
    rw [hcfg, hpt, show t.writes = s.writes from hwr]
    rw [hpool] at hf
    intro hreject hoff
    exact hf hreject fun q hq => by
      cases hq
      exact hoff (p.setConn b c) rfl
  · rw [hconns] at ha
    by_cases hab : a = b
    · rw [hab]
      exact Or.inl hsame
    · rw [Pool.setConn_of_ne _ hab] at ha
      refine Or.inr ⟨hconns' a ▸ ha, fun heq => hab ?_⟩
      rw [hbe] at heq
      exact (Option.some.inj heq).symm

/-! ### What stays sound -/

theorem BindArrives.logged {c c₁ : Cell} {src : BindSource} (h : BindArrives w c src c₁) :
    src.Logged c₁.conn.log := by
  cases h with
  | direct =>
      refine ⟨c.conn.beWait, List.mem_append_left _ ?_⟩
      exact List.mem_append_right _ List.mem_cons_self
  | popped _ hpop =>
      obtain ⟨q, -, rfl⟩ := feqPop_some hpop
      exact List.mem_append_left _ (List.mem_append_right _ List.mem_cons_self)
  | again _ _ hlogged => exact hlogged

theorem feqPop_ne_nil {c c' : Conn} {it : FeqItem} (h : feqPop c = some (c', it)) :
    c.feQ.toList ≠ [] := by
  obtain ⟨q, hq, -⟩ := feqPop_some h
  rw [hq]
  exact nofun

/-- Only a connection that is open has requests in its queue. -/
theorem Conn.Tidy.open {c : Conn} (h : c.Tidy) (hqueue : c.feQ.toList ≠ []) : c.Open :=
  Classical.not_not.mp fun hnot => hqueue (h hnot).2.1

theorem Arrives.open {c c₁ : Cell} {it : FeqItem} (h : Arrives c it c₁) (ht : c.conn.Tidy) :
    c.conn.Open := by
  cases h with
  | direct _ hopen => exact hopen
  | popped _ hpop => exact ht.open (feqPop_ne_nil hpop)

theorem BindArrives.open {c c₁ : Cell} {src : BindSource} (h : BindArrives w c src c₁)
    (ht : c.conn.Tidy) : c.conn.Open := by
  cases h with
  | direct hopen => exact hopen
  | popped _ hpop => exact ht.open (feqPop_ne_nil hpop)
  | again hopen => exact hopen

theorem handshake_active (cfg : Config) (peer : Peer) (c : Conn) :
    (tlsOnHandshakeDone cfg peer c).1.state = .active := by
  unfold tlsOnHandshakeDone
  dsimp only
  split <;> rfl

/-- A turn of a connection that is not open leaves it without work. -/
theorem Act.tidy {cfg : Config} {hasPool : Bool} {c c' : Cell} {h h' : BackendConn}
    (ha : Act w cfg hasPool c h c' h') (ht : c.conn.Tidy) : c'.conn.Tidy := by
  by_cases hopen : c.conn.Open
  · exact fun hnot => absurd (ha.grows.keeps.open hopen) hnot
  · obtain ⟨hwait, hqueue, hbe⟩ := ht hopen
    intro hnot
    cases ha with
    | io hio =>
        rw [hio.conn]
        exact ⟨hwait, hqueue, hbe⟩
    | feed hopen' => exact absurd hopen' hopen
    | startup hopen' => exact absurd hopen' hopen
    | ignore => exact ⟨hwait, hqueue, hbe⟩
    | terminate hopen' => exact absurd hopen' hopen
    | enqueue hbusy => exact absurd hwait hbusy
    | answer harrive => exact absurd (harrive.open ht) hopen
    | begin harrive => exact absurd (harrive.open ht) hopen
    | park harrive => exact absurd (harrive.open ht) hopen
    | bind harrive => exact absurd (harrive.open ht) hopen
    | lost harrive => exact absurd (harrive.open ht) hopen
    | lostCut harrive => exact absurd (harrive.open ht) hopen
    | draining => exact ⟨hwait, hqueue, hbe⟩
    | unpark hpool => exact absurd (hwait.symm.trans hpool) nofun
    | repark _ hne => exact absurd hqueue hne
    | handshake peer =>
        refine absurd ⟨?_, ?_⟩ hnot
        · exact fun hfree => nomatch (handshake_active cfg peer c.conn).symm.trans hfree
        · exact fun hhs => nomatch (handshake_active cfg peer c.conn).symm.trans hhs
    | closing hopen' => exact absurd hopen' hopen

theorem Land.open {op : Op} {c c' : Cell} {h h' : BackendConn} (hl : Land w op c h c' h')
    (ht : c.conn.Tidy) : c.conn.Open := by
  have hbe : c.conn.be ≠ none := by
    cases hl <;> assumption
  exact Classical.not_not.mp fun hnot => hbe (ht hnot).2.2

theorem keeps_landed (c : Conn) (op : Op) : Keeps c (c.landed op) := by
  cases op <;> exact .of_lasting rfl

theorem Land.keeps {op : Op} {c c' : Cell} {h h' : BackendConn} (hl : Land w op c h c' h') :
    Keeps c.conn c'.conn := (keeps_landed c.conn op).trans hl.grows.keeps

namespace Server.Sound

theorem frame (hs : s.Sound) (h : Frame w i s t) (ht : (t.conns i).Tidy) : t.Sound where
  toOwned := hs.toOwned.frame h
  wf := h.wf hs.wf
  tidy := by
    intro j
    by_cases hj : j = i
    · rw [hj]
      exact ht
    · rw [h.others j hj]
      exact hs.tidy j
  unprobed := by
    intro q hq
    have hsetup := h.setup
    rw [hq] at hsetup
    cases hp : s.pool with
    | none =>
        rw [hp] at hsetup
        cases hsetup
    | some p =>
        rw [hp] at hsetup
        rw [Pool.cfg_eq (Option.some.inj hsetup)]
        exact hs.unprobed p hp

theorem act (hs : s.Sound) (h : ActTurn w i s t) : t.Sound := hs.frame h.toFrame (h.act.tidy (hs.tidy i))

theorem path (hs : s.Sound) (h : Turns w s t) : t.Sound := by
  induction h with
  | refl => exact hs
  | tail _ hturn ih =>
      obtain ⟨i, hturn⟩ := hturn
      exact ih.act hturn

theorem land {op : Op} (hs : s.Sound) (h : LandTurn w op i s t) : t.Sound :=
  hs.frame h.toFrame fun hnot => absurd (h.land.keeps.open (h.land.open (hs.tidy i))) hnot

end Server.Sound

end
