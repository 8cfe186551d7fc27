import PqProxy.LoopFrame
import Mathlib

/-! Every function of the event loop is a sequence of turns. Between the calls of the dispatch, an
idle connection has nothing in its queue; the functions keep that of the connections they are not
called for, and restore it for their own. -/

section

variable {w : Pqwire} {i : Slot} {s t u : Server}

@[simp] theorem cell_updConn (s : Server) (i : Slot) (f : Conn → Conn) :
    (s.updConn i f).cell i = (s.cell i).upd f := by
  simp [Server.cell, Server.updConn, Server.setConn, Cell.upd]

@[simp] theorem cell_onConn (s : Server) (i : Slot) (f : Conn → Conn × Bool) :
    (s.onConn i f).1.cell i = ((s.cell i).onConn f).1 := by
  simp [Server.cell, Server.onConn, Server.setConn, Cell.onConn]

theorem cell_onCell {f : Cell → Cell × Bool} (hslot : (f (s.cell i)).1.slot = i) :
    (s.onCell i f).1.cell i = (f (s.cell i)).1 := by
  change (⟨Function.update s.conns i (f (s.cell i)).1.conn i, i, (f (s.cell i)).1.sq⟩ : Cell) = _
  rw [Function.update_self]
  nth_rewrite 2 [← hslot]
  rfl

theorem Beside.held (h : Beside i s t) (hbe : (t.conns i).be = (s.conns i).be) :
    t.held i = s.held i := by
  unfold Server.held
  rw [hbe]
  cases (s.conns i).be with
  | none => rfl
  | some b => exact h.backends b

/-- A turn that does not concern the pool. -/
theorem Beside.turn (h : Beside i s t) (hown : Owned s) (hbe : (t.conns i).be = (s.conns i).be)
    (hwait : (t.conns i).beWait = .waitingPool → (s.conns i).beWait = .waitingPool)
    (hfree : (s.conns i).state = .free → t.sq = s.sq)
    (hring : t.waiters.slots = s.waiters.slots ∧
        ((s.conns i).beWait = .waitingPool → (t.conns i).beWait = .waitingPool) ∨
      s.waiters.slots = i :: t.waiters.slots ∧ (t.conns i).beWait ≠ .waitingPool)
    (hact : Act w s.cfg s.pool.isSome (s.cell i) (s.held i) (t.cell i) (s.held i)) :
    ActTurn w i s t := by
  have hlocal : Local w i s t := h.local hown hbe
  refine ⟨hlocal.toFrame, by rwa [h.held hbe], fun _ _ => hlocal.busy, hfree,
    hring.imp And.left Or.inl, fun hne hw => absurd (hwait hw) hne, fun hin hmem => ?_,
    fun hne hw => absurd (hwait hw) hne⟩
  rcases hring with ⟨hsame, hstays⟩ | ⟨hpopped, -⟩
  · exact hstays (hin (hsame ▸ hmem))
  · -- no slot is in the ring twice
    have hnodup : s.waiters.slots.Nodup := s.waiters.nodup
    rw [hpopped] at hnodup
    exact absurd hmem (List.nodup_cons.mp hnodup).1

theorem turn_updConn (hown : Owned s) {f : Conn → Conn} (hbe : (f (s.conns i)).be = (s.conns i).be)
    (hwait : (f (s.conns i)).beWait = .waitingPool ↔ (s.conns i).beWait = .waitingPool)
    (hact : Act w s.cfg s.pool.isSome (s.cell i) (s.held i) ((s.cell i).upd f) (s.held i)) :
    ActTurn w i s (s.updConn i f) := by
  have hself : (s.updConn i f).conns i = f (s.conns i) := Function.update_self ..
  exact (Beside.updConn s f).turn hown (by rw [hself, hbe]) (by rw [hself]; exact hwait.mp) (fun _ => rfl)
    (Or.inl ⟨rfl, by rw [hself]; exact hwait.mpr⟩) (by rwa [cell_updConn])

theorem turn_onConn (hown : Owned s) {f : Conn → Conn × Bool}
    (hbe : (f (s.conns i)).1.be = (s.conns i).be)
    (hwait : (f (s.conns i)).1.beWait = .waitingPool ↔ (s.conns i).beWait = .waitingPool)
    (hact : Act w s.cfg s.pool.isSome (s.cell i) (s.held i) ((s.cell i).onConn f).1 (s.held i)) :
    ActTurn w i s (s.onConn i f).1 := by
  have hself : (s.onConn i f).1.conns i = (f (s.conns i)).1 := Function.update_self ..
  exact (Beside.onConn s f).turn hown (by rw [hself, hbe]) (by rw [hself]; exact hwait.mp) (fun _ => rfl)
    (Or.inl ⟨rfl, by rw [hself]; exact hwait.mpr⟩) (by rwa [cell_onConn])

theorem conns_onCell (s : Server) (i : Slot) (f : Cell → Cell × Bool) :
    (s.onCell i f).1.conns i = (f (s.cell i)).1.conn := Function.update_self ..

theorem turn_onCell (hown : Owned s) (hlive : (s.conns i).state ≠ .free)
    {f : Cell → Cell × Bool} (hslot : (f (s.cell i)).1.slot = i)
    (hbe : (f (s.cell i)).1.conn.be = (s.conns i).be)
    (hwait : (f (s.cell i)).1.conn.beWait = .waitingPool ↔ (s.conns i).beWait = .waitingPool)
    (hact : Act w s.cfg s.pool.isSome (s.cell i) (s.held i) (f (s.cell i)).1 (s.held i)) :
    ActTurn w i s (s.onCell i f).1 :=
  (Beside.onCell s f).turn hown (by rw [conns_onCell, hbe]) (by rw [conns_onCell]; exact hwait.mp)
    (fun hfree => absurd hfree hlive) (Or.inl ⟨rfl, by rw [conns_onCell]; exact hwait.mpr⟩)
    (by rwa [cell_onCell hslot])

/-- The output side of a connection. -/
theorem turn_io (hown : Owned s) (hlive : (s.conns i).state ≠ .free) {f : Cell → Cell × Bool}
    (hio : Io [] (s.cell i) (f (s.cell i)).1) : ActTurn w i s (s.onCell i f).1 := by
  refine turn_onCell hown hlive hio.slot ?_ ?_ (.io hio)
  · rw [hio.conn]
    rfl
  · rw [hio.conn]
    exact Iff.rfl

/-! ### What stays in order -/

/-- Nothing waits that could be handled. -/
def Conn.Rested (c : Conn) : Prop := c.beWait ≠ .idle ∨ c.Quiet

/-- A connection whose queue is drained does not wait for a backend. -/
def Server.Calm (s : Server) : Prop :=
  ∀ j, (s.conns j).drainingQueue = true → (s.conns j).beWait ≠ .waitingPool

/-- How many connections have their queue drained. -/
def drainingCount (s : Server) : Nat :=
  (Finset.univ.filter fun j : Slot => (s.conns j).drainingQueue = true).card

/-- A sequence of turns after which every connection but the exempt one is rested if it was before;
the ones that do not wait are unchanged. -/
structure Kept (w : Pqwire) (x : Option Slot) (s s' : Server) : Prop where
  path : Turns w s s'
  rested : ∀ j, some j ≠ x → (s.conns j).Rested → (s'.conns j).Rested
  still : ∀ j, some j ≠ x → (s.conns j).beWait ≠ .waitingPool ∨ j ∉ s.waiters.slots →
    s'.conns j = s.conns j ∧ (j ∉ s.waiters.slots → j ∉ s'.waiters.slots)
  draining : ∀ j, (s'.conns j).drainingQueue = (s.conns j).drainingQueue

namespace Kept

variable {x : Option Slot}

theorem refl (s : Server) : Kept w x s s :=
  ⟨.refl, fun _ _ h => h, fun _ _ _ => ⟨rfl, id⟩, fun _ => rfl⟩

theorem trans (h : Kept w x s t) (k : Kept w x t u) : Kept w x s u where
  path := h.path.trans k.path
  rested := fun j hj => k.rested j hj ∘ h.rested j hj
  still := by
    intro j hj hstill
    obtain ⟨hconn, hring⟩ := h.still j hj hstill
    obtain ⟨hconn', hring'⟩ := k.still j hj (hstill.imp (fun hw => hconn ▸ hw) hring)
    exact ⟨hconn'.trans hconn, hring' ∘ hring⟩
  draining := fun j => (k.draining j).trans (h.draining j)

theorem exempt (h : Kept w none s t) (x : Option Slot) : Kept w x s t :=
  ⟨h.path, fun j _ => h.rested j (by simp), fun j _ => h.still j (by simp), h.draining⟩

theorem drainingCount_eq (h : Kept w x s t) : drainingCount t = drainingCount s := by
  unfold drainingCount
  congr 1
  ext j
  simp [h.draining j]

/-- A turn of the exempt connection. -/
theorem of_turn (h : ActTurn w i s t)
    (hdraining : (t.conns i).drainingQueue = (s.conns i).drainingQueue) : Kept w (some i) s t where
  path := .single ⟨i, h⟩
  rested := by
    intro j hj hrest
    rwa [h.others j fun heq => hj (by rw [heq])]
  still := by
    intro j hj _
    have hne : j ≠ i := fun heq => hj (by rw [heq])
    exact ⟨h.others j hne, fun hnot hmem => hnot ((h.waiters j hne).mp hmem)⟩
  draining := fun j => by
    by_cases hj : j = i
    · rw [hj, hdraining]
    · rw [h.others j hj]

/-- The exempt connection is rested in the end, and it was waiting at first. -/
theorem close (h : Kept w (some i) s t) (hrest : (s.conns i).Rested → (t.conns i).Rested)
    (hwait : (s.conns i).beWait = .waitingPool) (hring : i ∈ s.waiters.slots) : Kept w none s t where
  path := h.path
  rested := fun j _ => by
    by_cases hj : j = i
    · rw [hj]
      exact hrest
    · exact h.rested j fun heq => hj (Option.some.inj heq)
  still := by
    intro j _ hstill
    by_cases hj : j = i
    · rw [hj] at hstill
      rcases hstill with hne | hnot
      · exact absurd hwait hne
      · exact absurd hring hnot
    · exact h.still j (fun heq => hj (Option.some.inj heq)) hstill
  draining := h.draining

theorem calm (h : Kept w (some i) s t) (hs : s.Calm)
    (hi : (t.conns i).drainingQueue = true → (t.conns i).beWait ≠ .waitingPool) : t.Calm := by
  intro j hj
  by_cases hji : j = i
  · rw [hji] at hj ⊢
    exact hi hj
  · rw [h.draining j] at hj
    rw [(h.still j (fun heq => hji (Option.some.inj heq)) (Or.inl (hs j hj))).1]
    exact hs j hj

theorem calm_none (h : Kept w none s t) (hs : s.Calm) : t.Calm := by
  intro j hj
  rw [h.draining j] at hj
  rw [(h.still j (by simp) (Or.inl (hs j hj))).1]
  exact hs j hj

end Kept

/-- The histories grow along a path. -/
theorem Turns.keeps (h : Turns w s t) (j : Slot) :
    Keeps (s.conns j) (t.conns j) ∧ ∃ l, (t.conns j).log = (s.conns j).log ++ l := by
  induction h with
  | refl => exact ⟨.of_lasting rfl, [], (List.append_nil _).symm⟩
  | tail _ hturn ih =>
      obtain ⟨i, hturn⟩ := hturn
      obtain ⟨hkeeps, l, hl⟩ := ih
      by_cases hj : j = i
      · subst hj
        obtain ⟨m, hm, -⟩ := hturn.act.grows.log
        exact ⟨hkeeps.trans hturn.act.grows.keeps, l ++ m, by
          rw [← List.append_assoc, ← hl]
          exact hm⟩
      · rw [hturn.others j hj]
        exact ⟨hkeeps, l, hl⟩

theorem Turns.log_mem (h : Turns w s t) {j : Slot} {o : Obs} (ho : o ∈ (s.conns j).log) :
    o ∈ (t.conns j).log := by
  obtain ⟨-, l, hl⟩ := h.keeps j
  rw [hl]
  exact List.mem_append_left l ho

theorem Turns.upset (h : Turns w s t) {j : Slot} (hu : (s.conns j).Upset) : (t.conns j).Upset :=
  hu.imp h.log_mem h.log_mem

/-- The ring is a queue: who stood at its front is still there, or was taken up. -/
theorem Turns.fifo (h : Turns w s t) {A B : List Slot} (hring : s.waiters.slots = A ++ B) :
    ∃ A₁ A₂ B', A = A₁ ++ A₂ ∧ t.waiters.slots = A₂ ++ B' ∧
      ∀ k ∈ A₁, ∃ m, Turns w s m ∧ Turns w m t ∧ (m.conns k).beWait ≠ .waitingPool := by
  induction h with
  | refl => exact ⟨[], A, B, rfl, hring, by simp⟩
  | @tail t u hpath hturn ih =>
      obtain ⟨A₁, A₂, B', hA, ht, hwoken⟩ := ih
      have hwoken' : ∀ k ∈ A₁, ∃ m, Turns w s m ∧ Turns w m u ∧
          (m.conns k).beWait ≠ .waitingPool := by
        intro k hk
        obtain ⟨m, hsm, hmt, hk'⟩ := hwoken k hk
        exact ⟨m, hsm, hmt.tail hturn, hk'⟩
      obtain ⟨i, hturn'⟩ := hturn
      rcases hturn'.queue with hq | ⟨hq, hnot⟩ | hq
      · exact ⟨A₁, A₂, B', hA, hq.trans ht, hwoken'⟩
      · rw [ht] at hq
        cases A₂ with
        | nil => exact ⟨A₁, [], u.waiters.slots, hA, rfl, hwoken'⟩
        | cons a A₂ =>
            obtain ⟨rfl, hrest⟩ := List.cons.inj hq
            refine ⟨A₁ ++ [a], A₂, B', by rw [hA, List.append_assoc]; rfl, hrest.symm, ?_⟩
            intro k hk
            rcases List.mem_append.mp hk with hk | hk
            · exact hwoken' k hk
            · rw [List.mem_singleton] at hk
              subst hk
              exact ⟨u, hpath.tail ⟨k, hturn'⟩, .refl, hnot⟩
      · exact ⟨A₁, A₂, B' ++ [i], hA, by rw [hq, ht, List.append_assoc], hwoken'⟩

/-! ### Grants -/

theorem Waiters.pop_some {q q' : Waiters} {j : Slot} (h : q.pop = some (j, q')) :
    q.slots = j :: q'.slots := by
  unfold Waiters.pop at h
  split at h
  · rename_i hpos
    cases h
    exact q.ring.toList_eq_cons hpos
  · cases h

theorem Waiters.pop_none {q : Waiters} (h : q.pop = none) : q.slots = [] := by
  unfold Waiters.pop at h
  split at h
  · cases h
  · rename_i hpos
    have hlen := q.ring.length_toList
    exact List.length_eq_zero_iff.mp (by rw [Waiters.slots, hlen]; omega)

theorem Waiters.push_some {q q' : Waiters} {j : Slot} (h : q.push j = some q') :
    j ∈ q'.slots ∧ (q'.slots = q.slots ∨ q'.slots = q.slots ++ [j]) := by
  unfold Waiters.push at h
  split at h
  · rename_i hmem
    cases h
    exact ⟨hmem, Or.inl rfl⟩
  · split at h
    · cases h
      have hslots := q.ring.toList_push j (by assumption)
      exact ⟨by rw [Waiters.slots, hslots]; simp, Or.inr hslots⟩
    · cases h

/-- What the functions called on a connection need of `drain_fe_queue`. -/
structure DrainSpec (w : Pqwire) (n : Nat) (drain : Server → Slot → Server × Bool) : Prop where
  skip : ∀ s i, maxConns < n + drainingCount s → (s.conns i).drainingQueue = true →
    drain s i = (s, true)
  run : ∀ s i, s.Sound → s.Calm → maxConns < n + drainingCount s →
    (s.conns i).drainingQueue = false → (s.conns i).beWait = .idle → (s.conns i).Open →
      Kept w (some i) s (drain s i).1 ∧ ((drain s i).1.conns i).Rested ∧
        ((drain s i).2 = false → Overflowed ((drain s i).1.conns i).log)

/-- A connection parks: it goes to the ring, or it stays idle when it cannot. -/
theorem parkForBackend_cases (s : Server) (i : Slot) :
    (∃ q, s.waiters.push i = some q ∧ s.fairSchedule = true ∧
        parkForBackend s i = ({ s with waiters := q }.updConn i fun c =>
          { c.note (.parked (s.idleFor i)) with beWait := .waitingPool }, true)) ∨
      parkForBackend s i = (s.updConn i fun c => { c with beWait := .idle }, false) := by
  unfold parkForBackend waitersPush
  split
  · exact Or.inr rfl
  · rename_i q hq
    split at hq
    · rename_i hfair
      exact Or.inl ⟨q, hq, hfair, rfl⟩
    · cases hq

theorem updConn_same {f : Conn → Conn} (h : f (s.conns i) = s.conns i) : s.updConn i f = s := by
  unfold Server.updConn Server.setConn
  rw [h, Function.update_eq_self]

@[simp] theorem conns_updConn (s : Server) (i : Slot) (f : Conn → Conn) :
    (s.updConn i f).conns i = f (s.conns i) := Function.update_self ..

theorem queue_empty {c : Conn} : c.feQ.count = 0 ↔ c.feQ.toList = [] := by
  rw [← List.length_eq_zero_iff, c.feQ.length_toList]

/-- Whether a backend is there for a connection depends on the pool and its identity. -/
theorem idleFor_eq (hpool : t.pool = s.pool) (hid : (t.conns i).id = (s.conns i).id) :
    t.idleFor i = s.idleFor i := by
  unfold Server.idleFor
  rw [hpool, hid]

section

variable {n : Nat} {drain : Server → Slot → Server × Bool}

/-- A connection that is idle in the end although its queue is not empty parks again. -/
theorem repark_spec (hs : s.Sound) (hrest : (s.conns i).Rested)
    (hidle : (s.conns i).beWait = .idle ∧ 0 < (s.conns i).feQ.count) :
    Kept w (some i) s (parkForBackend s i).1 ∧ ((parkForBackend s i).1.conns i).Rested := by
  have hne : (s.conns i).feQ.toList ≠ [] := fun h => by
    have := queue_empty.mpr h
    omega
  have hupset : (s.conns i).Upset := by
    rcases hrest with h | h | h
    · exact absurd hidle.1 h
    · exact absurd h hne
    · exact h
  rcases parkForBackend_cases s i with ⟨q, hpush, hfair, heq⟩ | heq
  · rw [heq]
    obtain ⟨hmem, hslots⟩ := Waiters.push_some hpush
    have hbeside : Beside i s ({ s with waiters := q }.updConn i fun c =>
        { c.note (.parked (s.idleFor i)) with beWait := .waitingPool }) := by
      refine ⟨fun j hj => Function.update_of_ne hj .., fun j hj => ?_, rfl⟩
      rcases hslots with h | h
      · exact iff_of_eq (congrArg (j ∈ ·) h)
      · exact (iff_of_eq (congrArg (j ∈ ·) h)).trans (by simp [hj])
    have hlocal : Local w i s _ := hbeside.local hs.toOwned (by simp [Conn.note])
    have hturn : ActTurn w i s _ := ⟨hlocal.toFrame, by
        rw [hbeside.held (by simp [Conn.note]), cell_updConn]
        exact .repark hidle.1 hne hupset, fun _ _ => hlocal.busy,
      fun _ => rfl, hslots.imp_right Or.inr, fun _ _ => hmem, fun _ _ => by simp,
      fun _ _ => ⟨(s.conns i).log, by
        rw [idleFor_eq (s := s) hbeside.pool (by simp [Conn.note]), conns_updConn]
        rfl⟩⟩
    exact ⟨.of_turn hturn (by simp [Conn.note]), Or.inl (by simp)⟩
  · rw [heq, updConn_same (by rw [← hidle.1])]
    exact ⟨.refl s, hrest⟩

/-- A slot is taken from the ring: its connection is idle from then on, and has its queue drained. -/
theorem grant_spec (hd : DrainSpec w n drain) (hs : s.Sound) (hcalm : s.Calm)
    (hcount : maxConns < n + drainingCount s) {q : Waiters} (hpop : s.waiters.pop = some (i, q)) :
    ∃ t, ActTurn w i s t ∧ t.waiters.slots = q.slots ∧ (t.conns i).beWait ≠ .waitingPool ∧
      Turns w t (grant drain { s with waiters := q } i) ∧
        Kept w none s (grant drain { s with waiters := q } i) := by
  have hslots := Waiters.pop_some hpop
  have hnodup : i ∉ q.slots := by
    have := s.waiters.nodup
    rw [show s.waiters.ring.toList = i :: q.slots from hslots] at this
    exact (List.nodup_cons.mp this).1
  have hmem : ∀ j, j ≠ i → (j ∈ q.slots ↔ j ∈ s.waiters.slots) := by
    intro j hj
    rw [hslots, List.mem_cons, or_iff_right hj]
  unfold grant
  split
  · -- the connection does not wait any more
    rename_i hskip
    have hnot : (s.conns i).beWait ≠ .waitingPool := by
      rcases hskip with h | h
      · exact fun hw => nomatch (hs.tidy i fun hopen => hopen.1 h).1.symm.trans hw
      · exact h
    have hbeside : Beside i s { s with waiters := q } := ⟨fun _ _ => rfl, hmem, rfl⟩
    have hturn : ActTurn w i s { s with waiters := q } :=
      hbeside.turn hs.toOwned rfl id (fun _ => rfl) (Or.inr ⟨hslots, hnot⟩) (.io (.refl _))
    refine ⟨_, hturn, rfl, hnot, .refl, .single ⟨i, hturn⟩, fun _ _ => id, fun j _ _ => ⟨rfl, ?_⟩,
      fun _ => rfl⟩
    exact fun hj hin => hj (by rw [hslots]; exact List.mem_cons_of_mem i hin)
  · rename_i hwaits
    have hwait : (s.conns i).beWait = .waitingPool :=
      Classical.not_not.mp fun h => hwaits (Or.inr h)
    have hin : i ∈ s.waiters.slots := by
      rw [hslots]
      exact List.mem_cons_self
    have hdrain : (s.conns i).drainingQueue = false := by
      rw [← Bool.not_eq_true]
      exact fun h => hcalm i h hwait
    have hbeside : Beside i s ({ s with waiters := q }.updConn i fun c => { c with beWait := .idle }) :=
      ⟨fun j hj => Function.update_of_ne hj .., hmem, rfl⟩
    have hidle : (({ s with waiters := q } : Server).updConn i fun c =>
        { c with beWait := .idle }).conns i = { s.conns i with beWait := .idle } := conns_updConn ..
    have hturn : ActTurn w i s ({ s with waiters := q }.updConn i fun c => { c with beWait := .idle }) :=
      hbeside.turn hs.toOwned (by rw [hidle]) (by rw [hidle]; nofun)
        (fun _ => rfl) (Or.inr ⟨hslots, by rw [hidle]; nofun⟩) (by rw [cell_updConn]; exact .unpark hwait)
    have hkept := Kept.of_turn hturn (by rw [hidle])
    have hring : (({ s with waiters := q } : Server).updConn i fun c =>
        { c with beWait := .idle }).waiters.slots = q.slots := rfl
    dsimp only
    generalize ({ s with waiters := q } : Server).updConn i (fun c => { c with beWait := .idle }) = t
      at hturn hkept hidle hring ⊢
    have hnot : (t.conns i).beWait ≠ .waitingPool := by rw [hidle]; nofun
    refine ⟨t, hturn, hring, hnot, ?_⟩
    split
    · rename_i hempty
      exact ⟨.refl, hkept.close (fun _ => Or.inr (Or.inl (queue_empty.mp hempty))) hwait hin⟩
    · rename_i hwork
      have hopen := ((hs.act hturn).tidy i).open fun h => hwork (queue_empty.mpr h)
      obtain ⟨hrun, hrest, -⟩ := hd.run t i (hs.act hturn) (hkept.calm hcalm fun _ => hnot)
        (by rw [hkept.drainingCount_eq]; exact hcount) (by rw [hidle]; exact hdrain) (by rw [hidle])
        hopen
      generalize drain t i = r at hrun hrest
      obtain ⟨u, _ | _⟩ := r
      · exact ⟨hrun.path, (hkept.trans hrun).close (fun _ => hrest) hwait hin⟩
      · dsimp only at hrun hrest ⊢
        split
        · rename_i hleft
          obtain ⟨hpark, hrest'⟩ := repark_spec (w := w) ((hs.act hturn).path hrun.path) hrest hleft
          exact ⟨hrun.path.trans hpark.path,
            ((hkept.trans hrun).trans hpark).close (fun _ => hrest') hwait hin⟩
        · exact ⟨hrun.path, (hkept.trans hrun).close (fun _ => hrest) hwait hin⟩

/-- The loop takes up every slot that stands among the first of the ring. -/
theorem grantWaiters_spec (hd : DrainSpec w n drain) (attempts : Nat) (hs : s.Sound)
    (hcalm : s.Calm) (hcount : maxConns < n + drainingCount s) :
    Kept w none s (grantWaiters drain attempts s) ∧
      ∀ A B, s.waiters.slots = A ++ B → A.length ≤ attempts → ∀ k ∈ A, ∃ m, Turns w s m ∧
        Turns w m (grantWaiters drain attempts s) ∧ (m.conns k).beWait ≠ .waitingPool := by
  induction attempts generalizing s with
  | zero =>
      refine ⟨.refl s, fun A B _ hlen k hk => ?_⟩
      rw [List.length_eq_zero_iff.mp (Nat.le_zero.mp hlen)] at hk
      cases hk
  | succ attempts ih =>
      rw [grantWaiters]
      split
      · rename_i hpop
        refine ⟨.refl s, fun A B hring _ k hk => ?_⟩
        rw [Waiters.pop_none hpop] at hring
        rw [(List.append_eq_nil_iff.mp hring.symm).1] at hk
        cases hk
      · rename_i j q hpop
        obtain ⟨t, hturn, hq, hnot, htu, hkept⟩ := grant_spec hd hs hcalm hcount hpop
        generalize grant drain { s with waiters := q } j = u at htu hkept
        have hst : Turns w s t := .single ⟨j, hturn⟩
        obtain ⟨hrest, hwoken⟩ := ih (hs.path hkept.path) (hkept.calm_none hcalm)
          (by rw [hkept.drainingCount_eq]; exact hcount)
        refine ⟨hkept.trans hrest, fun A B hring hlen k hk => ?_⟩
        cases A with
        | nil => cases hk
        | cons a A =>
            rw [Waiters.pop_some hpop] at hring
            obtain ⟨rfl, hbehind⟩ := List.cons.inj hring
            obtain ⟨A₁, A₂, B', hA, hu, hfront⟩ := htu.fifo (hq.trans hbehind)
            rcases List.mem_cons.mp hk with rfl | hk
            · exact ⟨t, hst, htu.trans hrest.path, hnot⟩
            · rw [hA] at hk
              rcases List.mem_append.mp hk with hk | hk
              · obtain ⟨m, htm, hmu, hm⟩ := hfront k hk
                exact ⟨m, hst.trans htm, hmu.trans hrest.path, hm⟩
              · have hlen' : A₂.length ≤ attempts := by
                  rw [hA] at hlen
                  simp only [List.length_cons, List.length_append] at hlen
                  omega
                obtain ⟨m, hum, hmv, hm⟩ := hwoken A₂ B' hu hlen' k hk
                exact ⟨m, (hst.trans htu).trans hum, hmv, hm⟩

theorem fairScheduleWaiters_spec (hd : DrainSpec w n drain) (hs : s.Sound) (hcalm : s.Calm)
    (hcount : maxConns < n + drainingCount s) :
    Kept w none s (fairScheduleWaiters drain s) ∧
      (s.pool.isSome = true → Woken w s (fairScheduleWaiters drain s)) := by
  unfold fairScheduleWaiters
  split
  · rename_i hoff
    refine ⟨.refl s, fun hpool hfair hasync => ?_⟩
    rw [hfair, hasync] at hoff
    simp [Option.isNone_iff_eq_none] at hoff
    rw [hoff] at hpool
    cases hpool
  · obtain ⟨hkept, hwoken⟩ := grantWaiters_spec hd s.waiters.ring.count hs hcalm hcount
    refine ⟨hkept, fun _ _ _ j hj => ?_⟩
    exact hwoken s.waiters.slots [] (List.append_nil _).symm
      (Nat.le_of_eq s.waiters.ring.length_toList) j hj

/-- What is left of `after_backend_release` once the connection is idle. -/
theorem released_spec (hd : DrainSpec w n drain) (ht : s.updConn i Conn.release = t) (hs : t.Sound)
    (hopen : (t.conns i).Open) (hcalm : t.Calm) (hcount : maxConns < n + drainingCount t) :
    Kept w (some i) t (afterBackendRelease drain s i).1 ∧
      ((t.conns i).drainingQueue = false ∨ (t.conns i).Upset →
        ((afterBackendRelease drain s i).1.conns i).Rested) ∧
      ((afterBackendRelease drain s i).2 = false →
        Overflowed ((afterBackendRelease drain s i).1.conns i).log) ∧
      ((t.conns i).drainingQueue = true →
        ((afterBackendRelease drain s i).1.conns i).beWait = .idle) ∧
      (t.pool.isSome = true → Woken w t (afterBackendRelease drain s i).1) := by
  have hidle : (t.conns i).beWait = .idle := by
    rw [← ht, conns_updConn]
    rfl
  unfold afterBackendRelease
  rw [ht]
  dsimp only
  have hfair : Kept w none t (if t.fairSchedule = true ∧ 0 < t.waiters.ring.count then
        fairScheduleWaiters drain t else t) ∧
      (t.pool.isSome = true → Woken w t (if t.fairSchedule = true ∧ 0 < t.waiters.ring.count then
        fairScheduleWaiters drain t else t)) := by
    split
    · exact fairScheduleWaiters_spec hd hs hcalm hcount
    · rename_i hnone
      refine ⟨.refl t, fun _ hon _ j hj => ?_⟩
      have hlen := List.length_pos_of_mem hj
      rw [Waiters.slots, t.waiters.ring.length_toList] at hlen
      exact absurd ⟨hon, hlen⟩ hnone
  generalize (if t.fairSchedule = true ∧ 0 < t.waiters.ring.count then
    fairScheduleWaiters drain t else t) = u at hfair ⊢
  obtain ⟨hkept, hwoken⟩ := hfair
  have hsame : u.conns i = t.conns i := (hkept.still i (by simp) (Or.inl (by rw [hidle]; nofun))).1
  have hsu := hs.path hkept.path
  -- those that were taken up stay so
  have hlater : ∀ v, Turns w u v → t.pool.isSome = true → Woken w t v := by
    intro v huv hpool hon hasync j hj
    obtain ⟨m, htm, hmu, hm⟩ := hwoken hpool hon hasync j hj
    exact ⟨m, htm, hmu.trans huv, hm⟩
  split
  · rename_i hwork
    cases hdrain : (u.conns i).drainingQueue with
    | true =>
        rw [hd.skip u i (by rw [hkept.drainingCount_eq]; exact hcount) hdrain]
        refine ⟨hkept.exempt _, ?_, nofun, fun _ => by rw [hsame, hidle], hlater u .refl⟩
        rintro (h | h)
        · rw [← hsame, hdrain] at h
          cases h
        · exact Or.inr (Or.inr (hkept.path.upset h))
    | false =>
        obtain ⟨hrun, hrest, hover⟩ := hd.run u i hsu (hkept.calm_none hcalm)
          (by rw [hkept.drainingCount_eq]; exact hcount) hdrain hwork.1 (hsame ▸ hopen)
        refine ⟨(hkept.exempt _).trans hrun, fun _ => hrest, hover, fun h => ?_, hlater _ hrun.path⟩
        rw [← hsame, hdrain] at h
        cases h
  · rename_i hwork
    obtain ⟨hio, hfail, -⟩ := drainFrontendOut_io (u.cell i)
    have hturn := turn_io (w := w) hsu.toOwned (hsame ▸ hopen.1) (f := drainFrontendOut) hio
    have hcell := conns_onCell u i drainFrontendOut
    have hkeep := Kept.of_turn hturn (by rw [hcell, hio.conn]; rfl)
    refine ⟨(hkept.exempt _).trans hkeep, fun _ => Or.inr (Or.inl ?_), fun h => ?_, fun _ => ?_,
      hlater _ hkeep.path⟩
    · rw [hcell, hio.conn]
      refine queue_empty.mp ?_
      rw [hsame, hidle] at hwork
      change (u.conns i).feQ.count = 0
      rw [hsame]
      exact Nat.eq_zero_of_not_pos fun h => hwork ⟨rfl, h⟩
    · rw [hcell]
      exact hfail h
    · rw [hcell, hio.conn]
      change (u.conns i).beWait = .idle
      rw [hsame, hidle]

end

end
