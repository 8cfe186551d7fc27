import PqProxy.LoopRun

/-! The accounts of the server: connections that were accepted and closed, and the descriptors, frontends
and TLS sessions that were acquired and released for them. They are kept beside a run. -/

inductive ResourceKind where
  | descriptor
  | pqwire
  | tls
  deriving DecidableEq

/-- What was acquired for an incarnation of a slot; or, without a slot, a descriptor for which there was no
free slot. -/
structure Resource where
  kind : ResourceKind
  slot : Option Slot
  number : Nat
  deriving DecidableEq

/-- The counters, and everything that was acquired and released so far. -/
structure Books where
  accepts : Nat
  closes : Nat
  turnedAway : Nat
  created : List Resource
  released : List Resource

def Books.empty : Books := ⟨0, 0, 0, [], []⟩

/-- What `accept_one` acquires for a slot before it succeeds or gives up. -/
def AcceptSetup.acquires (setup : AcceptSetup) (tls : Bool) (i : Slot) (gen : Nat) : List Resource :=
  ⟨.descriptor, some i, gen⟩ ::
    if setup.created then
      ⟨.pqwire, some i, gen⟩ ::
        if tls && setup.tlsCreated then [⟨.tls, some i, gen⟩] else []
    else []

/-- What `close_conn` frees and closes. A connection in use has a frontend. -/
def Conn.releases (c : Conn) (i : Slot) : List Resource :=
  (if c.ssl then [⟨.tls, some i, c.gen⟩] else []) ++ [⟨.pqwire, some i, c.gen⟩] ++
    if c.fd.isSome then [⟨.descriptor, some i, c.gen⟩] else []

/-- The slots whose connections were closed: nothing but `close_conn` makes a slot in use free. -/
def closedBetween (c c' : Slot → Conn) : List Slot :=
  (List.finRange maxConns).filter fun i => (c i).state ≠ .free ∧ (c' i).state = .free

namespace Books

/-- The part of `accept_one` that acquires. -/
def accept (b : Books) (s : Server) (setup : AcceptSetup) : Books :=
  match allocConn s with
  | none => { b with
      turnedAway := b.turnedAway + 1,
      created := b.created ++ [⟨.descriptor, none, b.turnedAway⟩],
      released := b.released ++ [⟨.descriptor, none, b.turnedAway⟩] }
  | some i => { b with
      accepts := b.accepts + 1,
      created := b.created ++ setup.acquires s.tls i ((s.conns i).gen + 1) }

/-- The calls of `close_conn` that took effect. -/
def close (b : Books) (c c' : Slot → Conn) : Books := { b with
  closes := b.closes + (closedBetween c c').length,
  released := b.released ++ (closedBetween c c').flatMap fun i => (c i).releases i }

end Books

/-- The connections when `accept_one` has admitted one and makes its first request. -/
def Server.admitting (s : Server) (fd : Nat) (setup : AcceptSetup) : Slot → Conn :=
  match allocConn s with
  | none => s.conns
  | some i => Function.update s.conns i (setup.admitted s ((s.conns i).gen + 1) fd)

section

variable (w : Pqwire) (env : Env)

/-- The accounts after one more iteration. -/
def Books.next (b : Books) (s : Server) (input : Input) : Books :=
  match input with
  | .timeout _ => b
  | .complete _ k cqe =>
      match s.inflight[k]? with
      | none => b
      | some r =>
          match r.op, cqe with
          | .accept, .accepted fd setup =>
              (b.accept s setup).close (s.admitting fd setup) (step w env s input).conns
          | _, _ => b.close s.conns (step w env s input).conns

/-- An iteration beside its accounts. -/
def bookStep (x : Server × Books) (input : Input) : Server × Books :=
  (step w env x.1 input, x.2.next w env x.1 input)

end

/-! ### What becomes of a connection -/

section

variable {w : Pqwire} {env : Env} {i : Slot} {s t : Server}

/-- A connection goes on, or is closed. -/
def Fate (c c' : Conn) : Prop :=
  Keeps c c' ∨ c.state ≠ .free ∧ c'.state = .free ∧ c'.gen = c.gen

theorem Fate.of_same {c c' : Conn} (h : c' = c) : Fate c c' := by
  rw [h]
  exact Or.inl (.of_lasting rfl)

theorem Fate.trans {a b c : Conn} (h : Fate a b) (k : Fate b c) : Fate a c := by
  rcases h with h | ⟨hlive, hfree, hgen⟩
  · rcases k with k | ⟨hlive, hfree, hgen⟩
    · exact Or.inl (h.trans k)
    · exact Or.inr ⟨fun hf => hlive (h.free.mpr hf), hfree, hgen.trans h.gen⟩
  · rcases k with k | ⟨hlive', -⟩
    · exact Or.inr ⟨hlive, k.free.mpr hfree, k.gen.trans hgen⟩
    · exact absurd hfree hlive'

/-- Only connection `i` changes. -/
theorem fate_others (hothers : ∀ j, j ≠ i → t.conns j = s.conns j) (hi : Fate (s.conns i) (t.conns i))
    (j : Slot) : Fate (s.conns j) (t.conns j) := by
  by_cases hj : j = i
  · rw [hj]
    exact hi
  · exact .of_same (hothers j hj)

theorem Change.fate (h : Change w i s t) (j : Slot) : Fate (s.conns j) (t.conns j) := by
  refine fate_others h.frame.others ?_ j
  cases h with
  | act hturn => exact Or.inl hturn.act.grows.keeps
  | abandon _ habandon =>
      rw [habandon.conn]
      exact Or.inl (.of_lasting rfl)
  | close hlive hclose =>
      rw [hclose.conn]
      exact Or.inr ⟨hlive, rfl, rfl⟩

theorem Changes.fate (h : Changes w s t) (j : Slot) : Fate (s.conns j) (t.conns j) := by
  induction h with
  | refl => exact .of_same rfl
  | tail _ hchange ih =>
      obtain ⟨i, hchange⟩ := hchange
      exact ih.trans (hchange.fate j)

theorem LandTurn.fate {op : Op} (h : LandTurn w op i s t) (j : Slot) : Fate (s.conns j) (t.conns j) := by
  refine fate_others h.others (Or.inl ?_) j
  have hkeeps := h.land.grows.keeps
  have hlanded : Keeps (s.conns i) ((s.conns i).landed op) := .of_lasting (by cases op <;> rfl)
  exact hlanded.trans hkeeps

/-- The dispatch of every completion but that of an accept. -/
theorem Begins.fate {r : Request} (h : Begins w r s t) (hop : r.op ≠ .accept) (j : Slot) :
    Fate (s.conns j) (t.conns j) := by
  have hflag : ∀ {f : Conn → Conn}, (f (s.conns r.slot)).lasting = (s.conns r.slot).lasting → ∀ j,
      Fate (s.conns j) ((s.updConn r.slot f).conns j) := by
    intro f hf
    refine fate_others (Beside.updConn s f).others (Or.inl ?_)
    rw [conns_updConn]
    exact .of_lasting hf
  cases h with
  | skip => exact .of_same rfl
  | accept hacc => exact absurd hacc hop
  | recv => exact hflag (f := fun c => { c with recvPending := false }) rfl j
  | send n =>
      refine (hflag (f := fun c => { c with sendPending := false }) rfl j).trans ?_
      generalize s.updConn r.slot (fun c => { c with sendPending := false }) = u
      refine fate_others (Beside.onCell (i := r.slot) u _).others (Or.inl ?_) j
      rw [conns_onCell]
      exact (ext_io (w := w) (advanceSend_io n (u.cell r.slot)).1).keeps
  | sendCut _ hlive habandon =>
      refine (hflag (f := fun c => { c with sendPending := false }) rfl j).trans ?_
      have hlive' : ((s.updConn r.slot fun c => { c with sendPending := false }).conns r.slot).state ≠
          .free := by
        rw [conns_updConn]
        exact hlive
      exact Change.fate (.abandon hlive' habandon) j
  | poll => exact hflag (f := fun c => { c with pollPending := false }) rfl j
  | land _ hland => exact hland.fate j
  | landCut _ hland hlive habandon =>
      exact (hland.fate j).trans (Change.fate (.abandon hlive habandon) j)

/-- Maintenance and submission leave the connections alone. -/
theorem conns_serverTick (now : Nat) : (serverTick env s now).conns = s.conns := by
  unfold serverTick
  split <;> rfl

theorem conns_submitAccept : (submitAll (submitAccept s)).conns = s.conns := by
  rcases submitAccept_cases s with h | h <;> rw [h] <;> rfl

theorem allocConn_congr (h : t.conns = s.conns) : allocConn t = allocConn s := by
  unfold allocConn
  rw [h]

theorem admitting_congr (hconns : t.conns = s.conns) (htls : t.tls = s.tls) (hcfg : t.cfg = s.cfg)
    (fd : Nat) (setup : AcceptSetup) : t.admitting fd setup = s.admitting fd setup := by
  unfold Server.admitting AcceptSetup.admitted
  rw [allocConn_congr hconns, hconns, htls, hcfg]

theorem admitting_none (h : allocConn s = none) (fd : Nat) (setup : AcceptSetup) :
    s.admitting fd setup = s.conns := by
  unfold Server.admitting
  rw [h]

theorem admitting_some (h : allocConn s = some i) (fd : Nat) (setup : AcceptSetup) :
    s.admitting fd setup =
      Function.update s.conns i (setup.admitted s ((s.conns i).gen + 1) fd) := by
  unfold Server.admitting
  rw [h]

/-- `accept_one` admits a connection, and goes on with it or closes it. -/
theorem acceptOne_fate (hs : s.Good none) (fd : Nat) (setup : AcceptSetup) (j : Slot) :
    Fate (s.admitting fd setup j) ((acceptOne env (drainQueue w env) s fd setup).conns j) := by
  cases halloc : allocConn s with
  | none =>
      refine .of_same ?_
      rw [admitting_none halloc]
      unfold acceptOne
      rw [halloc]
  | some i =>
      obtain ⟨t, haccept, hconn, hmoves, -⟩ := acceptOne_admits (w := w) env hs halloc fd setup
      have hadmitting : s.admitting fd setup = t.conns := by
        rw [admitting_some halloc]
        funext j
        by_cases hj : j = i
        · rw [hj, Function.update_self, hconn]
        · rw [Function.update_of_ne hj, haccept.others j hj]
      rw [hadmitting]
      exact hmoves.changes.fate j

/-- The server whose completions are dispatched. -/
theorem step_tick (env : Env) (w : Pqwire) (hs : s.Ready) (now k : Nat) :
    (serverTick env { s with inflight := s.inflight.eraseIdx k } now).Good none ∧
      (serverTick env { s with inflight := s.inflight.eraseIdx k } now).conns = s.conns ∧
      (serverTick env { s with inflight := s.inflight.eraseIdx k } now).tls = s.tls ∧
      (serverTick env { s with inflight := s.inflight.eraseIdx k } now).cfg = s.cfg := by
  have herase : ({ s with inflight := s.inflight.eraseIdx k } : Server).Good none :=
    hs.good.erase fun x hx => List.mem_of_mem_eraseIdx hx
  obtain ⟨hlocal, hconns, -, -, hgood⟩ := serverTick_spec env w ⟨0, by decide⟩ herase now
  exact ⟨hgood, hconns, hlocal.tls, hlocal.cfg⟩

/-- The completion of an accept. -/
theorem step_accepted (hs : s.Ready) {now k : Nat} {r : Request} (hr : s.inflight[k]? = some r)
    (hop : r.op = .accept) (fd : Nat) (setup : AcceptSetup) (j : Slot) :
    Fate (s.admitting fd setup j) ((step w env s (.complete now k (.accepted fd setup))).conns j) := by
  obtain ⟨hgood, hconns, htls, hcfg⟩ := step_tick env w hs now k
  unfold step dispatch
  dsimp only
  rw [hr]
  dsimp only
  rw [hop]
  dsimp only [dispatchTo]
  rw [conns_submitAccept, ← admitting_congr hconns htls hcfg]
  exact acceptOne_fate hgood fd setup j

/-- Any other completion. -/
theorem step_other (hs : s.Ready) {now k : Nat} {cqe : Cqe} {r : Request} (hr : s.inflight[k]? = some r)
    (hother : r.op = .accept → ∀ fd setup, cqe ≠ .accepted fd setup) (j : Slot) :
    Fate (s.conns j) ((step w env s (.complete now k cqe)).conns j) := by
  obtain ⟨hgood, hconns, htls, hcfg⟩ := step_tick env w hs now k
  by_cases hop : r.op = .accept
  · refine .of_same (Eq.trans ?_ (congrFun hconns j))
    unfold step dispatch
    dsimp only
    rw [hr]
    dsimp only
    rw [hop]
    dsimp only [dispatchTo]
    rw [conns_submitAccept]
    cases cqe with
    | accepted fd setup => exact absurd rfl (hother hop fd setup)
    | _ => rfl
  · obtain ⟨u, ⟨⟨m, hopens, hmoves⟩, -⟩, heq⟩ := (step_complete env hs hr : ∃ u, Dispatched w r
      (serverTick env { s with inflight := s.inflight.eraseIdx k } now) u ∧
        step w env s (.complete now k cqe) = submitAll (if r.op = .accept then submitAccept u else u))
    obtain ⟨b, hbegins, hchanges⟩ := hopens.begins
    rw [heq, if_neg hop, ← hconns]
    exact (hbegins.fate hop j).trans (Changes.fate (hchanges.trans hmoves.changes) j)

/-! ### The accounts -/

/-- What a connection in use has. -/
def Conn.has (c : Conn) : ResourceKind → Bool
  | .descriptor => c.fd.isSome
  | .pqwire => true
  | .tls => c.ssl

/-- The connection in slot `i` is in use and owns the resource. -/
structure Carries (c : Slot → Conn) (i : Slot) (r : Resource) : Prop where
  slot : r.slot = some i
  number : r.number = (c i).gen
  live : (c i).state ≠ .free
  has : (c i).has r.kind = true

/-- The slots in use. -/
def inUse (c : Slot → Conn) : Finset Slot := Finset.univ.filter fun i => (c i).state ≠ .free

theorem mem_releases {c : Conn} {i : Slot} {r : Resource} :
    r ∈ c.releases i ↔ r.slot = some i ∧ r.number = c.gen ∧ c.has r.kind = true := by
  obtain ⟨kind, slot, number⟩ := r
  cases hssl : c.ssl <;> cases hfd : c.fd <;> cases kind <;>
    simp [Conn.releases, Conn.has, hssl, hfd]

theorem nodup_releases (c : Conn) (i : Slot) : (c.releases i).Nodup := by
  cases hssl : c.ssl <;> cases hfd : c.fd <;> simp [Conn.releases, hssl, hfd]

theorem mem_closedBetween {c c' : Slot → Conn} {i : Slot} :
    i ∈ closedBetween c c' ↔ (c i).state ≠ .free ∧ (c' i).state = .free := by
  simp [closedBetween]

/-- The books and the connections tell the same. -/
structure Books.Agrees (b : Books) (c : Slot → Conn) : Prop where
  count : b.accepts = b.closes + (inUse c).card
  created : b.created.Nodup
  released : b.released.Nodup
  sub : ∀ r ∈ b.released, r ∈ b.created
  old : ∀ r ∈ b.created, ∀ i, r.slot = some i → r.number ≤ (c i).gen
  away : ∀ r ∈ b.created, r.slot = none → r.number < b.turnedAway
  carried : ∀ i, (c i).state ≠ .free → ∀ k, (c i).has k = true → ⟨k, some i, (c i).gen⟩ ∈ b.created
  settled : ∀ r ∈ b.created, r ∈ b.released ↔ ¬ ∃ i, Carries c i r

/-- Nothing fails in `accept_one` before the state of the slot is set. -/
def AcceptSetup.Complete (setup : AcceptSetup) (tls : Bool) : Prop :=
  setup.created = true ∧ (tls = true → setup.tlsCreated = true)

theorem admitted_facts {setup : AcceptSetup} (h : setup.Complete s.tls) (gen fd : Nat) :
    (setup.admitted s gen fd).state ≠ .free ∧ (setup.admitted s gen fd).fd.isSome = true ∧
      (setup.admitted s gen fd).ssl = s.tls ∧ (setup.admitted s gen fd).gen = gen := by
  have hgo : ¬ (setup.created = false ∨ s.tls = true ∧ setup.tlsCreated = false) := by
    rintro (hcreated | ⟨htls, hsession⟩)
    · cases h.1.symm.trans hcreated
    · cases (h.2 htls).symm.trans hsession
  rw [AcceptSetup.admitted, if_neg hgo]
  cases s.tls with
  | true => exact ⟨by rintro ⟨⟩, rfl, rfl, rfl⟩
  | false => exact ⟨by rintro ⟨⟩, rfl, rfl, rfl⟩

/-- Everything that was acquired is in the connection. -/
theorem mem_acquires {setup : AcceptSetup} (h : setup.Complete s.tls) {gen fd : Nat} {r : Resource} :
    r ∈ setup.acquires s.tls i gen ↔ r.slot = some i ∧ r.number = gen ∧
      (setup.admitted s gen fd).has r.kind = true := by
  obtain ⟨-, hfd, hssl, -⟩ := admitted_facts h gen fd
  obtain ⟨hcreated, hsession⟩ := h
  obtain ⟨kind, slot, number⟩ := r
  cases htls : s.tls with
  | true =>
      rw [htls] at hssl hsession
      cases kind <;> simp [AcceptSetup.acquires, Conn.has, hcreated, hsession rfl, hfd, hssl]
  | false =>
      rw [htls] at hssl
      cases kind <;> simp [AcceptSetup.acquires, Conn.has, hcreated, hfd, hssl]

theorem nodup_acquires (setup : AcceptSetup) (tls : Bool) (i : Slot) (gen : Nat) :
    (setup.acquires tls i gen).Nodup := by
  unfold AcceptSetup.acquires
  split
  · split <;> simp
  · simp

namespace Books.Agrees

variable {b : Books} {c c' : Slot → Conn}

theorem nodup_closedBetween (c c' : Slot → Conn) : (closedBetween c c').Nodup :=
  (List.nodup_finRange maxConns).filter _

/-- A connection that is still in use afterwards went on. -/
theorem keeps_of_live {c c' : Conn} (h : Fate c c') (hlive : c'.state ≠ .free) : Keeps c c' :=
  h.resolve_right fun hclosed => hlive hclosed.2.1

theorem fate_gen {c c' : Conn} (h : Fate c c') : c'.gen = c.gen := h.elim Keeps.gen fun h => h.2.2

theorem inUse_of_fate (hfate : ∀ i, Fate (c i) (c' i)) :
    (inUse c).card = (inUse c').card + (closedBetween c c').length := by
  have hclosed : (closedBetween c c').toFinset = (inUse c).filter fun i => ¬ (c' i).state ≠ .free := by
    ext i
    rw [List.mem_toFinset, mem_closedBetween]
    simp [inUse]
  have hkept : inUse c' = (inUse c).filter fun i => (c' i).state ≠ .free := by
    ext i
    simp only [inUse, Finset.mem_filter, Finset.mem_univ, true_and]
    exact ⟨fun hlive => ⟨fun hfree => hlive ((keeps_of_live (hfate i) hlive).free.mpr hfree), hlive⟩,
      And.right⟩
  rw [← List.toFinset_card_of_nodup (nodup_closedBetween c c'), hclosed, hkept]
  exact (Finset.card_filter_add_card_filter_not _).symm

/-- It owns what it owned. -/
theorem carries_iff {i : Slot} (h : Fate (c i) (c' i)) (hlive : (c' i).state ≠ .free) (r : Resource) :
    Carries c' i r ↔ Carries c i r := by
  have hkeeps := keeps_of_live h hlive
  have hhas : ∀ k, (c' i).has k = (c i).has k := by
    intro k
    cases k with
    | descriptor => exact congrArg Option.isSome hkeeps.fd
    | pqwire => rfl
    | tls => exact hkeeps.ssl
  exact ⟨fun k => ⟨k.slot, k.number.trans hkeeps.gen, fun hfree => hlive (hkeeps.free.mpr hfree),
      (hhas _).symm.trans k.has⟩,
    fun k => ⟨k.slot, k.number.trans hkeeps.gen.symm, hlive, (hhas _).trans k.has⟩⟩

/-- What the closed connections owned is released. -/
theorem mem_close {r : Resource} : r ∈ (closedBetween c c').flatMap (fun i => (c i).releases i) ↔
    ∃ i, (c' i).state = .free ∧ Carries c i r := by
  rw [List.mem_flatMap]
  constructor
  · rintro ⟨i, hi, hr⟩
    obtain ⟨hlive, hfree⟩ := mem_closedBetween.mp hi
    obtain ⟨hslot, hnumber, hhas⟩ := mem_releases.mp hr
    exact ⟨i, hfree, hslot, hnumber, hlive, hhas⟩
  · rintro ⟨i, hfree, hslot, hnumber, hlive, hhas⟩
    exact ⟨i, mem_closedBetween.mpr ⟨hlive, hfree⟩, mem_releases.mpr ⟨hslot, hnumber, hhas⟩⟩

theorem nodup_close : ((closedBetween c c').flatMap fun i => (c i).releases i).Nodup := by
  rw [List.nodup_flatMap]
  refine ⟨fun i _ => nodup_releases _ _, ?_⟩
  refine (nodup_closedBetween c c').pairwise_of_forall_ne fun i _ j _ hij => ?_
  intro r hi hj
  have hslot := (mem_releases.mp hi).1.symm.trans (mem_releases.mp hj).1
  exact hij (Option.some.inj hslot)

/-- Connections go on or are closed. -/
theorem close (h : b.Agrees c) (hfate : ∀ i, Fate (c i) (c' i)) : (b.close c c').Agrees c' where
  count := by
    have hcount := h.count
    rw [inUse_of_fate hfate] at hcount
    change b.accepts = b.closes + (closedBetween c c').length + (inUse c').card
    omega
  created := h.created
  released := by
    refine List.Nodup.append h.released nodup_close fun r hold hnew => ?_
    obtain ⟨i, -, hcarries⟩ := mem_close.mp hnew
    exact (h.settled r (h.sub r hold)).mp hold ⟨i, hcarries⟩
  sub := by
    intro r hr
    rcases List.mem_append.mp hr with hr | hr
    · exact h.sub r hr
    · obtain ⟨i, -, hcarries⟩ := mem_close.mp hr
      have hmem := h.carried i hcarries.live r.kind hcarries.has
      rwa [← hcarries.slot, ← hcarries.number] at hmem
  old := fun r hr i hi => (h.old r hr i hi).trans (fate_gen (hfate i)).ge
  away := h.away
  carried := by
    intro i hlive k hhas
    have hcarries : Carries c' i ⟨k, some i, (c' i).gen⟩ := ⟨rfl, rfl, hlive, hhas⟩
    have hbefore := (carries_iff (hfate i) hlive _).mp hcarries
    rw [fate_gen (hfate i)] at hbefore ⊢
    exact h.carried i hbefore.live k hbefore.has
  settled := by
    intro r hr
    change r ∈ b.released ++ _ ↔ _
    rw [List.mem_append, h.settled r hr, mem_close]
    constructor
    · rintro (hnone | ⟨i, hfree, hcarries⟩) ⟨j, hj⟩
      · exact hnone ⟨j, (carries_iff (hfate j) hj.live r).mp hj⟩
      · have hsame : i = j := Option.some.inj (hcarries.slot.symm.trans hj.slot)
        exact hj.live (hsame ▸ hfree)
    · intro hnone
      by_cases hbefore : ∃ i, Carries c i r
      · obtain ⟨i, hcarries⟩ := hbefore
        refine Or.inr ⟨i, ?_, hcarries⟩
        by_contra hlive
        exact hnone ⟨i, (carries_iff (hfate i) hlive r).mpr hcarries⟩
      · exact Or.inl hbefore

/-- A descriptor for which there is no slot is closed at once. -/
theorem turnAway {s : Server} (h : b.Agrees s.conns) (hfull : allocConn s = none) (fd : Nat)
    (setup : AcceptSetup) : (b.accept s setup).Agrees (s.admitting fd setup) := by
  have hbooks : b.accept s setup = { b with
      turnedAway := b.turnedAway + 1,
      created := b.created ++ [⟨.descriptor, none, b.turnedAway⟩],
      released := b.released ++ [⟨.descriptor, none, b.turnedAway⟩] } := by
    unfold Books.accept
    rw [hfull]
  have hnew : ⟨.descriptor, none, b.turnedAway⟩ ∉ b.created := fun hmem =>
    absurd (h.away _ hmem rfl) (Nat.lt_irrefl _)
  rw [hbooks, admitting_none hfull]
  refine ⟨h.count, ?_, ?_, fun r hr => ?_, fun r hr i hi => ?_, fun r hr hnone => ?_, fun i hlive k hhas => ?_,
    fun r hr => ?_⟩
  · exact h.created.append (List.nodup_singleton _) (List.disjoint_singleton.mpr hnew)
  · exact h.released.append (List.nodup_singleton _)
      (List.disjoint_singleton.mpr fun hmem => hnew (h.sub _ hmem))
  · exact (List.mem_append.mp hr).elim (fun hr => List.mem_append_left _ (h.sub r hr))
      (List.mem_append_right _)
  · rcases List.mem_append.mp hr with hr | hr
    · exact h.old r hr i hi
    · rw [List.mem_singleton.mp hr] at hi
      cases hi
  · rcases List.mem_append.mp hr with hr | hr
    · exact (h.away r hr hnone).trans (Nat.lt_succ_self _)
    · rw [List.mem_singleton.mp hr]
      exact Nat.lt_succ_self _
  · exact List.mem_append_left _ (h.carried i hlive k hhas)
  · rcases List.mem_append.mp hr with hr | hr
    · have hne : r ∉ ([⟨.descriptor, none, b.turnedAway⟩] : List Resource) := fun hmem =>
        hnew (List.mem_singleton.mp hmem ▸ hr)
      rw [List.mem_append, or_iff_left hne]
      exact h.settled r hr
    · refine iff_of_true (List.mem_append_right _ hr) ?_
      rintro ⟨i, hcarries⟩
      rw [List.mem_singleton.mp hr] at hcarries
      cases hcarries.slot

/-- A slot is taken, with everything that `accept_one` acquires for it. -/
theorem enrol (h : b.Agrees s.conns) (halloc : allocConn s = some i) {setup : AcceptSetup}
    (hcomplete : setup.Complete s.tls) (fd : Nat) :
    (b.accept s setup).Agrees (s.admitting fd setup) := by
  have hbooks : b.accept s setup = { b with
      accepts := b.accepts + 1,
      created := b.created ++ setup.acquires s.tls i ((s.conns i).gen + 1) } := by
    unfold Books.accept
    rw [halloc]
  have hfree : (s.conns i).state = .free := by simpa using List.find?_some halloc
  obtain ⟨hlive, -, -, hgen⟩ := admitted_facts hcomplete ((s.conns i).gen + 1) fd
  have hmem : ∀ r, r ∈ setup.acquires s.tls i ((s.conns i).gen + 1) ↔ r.slot = some i ∧
      r.number = (s.conns i).gen + 1 ∧ (setup.admitted s ((s.conns i).gen + 1) fd).has r.kind = true :=
    fun r => mem_acquires hcomplete
  rw [hbooks, admitting_some halloc]
  generalize setup.admitted s ((s.conns i).gen + 1) fd = conn at hlive hgen hmem
  have hself : Function.update s.conns i conn i = conn := Function.update_self ..
  have hothers : ∀ j, j ≠ i → Function.update s.conns i conn j = s.conns j := fun j hj =>
    Function.update_of_ne hj ..
  generalize Function.update s.conns i conn = c' at hself hothers
  -- the new incarnation is known to no entry
  have hnew : ∀ r ∈ setup.acquires s.tls i ((s.conns i).gen + 1), r ∉ b.created := by
    intro r hr hold
    obtain ⟨hslot, hnumber, -⟩ := (hmem r).mp hr
    have hle := h.old r hold i hslot
    omega
  have hcarries : ∀ r ∈ b.created, (∃ j, Carries c' j r) ↔ ∃ j, Carries s.conns j r := by
    intro r hr
    constructor
    · rintro ⟨j, hj⟩
      by_cases hji : j = i
      · subst hji
        have hle := h.old r hr j hj.slot
        have hnumber := hj.number
        rw [hself, hgen] at hnumber
        omega
      · refine ⟨j, hj.slot, ?_, ?_, ?_⟩
        · rw [← hothers j hji]
          exact hj.number
        · rw [← hothers j hji]
          exact hj.live
        · rw [← hothers j hji]
          exact hj.has
    · rintro ⟨j, hj⟩
      have hji : j ≠ i := fun heq => hj.live (heq ▸ hfree)
      refine ⟨j, hj.slot, ?_, ?_, ?_⟩
      · rw [hothers j hji]
        exact hj.number
      · rw [hothers j hji]
        exact hj.live
      · rw [hothers j hji]
        exact hj.has
  refine ⟨?_, ?_, h.released, fun r hr => List.mem_append_left _ (h.sub r hr), fun r hr j hj => ?_,
    fun r hr hnone => ?_, fun j hj k hhas => ?_, fun r hr => ?_⟩
  · have hinsert : inUse c' = insert i (inUse s.conns) := by
      ext j
      simp only [inUse, Finset.mem_filter, Finset.mem_univ, true_and, Finset.mem_insert]
      by_cases hji : j = i
      · rw [hji, hself]
        exact iff_of_true hlive (Or.inl rfl)
      · rw [hothers j hji, or_iff_right hji]
    have hout : i ∉ inUse s.conns := by simp [inUse, hfree]
    have hcount := h.count
    rw [hinsert, Finset.card_insert_of_notMem hout]
    change b.accepts + 1 = b.closes + _
    omega
  · exact h.created.append (nodup_acquires ..) fun r hold hr => hnew r hr hold
  · rcases List.mem_append.mp hr with hr | hr
    · by_cases hji : j = i
      · rw [hji] at hj ⊢
        rw [hself, hgen]
        exact (h.old r hr i hj).trans (Nat.le_succ _)
      · rw [hothers j hji]
        exact h.old r hr j hj
    · obtain ⟨hslot, hnumber, -⟩ := (hmem r).mp hr
      have hji : j = i := Option.some.inj (hj.symm.trans hslot)
      rw [hji, hself, hgen, hnumber]
  · rcases List.mem_append.mp hr with hr | hr
    · exact h.away r hr hnone
    · cases ((hmem r).mp hr).1.symm.trans hnone
  · by_cases hji : j = i
    · subst hji
      rw [hself] at hhas ⊢
      exact List.mem_append_right _ ((hmem _).mpr ⟨rfl, hgen, hhas⟩)
    · rw [hothers j hji] at hj hhas ⊢
      exact List.mem_append_left _ (h.carried j hj k hhas)
  · rcases List.mem_append.mp hr with hr | hr
    · rw [hcarries r hr]
      exact h.settled r hr
    · refine iff_of_false (fun hreleased => hnew r hr (h.sub r hreleased)) (not_not_intro ⟨i, ?_⟩)
      obtain ⟨hslot, hnumber, hhas⟩ := (hmem r).mp hr
      refine ⟨hslot, ?_, ?_, ?_⟩
      · rw [hself, hgen, hnumber]
      · rw [hself]
        exact hlive
      · rw [hself]
        exact hhas

end Books.Agrees

/-- The accounts are in order: every accept was followed by a close or is in use, and everything that was
acquired is owned by one connection in use or was released once. -/
structure Books.Balance (b : Books) (s : Server) : Prop where
  count : b.accepts = b.closes + (inUse s.conns).card
  created : b.created.Nodup
  settled : ∀ r ∈ b.created, (∃! i, Carries s.conns i r) ∧ b.released.count r = 0 ∨
    (¬ ∃ i, Carries s.conns i r) ∧ b.released.count r = 1
  released : ∀ r ∈ b.released, r ∈ b.created

theorem Books.Agrees.balance {b : Books} (h : b.Agrees s.conns) : b.Balance s where
  count := h.count
  created := h.created
  settled := by
    intro r hr
    by_cases howned : ∃ i, Carries s.conns i r
    · have hout : r ∉ b.released := fun hmem => (h.settled r hr).mp hmem howned
      obtain ⟨i, hi⟩ := howned
      exact Or.inl ⟨⟨i, hi, fun j hj => Option.some.inj (hj.slot.symm.trans hi.slot)⟩,
        List.count_eq_zero_of_not_mem hout⟩
    · exact Or.inr ⟨howned, List.count_eq_one_of_mem h.released ((h.settled r hr).mpr howned)⟩
  released := h.sub

/-- `accept_one` gets as far as the state of the slot, if it gets a slot. -/
def Completes (s : Server) : Input → Prop
  | .complete _ _ (.accepted _ setup) => allocConn s ≠ none → setup.Complete s.tls
  | _ => True

instance (setup : AcceptSetup) (tls : Bool) : Decidable (setup.Complete tls) :=
  inferInstanceAs (Decidable (_ ∧ _))

instance (s : Server) : ∀ input, Decidable (Completes s input)
  | .timeout _ => isTrue trivial
  | .complete _ _ (.accepted _ setup) => inferInstanceAs (Decidable (allocConn s ≠ none → setup.Complete s.tls))
  | .complete _ _ (.failed _) => isTrue trivial
  | .complete _ _ .eof => isTrue trivial
  | .complete _ _ (.received _) => isTrue trivial
  | .complete _ _ (.sent _) => isTrue trivial
  | .complete _ _ (.polled _) => isTrue trivial
  | .complete _ _ (.data _) => isTrue trivial

/-- One iteration keeps the accounts in order. -/
theorem Books.Agrees.next {b : Books} (h : b.Agrees s.conns) (hs : s.Ready) {input : Input}
    (hcompletes : Completes s input) : (b.next w env s input).Agrees (step w env s input).conns := by
  cases input with
  | timeout now =>
      have hconns : (step w env s (.timeout now)).conns = s.conns := conns_serverTick now
      rw [hconns]
      exact h
  | complete now k cqe =>
      unfold Books.next
      dsimp only
      cases hr : s.inflight[k]? with
      | none =>
          have hconns : (step w env s (.complete now k cqe)).conns = s.conns := by
            unfold step dispatch
            dsimp only
            rw [hr]
            rfl
          rw [hconns]
          exact h
      | some r =>
          dsimp only
          split
          · rename_i fd setup hop
            refine Books.Agrees.close ?_ fun j => step_accepted hs hr hop fd setup j
            cases halloc : allocConn s with
            | none => exact h.turnAway halloc fd setup
            | some i => exact h.enrol halloc (hcompletes (by rw [halloc]; rintro ⟨⟩)) fd
          · rename_i hother
            exact h.close fun j => step_other hs hr (fun hop fd setup hcqe => hother fd setup hop hcqe) j

/-- The accounts of a server that starts. -/
theorem start_agrees (cfg : Config) (nonblock : Bool) (now : Nat) :
    Books.empty.Agrees (start env cfg nonblock now).conns := by
  have hnone : inUse (start env cfg nonblock now).conns = ∅ :=
    Finset.filter_eq_empty_iff.mpr fun _ _ hlive => hlive rfl
  refine ⟨?_, List.nodup_nil, List.nodup_nil, fun _ hr => ?_, fun _ hr => ?_, fun _ hr => ?_,
    fun _ hlive => absurd rfl hlive, fun _ hr => ?_⟩
  · rw [hnone]
    rfl
  · cases hr
  · cases hr
  · cases hr
  · cases hr

/-- The accounts of a run in which every `accept_one` got as far as the state of its slot. -/
theorem run_agrees {cfg : Config} {nonblock : Bool} {now : Nat} {inputs : List Input}
    (hrun : Runs.Along (bookStep w env) (fun x input => Completes x.1 input)
      (start env cfg nonblock now, .empty) inputs) :
    (Runs.run (bookStep w env) (start env cfg nonblock now, .empty) inputs).1.Ready ∧
      (Runs.run (bookStep w env) (start env cfg nonblock now, .empty) inputs).2.Agrees
        (Runs.run (bookStep w env) (start env cfg nonblock now, .empty) inputs).1.conns := by
  have hinv : ∀ (x : Server × Books) input, x.1.Ready ∧ x.2.Agrees x.1.conns → Completes x.1 input →
      (bookStep w env x input).1.Ready ∧
        (bookStep w env x input).2.Agrees (bookStep w env x input).1.conns :=
    fun x input hx hcompletes => ⟨step_ready env hx.1 input, hx.2.next hx.1 hcompletes⟩
  exact Runs.Along.invariant hinv ⟨start_ready env cfg nonblock now, start_agrees cfg nonblock now⟩ hrun

/-- In every run in which no `accept_one` fails before it sets the state of its slot, the accounts are in
order between any two iterations. -/
theorem books_balanced {cfg : Config} {nonblock : Bool} {now : Nat} {inputs : List Input}
    (hrun : Runs.Along (bookStep w env) (fun x input => Completes x.1 input)
      (start env cfg nonblock now, .empty) inputs) :
    (Runs.run (bookStep w env) (start env cfg nonblock now, .empty) inputs).2.Balance
      (Runs.run (bookStep w env) (start env cfg nonblock now, .empty) inputs).1 :=
  (run_agrees hrun).2.balance

/-- The accounts of a run of the small server. -/
def smallBooks (inputs : List Input) : Server × Books :=
  Runs.run (bookStep pgWire smallEnv) (smallServer, .empty) inputs

/-- A client is accepted and leaves. -/
theorem books_balanced_leaves :
    (smallBooks [accepts 0, .complete 0 0 .eof]).2.Balance (smallBooks [accepts 0, .complete 0 0 .eof]).1 ∧
      (smallBooks [accepts 0, .complete 0 0 .eof]).2.closes = 1 :=
  ⟨books_balanced (by decide +kernel), by decide +kernel⟩

/-- No frontend can be created for a client: its descriptor is neither owned nor closed. -/
def leakingInputs : List Input :=
  [.complete 0 0 (.accepted 7 ⟨false, false, true, .done, ⟨identityClear, false⟩⟩)]

theorem not_books_balanced : ¬ (smallBooks leakingInputs).2.Balance (smallBooks leakingInputs).1 := by
  intro h
  have hcreated : (⟨.descriptor, some ⟨0, by decide⟩, 1⟩ : Resource) ∈ (smallBooks leakingInputs).2.created := by
    decide +kernel
  have hreleased : (smallBooks leakingInputs).2.released.count ⟨.descriptor, some ⟨0, by decide⟩, 1⟩ = 0 := by
    decide +kernel
  have hfree : ((smallBooks leakingInputs).1.conns ⟨0, by decide⟩).state = .free := by decide +kernel
  rcases h.settled _ hcreated with ⟨⟨i, hi, -⟩, -⟩ | ⟨-, hcount⟩
  · have hslot : (⟨0, by decide⟩ : Slot) = i := Option.some.inj hi.slot
    exact hi.live (hslot ▸ hfree)
  · cases hreleased.symm.trans hcount

end
