import PqProxy.LoopEntries

/-! The identity gate: with certificates required, no input is decoded for a connection and no backend
checked out for it before its peer was authenticated, and its identity is the one of that session. -/

/-- What a connection makes of the certificate of its peer. -/
def Config.identify (cfg : Config) (peer : Identity) : Identity :=
  { peer with identitySlot := cfg.identitySlot }

/-- Input is decoded, or a backend checked out, for this identity. -/
def Obs.Uses (ready : Bool) (id : Identity) (o : Obs) : Prop := o = .fed ready id ∨ o = .checkout ready id

/-- Whatever is done for a connection is done for the peer of its session. -/
structure Conn.Gated (cfg : Config) (c : Conn) : Prop where
  used : ∀ before o after, c.log = before ++ o :: after → ∀ ready id, o.Uses ready id →
    ready = true ∧ (∃ peer, .authenticated peer true ∈ before ∧ id = cfg.identify peer) ∧
      c.identityReady = true ∧ c.id = id
  session : ∀ peer ok peer' ok', .authenticated peer ok ∈ c.log → .authenticated peer' ok' ∈ c.log →
    peer = peer' ∧ ok = ok'

/-- A connection whose certificate was of no use decodes no input and gets no backend. -/
theorem Conn.Gated.failed {cfg : Config} {c : Conn} (h : c.Gated cfg) {peer : Identity}
    (hpeer : .authenticated peer false ∈ c.log) {o : Obs} {ready : Bool} {id : Identity}
    (ho : o.Uses ready id) : o ∉ c.log := by
  intro hmem
  obtain ⟨before, after, hlog⟩ := List.append_of_mem hmem
  obtain ⟨-, ⟨peer', hpeer', -⟩, -⟩ := h.used before o after hlog ready id ho
  have hin : .authenticated peer' true ∈ c.log := hlog ▸ List.mem_append_left _ hpeer'
  exact nomatch (h.session peer false peer' true hpeer hin).2

section

variable {w : Pqwire} {env : Env} {cfg : Config}

/-- The invariant: a connection that is ready has its peer authenticated, and one in its handshake has
not. -/
structure Conn.Gate (cfg : Config) (c : Conn) : Prop extends c.Gated cfg where
  ready : c.identityReady = true → c.state ≠ .tlsHs ∧
    ∃ peer, .authenticated peer true ∈ c.log ∧ c.id = cfg.identify peer
  shaking : c.state = .tlsHs → ∀ peer ok, .authenticated peer ok ∉ c.log

/-- Nothing was used before the handshake is over. -/
theorem Conn.Gate.unused {c : Conn} (h : c.Gate cfg) (hstate : c.state = .tlsHs) {o : Obs}
    {ready : Bool} {id : Identity} (ho : o.Uses ready id) : o ∉ c.log := by
  intro hmem
  obtain ⟨before, after, hlog⟩ := List.append_of_mem hmem
  obtain ⟨-, -, hready, -⟩ := h.used before o after hlog ready id ho
  exact (h.ready hready).1 hstate

/-- Entries that are made for the identity of the connection, or do not concern it. -/
structure Obs.Suits (c : Conn) (o : Obs) : Prop where
  unauthenticated : ∀ peer ok, o ≠ .authenticated peer ok
  used : ∀ ready id, o.Uses ready id → ready = true ∧ c.identityReady = true ∧ id = c.id

theorem Obs.suits_of_tells {hasPool : Bool} {c c' : Conn} {o : Obs} (hmtls : cfg.requireMtls = true)
    (hstate : c.state ≠ .tlsHs) (h : o.Tells cfg hasPool c c') : o.Suits c := by
  refine ⟨?_, ?_⟩
  · rintro peer ok rfl
    exact hstate h
  · rintro ready id (rfl | rfl)
    · obtain ⟨-, rfl, rfl, hready | hoff⟩ := h
      · exact ⟨hready, hready, rfl⟩
      · rw [hmtls] at hoff
        cases hoff
    · obtain ⟨hready, rfl, rfl⟩ := h
      exact ⟨rfl, hready, rfl⟩

/-- A connection that keeps its identity stays behind the gate. -/
theorem Conn.Gate.goesOn {c c' : Conn} (h : c.Gate cfg) (henters : Enters (Obs.Suits c) c c')
    (hid : c'.id = c.id) (hready : c'.identityReady = c.identityReady)
    (hstate : c'.state = .tlsHs → c.state = .tlsHs) : c'.Gate cfg := by
  obtain ⟨l, hl, hall⟩ := henters
  have hold : ∀ {peer ok}, .authenticated peer ok ∈ c'.log → .authenticated peer ok ∈ c.log := by
    intro peer ok hmem
    rw [hl] at hmem
    exact (List.mem_append.mp hmem).resolve_right fun hnew => (hall _ hnew).unauthenticated _ _ rfl
  refine ⟨⟨?_, ?_⟩, ?_, ?_⟩
  · intro before o after hlog ready id ho
    rw [hready, hid]
    rw [hl] at hlog
    rcases List.append_eq_append_iff.mp hlog with ⟨m, rfl, hm⟩ | ⟨m, hm, hm'⟩
    · -- the entry is new, and what it is made for was authenticated before the turn
      obtain ⟨rfl, hisReady, rfl⟩ := (hall o (hm ▸ List.mem_append_right m List.mem_cons_self)).used
        ready id ho
      obtain ⟨-, peer, hpeer, hpeerId⟩ := h.ready hisReady
      exact ⟨rfl, ⟨peer, List.mem_append_left _ hpeer, hpeerId⟩, hisReady, rfl⟩
    · cases m with
      | nil =>
          have hnew : o ∈ l := by
            rw [List.nil_append] at hm'
            exact hm' ▸ List.mem_cons_self
          obtain ⟨rfl, hisReady, rfl⟩ := (hall o hnew).used ready id ho
          obtain ⟨-, peer, hpeer, hpeerId⟩ := h.ready hisReady
          rw [List.append_nil] at hm
          exact ⟨rfl, ⟨peer, hm ▸ hpeer, hpeerId⟩, hisReady, rfl⟩
      | cons x m =>
          obtain ⟨rfl, -⟩ := List.cons.inj hm'
          exact h.used before o m hm ready id ho
  · exact fun peer ok peer' ok' hp hp' => h.session peer ok peer' ok' (hold hp) (hold hp')
  · intro hisReady
    rw [hready] at hisReady
    obtain ⟨hne, peer, hpeer, hpeerId⟩ := h.ready hisReady
    exact ⟨fun hhs => hne (hstate hhs), peer, hl ▸ List.mem_append_left l hpeer, hid.trans hpeerId⟩
  · exact fun hhs peer ok hmem => h.shaking (hstate hhs) peer ok (hold hmem)

/-- A connection without a history. -/
theorem Conn.Gate.of_new {c : Conn} (hlog : c.log = []) (hready : c.identityReady = false) :
    c.Gate cfg := by
  refine ⟨⟨?_, ?_⟩, ?_, ?_⟩
  · intro before o after h
    rw [hlog] at h
    exact absurd h (by simp)
  · exact fun peer ok peer' ok' h => absurd (hlog ▸ h) (by simp)
  · exact fun h => nomatch hready.symm.trans h
  · exact fun _ peer ok h => absurd (hlog ▸ h) (by simp)

/-- The handshake is over: what the certificate says becomes the identity, if it is of use. -/
theorem Conn.Gate.handshake {c : Conn} (h : c.Gate cfg) (hstate : c.state = .tlsHs) (peer : Peer) :
    (tlsOnHandshakeDone cfg peer c).1.Gate cfg := by
  have hready : c.identityReady = false := by
    cases hr : c.identityReady with
    | false => rfl
    | true => exact absurd hstate (h.ready hr).1
  have hlog : (tlsOnHandshakeDone cfg peer c).1.log = c.log ++ [.authenticated peer.id peer.ok] := by
    unfold tlsOnHandshakeDone
    split <;> rfl
  have hentry : ∀ {o}, o ∈ (tlsOnHandshakeDone cfg peer c).1.log → o ∈ c.log ∨
      o = .authenticated peer.id peer.ok := by
    intro o ho
    rw [hlog] at ho
    exact (List.mem_append.mp ho).imp_right List.mem_singleton.mp
  have honly : ∀ {p ok}, .authenticated p ok ∈ (tlsOnHandshakeDone cfg peer c).1.log →
      p = peer.id ∧ ok = peer.ok := by
    intro p ok hmem
    rcases hentry hmem with hold | hnew
    · exact absurd hold (h.shaking hstate p ok)
    · cases hnew
      exact ⟨rfl, rfl⟩
  refine ⟨⟨?_, ?_⟩, ?_, ?_⟩
  · intro before o after hsplit ready id ho
    rcases hentry (hsplit ▸ List.mem_append_right before List.mem_cons_self) with hold | hnew
    · exact absurd hold (h.unused hstate ho)
    · rcases ho with rfl | rfl <;> cases hnew
  · intro p ok p' ok' hp hp'
    rw [(honly hp).1, (honly hp).2, (honly hp').1, (honly hp').2]
    exact ⟨rfl, rfl⟩
  · intro hisReady
    refine ⟨?_, peer.id, ?_, ?_⟩
    · rw [handshake_active]
      rintro ⟨⟩
    · rw [hlog]
      refine List.mem_append_right _ (List.mem_singleton.mpr ?_)
      cases hok : peer.ok with
      | true => rfl
      | false =>
          simp only [tlsOnHandshakeDone, hok, Conn.note] at hisReady
          cases hready.symm.trans hisReady
    · unfold tlsOnHandshakeDone at hisReady ⊢
      split at hisReady
      · rename_i hok
        rw [if_pos hok]
        rfl
      · cases hready.symm.trans hisReady
  · intro hhs
    rw [handshake_active] at hhs
    cases hhs

/-- A turn of a connection that is not open is the end of its handshake, or leaves it who it is. -/
theorem Act.shaking {hasPool : Bool} {c c' : Cell} {h h' : BackendConn}
    (ha : Act w cfg hasPool c h c' h') (ht : c.conn.Tidy) (hstate : c.conn.state = .tlsHs) :
    (∃ peer, c'.conn = (tlsOnHandshakeDone cfg peer c.conn).1) ∨
      c'.conn.id = c.conn.id ∧ c'.conn.identityReady = c.conn.identityReady ∧
        Enters (fun o => ∀ peer ok, o ≠ .authenticated peer ok) c.conn c'.conn := by
  have hopen : ¬ c.conn.Open := fun h => h.2 hstate
  obtain ⟨hwait, hqueue, -⟩ := ht hopen
  cases ha with
  | io hio =>
      refine Or.inr ⟨by rw [hio.conn], by rw [hio.conn], (outputs_io hio).asides.mono ?_⟩
      rintro o ho peer ok rfl
      cases ho
  | feed hopen' => exact absurd hopen' hopen
  | startup hopen' => exact absurd hopen' hopen
  | ignore => exact Or.inr ⟨rfl, rfl, .note _ nofun⟩
  | terminate hopen' => exact absurd hopen' hopen
  | enqueue hbusy => exact absurd hwait hbusy
  | answer harrive => exact absurd (harrive.open ht) hopen
  | begin harrive => exact absurd (harrive.open ht) hopen
  | park harrive => exact absurd (harrive.open ht) hopen
  | bind harrive => exact absurd (harrive.open ht) hopen
  | lost harrive => exact absurd (harrive.open ht) hopen
  | lostCut harrive => exact absurd (harrive.open ht) hopen
  | draining v => exact Or.inr ⟨rfl, rfl, .of_log rfl⟩
  | unpark => exact Or.inr ⟨rfl, rfl, .of_log rfl⟩
  | repark _ hne => exact absurd hqueue hne
  | handshake peer => exact Or.inl ⟨peer, rfl⟩
  | closing hopen' => exact absurd hopen' hopen

/-- Every turn keeps the gate. -/
theorem Conn.Gate.act {hasPool : Bool} {c c' : Cell} {h h' : BackendConn}
    (hmtls : cfg.requireMtls = true) (hc : c.conn.Gate cfg) (ht : c.conn.Tidy)
    (ha : Act w cfg hasPool c h c' h') : c'.conn.Gate cfg := by
  have hkeeps := ha.grows.keeps
  by_cases hstate : c.conn.state = .tlsHs
  · rcases ha.shaking ht hstate with ⟨peer, heq⟩ | ⟨hid, hready, l, hl, hnone⟩
    · rw [heq]
      exact hc.handshake hstate peer
    · obtain ⟨l', hl', htells⟩ := ha.tells ht
      obtain rfl : l = l' := List.append_cancel_left (hl.symm.trans hl')
      refine hc.goesOn ⟨l, hl, fun o ho => ⟨hnone o ho, ?_⟩⟩ hid hready hkeeps.hs
      rintro ready id (rfl | rfl)
      · exact absurd hstate (htells _ ho).1.2
      · exact absurd hstate (hc.ready (htells _ ho).1).1
  · obtain ⟨hid, hready⟩ := hkeeps.identity hstate
    exact hc.goesOn ((ha.tells ht).mono fun o => Obs.suits_of_tells hmtls hstate) hid hready hkeeps.hs

theorem suits_other (c : Conn) {o : Obs} (hauth : ∀ peer ok, o ≠ .authenticated peer ok)
    (hfed : ∀ ready id, o ≠ .fed ready id) (hcheckout : ∀ ready id, o ≠ .checkout ready id) :
    o.Suits c :=
  ⟨hauth, fun ready id ho => ho.elim (fun h => absurd h (hfed ready id))
    fun h => absurd h (hcheckout ready id)⟩

/-- The gate is kept by everything that happens to a connection. -/
theorem gate_stable {hasPool : Bool} (hmtls : cfg.requireMtls = true) :
    Conn.Stable w cfg true hasPool (fun _ => False) (fun _ _ => True) (Conn.Gate cfg) where
  fresh := fun gen => .of_new rfl rfl
  admits := by
    intro s gen fd c _ htls hadmits
    cases hadmits with
    | cut => exact .of_new rfl rfl
    | tls => exact .of_new rfl rfl
    | plain hplain => exact nomatch htls.symm.trans hplain
  act := fun ht ha _ hc => hc.act hmtls ht ha
  land := by
    intro r c c' h h' ht _ hl _ hc
    have hopen := hl.open ht
    obtain ⟨hid, hready⟩ := hl.keeps.identity hopen.2
    exact hc.goesOn ((hl.tells cfg hasPool c.conn c'.conn).mono fun o => Obs.suits_of_tells hmtls hopen.2)
      hid hready hl.keeps.hs
  delivered := by
    intro r c _ _ hc
    cases r.op <;> exact hc.goesOn (.of_log rfl) rfl rfl id
  abandon := by
    intro c _ hc
    have hnote : Enters (Obs.Suits c) c (c.note .closed) := .note c (suits_other c nofun nofun nofun)
    exact hc.goesOn (hnote.trans (.of_log rfl)) rfl rfl id
  close := by
    intro c _ _ _ hc
    have hentry : (Obs.discarded c.feQ.toList).Suits c := suits_other c nofun nofun nofun
    exact hc.goesOn ⟨[.discarded c.feQ.toList], rfl, by simpa using hentry⟩ rfl rfl nofun

/-- On a TLS server that requires certificates, input is only decoded and backends are only checked out
for a connection with the identity that the certificate of its session gave it. -/
theorem identity_gated {nonblock : Bool} {now : Nat} (htls : cfg.plain = false)
    (hmtls : cfg.requireMtls = true) (inputs : List Input) (i : Slot) :
    ((Runs.run (step w env) (start env cfg nonblock now) inputs).conns i).Gated cfg := by
  have hstable : Conn.Stable w cfg (!cfg.plain) (start env cfg nonblock now).pool.isSome
      (fun _ => False) (fun _ _ => True) (Conn.Gate cfg) := by
    rw [htls]
    exact gate_stable hmtls
  exact (hstable.run (Server.Stable.along_any _ inputs) i).toGated

/-- A TLS server that requires certificates. -/
def gateConfig : Config := { smallConfig with plain := false, requireMtls := true, identitySlot := 3 }

/-- A client is accepted, and sends its first messages. -/
def gateInputs : List Input :=
  [acceptsTls 0, polls 0 0 [[.startup, .parse smallParse, .bind smallBind]]]

theorem identity_gated_client :
    ((Runs.run (step pgWire smallEnv) (start smallEnv gateConfig true 0) gateInputs).conns
        ⟨0, by decide⟩).Gated gateConfig ∧
      .fed true ⟨"r1".toList, "blue".toList, 3⟩ ∈ ((Runs.run (step pgWire smallEnv)
        (start smallEnv gateConfig true 0) gateInputs).conns ⟨0, by decide⟩).log :=
  ⟨identity_gated rfl rfl gateInputs _, by decide +kernel⟩

end
