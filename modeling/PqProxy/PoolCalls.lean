import PqProxy.PoolExclusive

/-! What the event loop relies on when it calls the pool for a connection: the pool keeps its setup,
only the backend that is handed out becomes busy, and nothing is written but the pipeline of the
call. -/

/-- The parts of the pool that stay as they were made. -/
def Pool.setup (p : Pool) : BackendConfig × Bool := (p.cfg, p.useGroupAsUser)

/-- The setup stays, and as long as backends are not probed nothing is written. -/
structure Silent (p p' : Pool) : Prop where
  setup : p'.setup = p.setup
  written : p.cfg.healthCheckOnCheckout = false → p'.written = p.written

theorem Silent.refl (p : Pool) : Silent p p := ⟨rfl, fun _ => rfl⟩

theorem Pool.cfg_eq {p q : Pool} (h : q.setup = p.setup) : q.cfg = p.cfg := congrArg Prod.fst h

theorem Silent.trans {p q r : Pool} (h : Silent p q) (k : Silent q r) : Silent p r where
  setup := k.setup.trans h.setup
  written := fun hoff => (k.written (by rw [Pool.cfg_eq h.setup, hoff])).trans (h.written hoff)

theorem silent_setConn (p : Pool) (b : Nat) (c : BackendConn) : Silent p (p.setConn b c) :=
  ⟨rfl, fun _ => rfl⟩

theorem silent_tick (p : Pool) : Silent p p.tick := ⟨rfl, fun _ => rfl⟩

theorem silent_newSession (p : Pool) : Silent p p.newSession := ⟨rfl, fun _ => rfl⟩

section

variable (w : Pqwire) (env : Env)

theorem silent_warmOne (p : Pool) (b : Nat) (user : Text) :
    Silent p (warmOne env p b user).1 := by
  have hdown := silent_setConn p b (p.conns b).teardownIo
  unfold warmOne
  dsimp only
  split
  · exact hdown.trans (silent_tick _)
  · have hnew := hdown.trans ((silent_tick _).trans (silent_newSession _))
    split
    · exact hnew.trans (silent_setConn _ b _)
    · split
      · exact hnew.trans (silent_setConn _ b _)
      · exact hnew.trans (silent_setConn _ b _)

theorem silent_reconnect (p : Pool) (b : Nat) : Silent p (reconnect env p b).1 := by
  have hwarm := silent_warmOne env p b
    ((if (p.conns b).loginUser = [] then p.user else (p.conns b).loginUser).copyTo 128)
  unfold reconnect
  dsimp only
  split
  · rename_i q heq
    rw [heq] at hwarm
    exact hwarm
  · rename_i q heq
    rw [heq] at hwarm
    exact hwarm.trans (silent_setConn q b _)

theorem silent_maintainFrom (bs : List Nat) (p : Pool) : Silent p (maintainFrom env bs p) := by
  induction bs generalizing p with
  | nil => exact .refl p
  | cons b bs ih =>
      rw [maintainFrom]
      split
      · exact (silent_reconnect env p b).trans (ih _)
      · exact ih p

theorem silent_poolMaintain (p : Pool) : Silent p (poolMaintain env p) := by
  unfold poolMaintain
  split
  · exact silent_maintainFrom env _ p
  · exact .refl p

theorem silent_warmSlots (plan : List (Nat × Text)) (p : Pool) (ok : Nat) :
    Silent p (warmSlots env plan p ok).1 := by
  induction plan generalizing p ok with
  | nil => exact .refl p
  | cons x plan ih => exact (silent_warmOne env p x.1 x.2).trans (ih _ _)

/-- A new pool has the configuration it was made for, and nothing was written yet. -/
theorem poolCreate_silent {cfg : BackendConfig} {p : Pool} (h : poolCreate env cfg = some p) :
    p.cfg = cfg ∧ (cfg.healthCheckOnCheckout = false → p.written = []) := by
  unfold poolCreate at h
  dsimp only at h
  split at h
  · cases h
  · rename_i q n heq
    cases h
    have hsilent := congrArg Prod.fst heq ▸ silent_warmSlots env _ _ 0
    exact ⟨Pool.cfg_eq hsilent.setup, hsilent.written⟩

theorem setNonblock_conn (p : Pool) (b : Nat) : (poolSetNonblock p).conns b =
    { p.conns b with nonblock := ((poolSetNonblock p).conns b).nonblock } := by
  unfold poolSetNonblock
  dsimp only
  split <;> rfl

theorem setNonblock_wf {p : Pool} (h : p.Wf) : (poolSetNonblock p).Wf := by
  have hfd : ∀ b, ((poolSetNonblock p).conns b).fd = (p.conns b).fd := fun b => by
    rw [setNonblock_conn]
  have halive : ∀ b, ((poolSetNonblock p).conns b).alive = (p.conns b).alive := fun b => by
    rw [setNonblock_conn]
  refine ⟨fun a b => ?_, fun b hb => ?_, fun b hb => ?_⟩
  · rw [hfd, hfd]
    exact h.distinct a b
  · rw [hfd] at hb
    exact h.inside b hb
  · rw [halive] at hb
    rw [hfd]
    exact h.opened b hb

theorem setup_setConn (p : Pool) (b : Nat) (c : BackendConn) : (p.setConn b c).setup = p.setup := rfl

theorem setup_flush (p : Pool) (b cap : Nat) (skip : Bool) :
    (flushPipelineEx w env p b cap skip).1.setup = p.setup := rfl

theorem setup_healthCheck (p : Pool) (b : Nat) : (healthCheck w env p b).1.setup = p.setup := by
  unfold healthCheck
  dsimp only
  split
  · rfl
  · split
    · exact setup_setConn p b _
    · split
      · rw [setup_setConn, setup_flush, setup_setConn]
      · rw [setup_setConn, setup_flush, setup_setConn]

/-- A probe is the only thing that a checkout writes. -/
theorem silent_checkoutTry (p : Pool) (b : Nat) : Silent p (checkoutTry w env p b).1 := by
  unfold checkoutTry
  dsimp only
  split
  · exact .refl p
  · split
    · exact silent_setConn p b _
    · rename_i hprobe
      have hcheck := setup_healthCheck w env (p.setConn b { p.conns b with busy := true }) b
      have hof : ∀ q : Pool, q.setup = p.setup → Silent p q := fun q hq =>
        ⟨hq, fun hoff => absurd hoff hprobe⟩
      split
      · rename_i q heq
        rw [heq] at hcheck
        exact hof q hcheck
      · rename_i q heq
        rw [heq] at hcheck
        split
        · exact hof _ hcheck
        · have hre := (silent_reconnect env (q.setConn b { q.conns b with busy := false }) b).setup
          split
          · rename_i r hr
            rw [hr] at hre
            exact hof _ (hre.trans hcheck)
          · rename_i r hr
            rw [hr] at hre
            exact hof _ (hre.trans hcheck)

theorem silent_checkoutScan (group : Text) (order : List Nat) (fallback : Option Nat) (p : Pool) :
    Silent p (checkoutScan w env group order fallback p).1 := by
  induction order generalizing fallback p with
  | nil => exact .refl p
  | cons idx order ih =>
      rw [checkoutScan]
      split
      · exact ih fallback p
      · split
        · have htry := silent_checkoutTry w env p idx
          split
          · rename_i q heq
            rw [heq] at htry
            exact htry.trans ⟨rfl, fun _ => rfl⟩
          · rename_i q heq
            rw [heq] at htry
            exact htry.trans (ih fallback q)
        · exact ih _ p

theorem silent_checkoutGroup (group : Text) (order : List Nat) (p : Pool) :
    Silent p (checkoutGroup w env group order p).1 := by
  induction order generalizing p with
  | nil => exact .refl p
  | cons idx order ih =>
      rw [checkoutGroup]
      split
      · have htry := silent_checkoutTry w env p idx
        split
        · rename_i q heq
          rw [heq] at htry
          exact htry.trans ⟨rfl, fun _ => rfl⟩
        · rename_i q heq
          rw [heq] at htry
          exact htry.trans (ih q)
      · exact ih p

theorem silent_checkoutLazy (group : Text) (order : List Nat) (p : Pool) :
    Silent p (checkoutLazy env group order p).1 := by
  induction order with
  | nil => exact .refl p
  | cons idx order ih =>
      rw [checkoutLazy]
      split
      · exact ih
      · have hwarm := silent_warmOne env p idx group
        split
        · rename_i q heq
          rw [heq] at hwarm
          exact hwarm.trans ⟨rfl, fun _ => rfl⟩
        · rename_i q heq
          rw [heq] at hwarm
          exact hwarm

theorem silent_checkout (p : Pool) (group : Text) : Silent p (checkout w env p group).1 := by
  unfold checkout
  split
  · exact .refl p
  · have hmaintain := silent_poolMaintain env p
    dsimp only
    generalize poolMaintain env p = q at hmaintain ⊢
    generalize searchOrder q = order
    have hscan := silent_checkoutScan w env group order none q
    refine hmaintain.trans ?_
    split
    · rename_i r idx fallback heq
      rw [heq] at hscan
      exact hscan
    · rename_i r fallback heq
      rw [heq] at hscan
      refine hscan.trans ?_
      split
      · have hgroup := silent_checkoutGroup w env group order r
        split
        · rename_i t idx heq'
          rw [heq'] at hgroup
          exact hgroup
        · rename_i t heq'
          rw [heq'] at hgroup
          refine hgroup.trans ?_
          split
          · exact silent_checkoutLazy env group order t
          · exact .refl t
      · cases fallback with
        | none => exact .refl r
        | some idx =>
            have htry := silent_checkoutTry w env r idx
            dsimp only
            split
            · rename_i t heq'
              rw [heq'] at htry
              exact htry.trans ⟨rfl, fun _ => rfl⟩
            · rename_i t heq'
              rw [heq'] at htry
              exact htry

/-- What a call does to a pool whose result for the caller is `r`. -/
structure Call (p p' : Pool) (r : Option Nat) : Prop extends Spares p p' where
  setup : p'.setup = p.setup
  busy : ∀ a, (p'.conns a).busy = true → r = some a ∨ (p.conns a).busy = true

/-- The bytes that are moved to the send buffer, when they fit. -/
theorem fillSend_spec (fuel : Nat) (out : Bytes) (c : BackendConn) (hfuel : out.length < fuel) :
    ((fillSend fuel out c).2 = true ↔ out = [] ∨ c.sendLen + out.length ≤ beSendCap) ∧
      ((fillSend fuel out c).2 = true →
        (fillSend fuel out c).1.sendLen = c.sendLen + out.length ∧
          (fillSend fuel out c).1.sendBuf.read 0 (c.sendLen + out.length) =
            c.sendBuf.read 0 c.sendLen ++ out) := by
  induction fuel generalizing out c with
  | zero => exact absurd hfuel (Nat.not_lt_zero _)
  | succ fuel ih =>
      rw [fillSend]
      split
      · rename_i hnil
        have hout : out = [] := by
          rcases List.take_eq_nil_iff.mp hnil with h | h
          · cases h
          · exact h
        rw [hout]
        exact ⟨⟨fun _ => Or.inl rfl, fun _ => rfl⟩, fun _ => ⟨rfl, (List.append_nil _).symm⟩⟩
      · rename_i hne
        have hout : out ≠ [] := by
          rintro rfl
          exact hne List.take_nil
        have hpos := List.length_pos_iff.mpr hout
        split
        · rename_i hfull
          rw [List.length_take] at hfull
          refine ⟨⟨by rintro ⟨⟩, ?_⟩, by rintro ⟨⟩⟩
          rintro (h | h)
          · exact absurd h hout
          · omega
        · rename_i hroom
          rw [List.length_take] at hroom
          obtain ⟨hfits, hread⟩ := ih (out.drop 4096)
            { c with
              sendBuf := c.sendBuf.write c.sendLen (out.take 4096)
              sendLen := c.sendLen + (out.take 4096).length }
            (by rw [List.length_drop]; omega)
          have hsum : c.sendLen + (out.take 4096).length + (out.drop 4096).length =
              c.sendLen + out.length := by
            rw [List.length_take, List.length_drop]
            omega
          simp only [hsum] at hfits hread
          refine ⟨hfits.trans ?_, fun h => ?_⟩
          · rw [List.drop_eq_nil_iff]
            constructor
            · rintro (h | h)
              · exact Or.inr (by omega)
              · exact Or.inr h
            · rintro (h | h)
              · exact absurd h hout
              · exact Or.inr h
          · obtain ⟨hlen, hbytes⟩ := hread h
            refine ⟨hlen, hbytes.trans ?_⟩
            rw [Mem.read_write_append, List.append_assoc, List.take_append_drop]

/-- What `pqproxy_backend_async_begin` writes on success is the pipeline of the Bind. -/
theorem asyncBegin_call (p : Pool) (cache : StmtCache) (bind : PqBind) (owner : Identity) :
    Call p (asyncBegin w env p cache bind owner).1 (asyncBegin w env p cache bind owner).2 ∧
      (p.cfg.healthCheckOnCheckout = false →
        (asyncBegin w env p cache bind owner).1.written = p.written ∨
          (bindPipeline w cache bind owner).2 = true ∧
            (asyncBegin w env p cache bind owner).1.written =
              p.written ++ [(bindPipeline w cache bind owner).1]) := by
  have hspares := (asyncBegin_spec w env p cache bind owner).1
  obtain ⟨hsetup, hwritten⟩ := silent_checkout w env p owner.group
  obtain ⟨hgrants, -⟩ := grants_checkout w env p owner.group
  revert hspares
  unfold asyncBegin
  generalize checkout w env p owner.group = r at hsetup hwritten hgrants
  obtain ⟨q, _ | b⟩ := r
  · exact fun hspares => ⟨⟨hspares, hsetup, fun a ha => Or.inr (hgrants.others a nofun ▸ ha)⟩,
      fun hoff => Or.inl (hwritten hoff)⟩
  · -- the backend that was checked out is given back, or stays busy
    have hback : ∀ (c : BackendConn) (a : Nat),
        ((checkin (q.setConn b c) b).conns a).busy = true → (p.conns a).busy = true := by
      intro c a ha
      by_cases hab : a = b
      · rw [hab, checkin, Pool.setConn_self] at ha
        cases ha
      · rw [checkin, Pool.setConn_of_ne _ hab, Pool.setConn_of_ne _ hab] at ha
        exact hgrants.others a (fun h => hab (Option.some.inj h).symm) ▸ ha
    have hkept : ∀ (c : BackendConn) (a : Nat),
        ((q.setConn b c).conns a).busy = true → some b = some a ∨ (p.conns a).busy = true := by
      intro c a ha
      by_cases hab : a = b
      · exact Or.inl (by rw [hab])
      · rw [Pool.setConn_of_ne _ hab] at ha
        exact Or.inr (hgrants.others a (fun h => hab (Option.some.inj h).symm) ▸ ha)
    dsimp only
    generalize bindPipeline w cache bind owner = pipeline
    obtain ⟨out, _ | _⟩ := pipeline
    · exact fun hspares => ⟨⟨hspares, hsetup, fun a ha => Or.inr (hback _ a ha)⟩,
        fun hoff => Or.inl (hwritten hoff)⟩
    · dsimp only
      obtain ⟨-, hread⟩ := fillSend_spec (out.length + 1) out
        { q.conns b with
          wire := some [], sendLen := 0, sendOff := 0, recvAccLen := 0, skipParseBind := true,
          pipeSt := .init } (Nat.lt_succ_self _)
      generalize fillSend (out.length + 1) out _ = filled at hread ⊢
      obtain ⟨c, fits⟩ := filled
      dsimp only at hread ⊢
      split
      · exact fun hspares => ⟨⟨hspares, hsetup, fun a ha => Or.inr (hback _ a ha)⟩,
          fun hoff => Or.inl (hwritten hoff)⟩
      · rename_i hgo
        have hfits : fits = true := by simpa using fun h => hgo (Or.inl h)
        obtain ⟨hlen, hbytes⟩ := hread hfits
        rw [Nat.zero_add] at hlen hbytes
        refine fun hspares => ⟨⟨hspares, hsetup, hkept c⟩, fun hoff => Or.inr ⟨rfl, ?_⟩⟩
        rw [hlen, hbytes]
        exact congrArg (· ++ _) (hwritten hoff)

/-- A blocking call writes the pipeline it was given, or nothing. -/
theorem execOn_call (p : Pool) (group : Text) (cap : Nat) (skip : Bool) (fill : Bytes × Bool) :
    Call p (execOn w env p group cap skip fill).1 none ∧
      (p.cfg.healthCheckOnCheckout = false →
        (execOn w env p group cap skip fill).1.written = p.written ∨
          fill.2 = true ∧ fill.1 ≠ [] ∧
            (execOn w env p group cap skip fill).1.written = p.written ++ [fill.1]) := by
  have hspares := execOn_spares w env p group cap skip fill
  obtain ⟨hsetup, hwritten⟩ := silent_checkout w env p group
  obtain ⟨hgrants, -⟩ := grants_checkout w env p group
  revert hspares
  unfold execOn
  generalize checkout w env p group = r at hsetup hwritten hgrants
  obtain ⟨q, _ | b⟩ := r
  · exact fun hspares => ⟨⟨hspares, hsetup, fun a ha => Or.inr (hgrants.others a nofun ▸ ha)⟩,
      fun hoff => Or.inl (hwritten hoff)⟩
  · have hback : ∀ (t : Pool), (∀ a, a ≠ b → (t.conns a).busy = (q.conns a).busy) →
        ∀ a, ((checkin t b).conns a).busy = true → (p.conns a).busy = true := by
      intro t ht a ha
      by_cases hab : a = b
      · rw [hab, checkin, Pool.setConn_self] at ha
        cases ha
      · rw [checkin, Pool.setConn_of_ne _ hab, ht a hab] at ha
        exact hgrants.others a (fun h => hab (Option.some.inj h).symm) ▸ ha
    dsimp only
    split
    · refine fun hspares => ⟨⟨hspares, ?_, fun a ha => Or.inr (hback _ ?_ a ha)⟩, fun hoff => ?_⟩
      · rw [checkin, setup_setConn, setup_setConn]
        exact hsetup
      · intro a hab
        rw [Pool.setConn_of_ne _ hab]
      · exact Or.inl (hwritten hoff)
    · rename_i hfill
      refine fun hspares => ⟨⟨hspares, ?_, fun a ha => Or.inr (hback _ ?_ a ha)⟩, fun hoff => ?_⟩
      · rw [checkin, setup_setConn, setup_flush, setup_setConn]
        exact hsetup
      · intro a hab
        rw [(touches_flush w env _ b cap skip).others a hab, Pool.setConn_of_ne _ hab]
      · have hflush : (flushPipelineEx w env
            (q.setConn b { q.conns b with wire := some fill.1 }) b cap skip).1.written =
            p.written ++ ((q.setConn b { q.conns b with wire := some fill.1 }).conns b).toWrite :=
          congrArg (· ++ _) (hwritten hoff)
        change (flushPipelineEx w env
          (q.setConn b { q.conns b with wire := some fill.1 }) b cap skip).1.written = _ ∨ _ ∧ _ ∧
            (flushPipelineEx w env
              (q.setConn b { q.conns b with wire := some fill.1 }) b cap skip).1.written = _
        rw [hflush, Pool.setConn_self]
        unfold BackendConn.toWrite
        dsimp only
        split
        · rename_i pending halive hpending
          cases hpending
          split
          · exact Or.inl (List.append_nil _)
          · rename_i hne
            exact Or.inr ⟨by simpa using hfill, hne, rfl⟩
        · exact Or.inl (List.append_nil _)

theorem execQuery_call (p : Pool) (group sql : Text) (cap : Nat) :
    Call p (execQuery w env p group sql cap).1 none := (execOn_call w env ..).1

/-- The end of a pipeline gives back the backend it ran on. -/
theorem asyncFinish_call (p : Pool) {b : Nat} (failed : Bool) :
    Silent p (asyncFinish env p b failed) ∧
      ∀ a, ((asyncFinish env p b failed).conns a).busy = true → (p.conns a).busy = true ∧ a ≠ b := by
  obtain ⟨hothers, hidle⟩ := asyncFinish_marks env p b failed
  refine ⟨?_, fun a ha => ?_⟩
  · unfold asyncFinish checkin
    dsimp only
    refine Silent.trans ?_ ((silent_setConn _ b _).trans (silent_setConn _ b _))
    split
    · exact .refl p
    · split
      · exact (silent_setConn p b _).trans ((silent_reconnect env _ b).trans (silent_setConn _ b _))
      · exact silent_setConn p b _
  · by_cases hab : a = b
    · rw [hab, hidle] at ha
      cases ha
    · exact ⟨hothers a hab ▸ ha, hab⟩

/-! ### The bytes of a pipeline -/

/-- The pipeline of a Bind: the cached statement, the parameters with one replaced by the identity. -/
def pipelineOf (prep : PreparedStmt) (bind : PqBind) (slot : Nat) (owner : Identity) : List ClientMsg :=
  [.parse [] prep.query prep.paramTypeOids,
    .bind [] [] (bind.params.set slot ⟨0, some owner.routerId.bytes⟩) bind.resultFormats,
    .execute [] 0, .sync]

theorem send_out {o o' : Outbox} {m : ClientMsg} (h : o.send w m = some o') :
    o'.out = o.out ++ w.encodeClient m := by
  unfold Outbox.send at h
  split at h
  · cases h
    rfl
  · cases h

variable {w}

theorem sendBind_out (hw : w.ReplacesSlot) {o o' : Outbox} {bind : PqBind} {slot : Nat}
    {owner : Identity} (h : sendBind w o bind slot owner = some o') :
    o'.out = o.out ++ w.encodeClient
      (.bind [] [] (bind.params.set slot ⟨0, some owner.routerId.bytes⟩) bind.resultFormats) := by
  unfold sendBind at h
  split at h
  · rename_i o₁ heq
    cases h
    obtain ⟨ps, hps, hsend⟩ := Option.bind_eq_some_iff.mp heq
    rw [send_out w hsend, hw.rewrites bind slot _ ps hps]
  · obtain ⟨ps, hps, hsend⟩ := Option.bind_eq_some_iff.mp h
    rw [send_out w hsend, hw.injects bind slot _ ps hps]

/-- A pipeline that is put into an empty context is whole. -/
theorem bindPipeline_whole (hw : w.ReplacesSlot) {cache : StmtCache} {bind : PqBind}
    {owner : Identity} (hok : (bindPipeline w cache bind owner).2 = true) :
    ∃ prep slot, stmtCacheGet cache bind.statement = some prep ∧ slot < bind.params.length ∧
      (bindPipeline w cache bind owner).1 =
        (pipelineOf prep bind slot owner).flatMap w.encodeClient := by
  unfold bindPipeline onBind at hok ⊢
  cases hget : stmtCacheGet cache bind.statement with
  | none =>
      rw [hget] at hok
      cases hok
  | some prep =>
      rw [hget] at hok
      dsimp only at hok ⊢
      refine ⟨prep, bindSlot owner prep, rfl, ?_⟩
      split at hok
      · cases hok
      · rename_i hslot
        rw [if_neg hslot]
        refine ⟨by omega, ?_⟩
        cases hparse : Outbox.send w ⟨[], []⟩ (.parse [] prep.query prep.paramTypeOids) with
        | none =>
            rw [hparse] at hok
            cases hok
        | some o₁ =>
            rw [hparse] at hok
            dsimp only at hok ⊢
            cases hbind : sendBind w o₁ bind (bindSlot owner prep) owner with
            | none =>
                rw [hbind] at hok
                cases hok
            | some o₂ =>
                rw [hbind] at hok
                dsimp only at hok ⊢
                cases hexec : o₂.send w (.execute [] 0) with
                | none =>
                    rw [hexec] at hok
                    cases hok
                | some o₃ =>
                    rw [hexec] at hok
                    dsimp only at hok ⊢
                    cases hsync : o₃.send w .sync with
                    | none =>
                        rw [hsync] at hok
                        cases hok
                    | some o₄ =>
                        simp [send_out w hsync, send_out w hexec, sendBind_out hw hbind,
                          send_out w hparse, pipelineOf]

variable (w)

/-! ### No backend to hand out -/

/-- A connection that could be handed out for the group. -/
def Pool.Offers (p : Pool) (group : Text) (b : Nat) : Prop :=
  (p.conns b).alive = true ∧ (p.conns b).busy = false ∧
    (p.useGroupAsUser = true → (p.conns b).loginUser = group)

/-- Without probes a connection that is idle is handed out. -/
theorem checkoutTry_idle {p : Pool} (hoff : p.cfg.healthCheckOnCheckout = false) {b : Nat}
    (h : (p.conns b).alive = true ∧ (p.conns b).busy = false) : (checkoutTry w env p b).2 = true := by
  unfold checkoutTry
  dsimp only
  rw [if_neg (by simp [h.1, h.2])]
  split
  · rfl
  · rename_i hprobe
    exact absurd hoff hprobe

/-- When the first loop finds nothing, no connection of the group is idle, and any other idle one is
remembered. -/
theorem checkoutScan_none {p : Pool} (hoff : p.cfg.healthCheckOnCheckout = false) (group : Text)
    (order : List Nat) (fallback : Option Nat)
    (hfree : ∀ b, fallback = some b → (p.conns b).alive = true ∧ (p.conns b).busy = false)
    (hnone : (checkoutScan w env group order fallback p).2.1 = none) :
    (checkoutScan w env group order fallback p).1 = p ∧
      (fallback ≠ none → (checkoutScan w env group order fallback p).2.2 ≠ none) ∧
      (∀ b, (checkoutScan w env group order fallback p).2.2 = some b →
        (p.conns b).alive = true ∧ (p.conns b).busy = false) ∧
      ∀ b ∈ order, (p.conns b).alive = true → (p.conns b).busy = false →
        ¬ (group ≠ [] ∧ (p.conns b).loginUser = group) ∧
          (checkoutScan w env group order fallback p).2.2 ≠ none := by
  induction order generalizing fallback with
  | nil => exact ⟨rfl, id, hfree, by simp⟩
  | cons idx order ih =>
      rw [checkoutScan] at hnone ⊢
      split at hnone
      · rename_i hbusy
        rw [if_pos hbusy]
        obtain ⟨hsame, hfall, hres, hall⟩ := ih fallback hfree hnone
        refine ⟨hsame, hfall, hres, ?_⟩
        intro b hb halive hidle
        rcases List.mem_cons.mp hb with rfl | hb
        · rcases hbusy with h | h
          · exact absurd (halive.symm.trans h) (by rintro ⟨⟩)
          · exact absurd (hidle.symm.trans h) (by rintro ⟨⟩)
        · exact hall b hb halive hidle
      · rename_i hbusy
        have hidx : (p.conns idx).alive = true ∧ (p.conns idx).busy = false := by
          simpa [not_or] using hbusy
        rw [if_neg hbusy]
        split at hnone
        · have htry := checkoutTry_idle w env hoff hidx
          generalize checkoutTry w env p idx = r at hnone htry
          obtain ⟨q, ok⟩ := r
          subst htry
          cases hnone
        · rename_i hgroup
          rw [if_neg hgroup]
          have hsome : (fallback.orElse fun _ => some idx) ≠ none := by
            cases fallback <;> rintro ⟨⟩
          have hfree' : ∀ b, (fallback.orElse fun _ => some idx) = some b →
              (p.conns b).alive = true ∧ (p.conns b).busy = false := by
            intro b hb
            cases fallback with
            | none =>
                cases hb
                exact hidx
            | some a => exact hfree b hb
          obtain ⟨hsame, hfall, hres, hall⟩ := ih _ hfree' hnone
          refine ⟨hsame, fun _ => hfall hsome, hres, ?_⟩
          intro b hb halive hidle
          rcases List.mem_cons.mp hb with rfl | hb
          · exact ⟨hgroup, hfall hsome⟩
          · exact hall b hb halive hidle

theorem checkoutGroup_none {p : Pool} (hoff : p.cfg.healthCheckOnCheckout = false) (group : Text)
    (order : List Nat) (hnone : (checkoutGroup w env group order p).2 = none) :
    (checkoutGroup w env group order p).1 = p := by
  induction order with
  | nil => rfl
  | cons idx order ih =>
      rw [checkoutGroup] at hnone ⊢
      split at hnone
      · rename_i hidle
        have htry := checkoutTry_idle w env hoff ⟨hidle.1, hidle.2.1⟩
        generalize checkoutTry w env p idx = r at hnone htry
        obtain ⟨q, ok⟩ := r
        subst htry
        cases hnone
      · rename_i hbusy
        rw [if_neg hbusy]
        exact ih hnone

/-- A lazy login that fails leaves its slot dead. -/
theorem checkoutLazy_none {p : Pool} (group : Text) (order : List Nat)
    (hnone : (checkoutLazy env group order p).2 = none) (b : Nat) :
    (checkoutLazy env group order p).1.conns b = p.conns b ∨
      ((checkoutLazy env group order p).1.conns b).alive = false := by
  induction order with
  | nil => exact Or.inl rfl
  | cons idx order ih =>
      rw [checkoutLazy] at hnone ⊢
      split at hnone
      · rename_i halive
        rw [if_pos halive]
        exact ih hnone
      · rename_i hdead
        rw [if_neg hdead]
        have hwarm := warmOne_result env p idx group
        have hothers := (warmOne_marks env p idx group).1
        generalize warmOne env p idx group = r at hnone hwarm hothers
        obtain ⟨q, _ | _⟩ := r
        · by_cases hb : b = idx
          · rw [hb]
            exact Or.inr hwarm.1
          · exact Or.inl (hothers b hb)
        · cases hnone

/-- When nothing is handed out, nothing is there to hand out. -/
theorem checkout_none {p : Pool} (hwf : p.Wf) (hoff : p.cfg.healthCheckOnCheckout = false)
    (group : Text) (hnone : (checkout w env p group).2 = none) (b : Nat) :
    ¬ (checkout w env p group).1.Offers group b := by
  rintro ⟨halive, hidle, hlogin⟩
  have hwf' := (checkout_spec w env p group).toIdle.wf hwf
  have hb := hwf'.lt_of_alive halive
  rw [(checkout_spec w env p group).maxConns] at hb
  revert halive hidle hlogin hnone
  unfold checkout
  rw [if_neg (by omega)]
  have hmaintain := silent_poolMaintain env p
  have hmax := (poolMaintain_idle w env p).maxConns
  dsimp only
  generalize poolMaintain env p = q at hmaintain hmax ⊢
  have hoffq : q.cfg.healthCheckOnCheckout = false := by rw [Pool.cfg_eq hmaintain.setup, hoff]
  have hmem : b ∈ searchOrder q := mem_searchOrder (by omega)
  generalize searchOrder q = order at hmem ⊢
  have hscan := checkoutScan_none w env hoffq group order none nofun
  generalize checkoutScan w env group order none q = r at hscan ⊢
  obtain ⟨r, _ | idx, fallback⟩ := r
  swap
  · exact fun h => absurd h nofun
  obtain ⟨hsame, -, hres, hall⟩ := hscan rfl
  dsimp only at hsame hres hall ⊢
  subst hsame
  split
  · rename_i hgroup
    have hby := checkoutGroup_none w env hoffq group order
    generalize checkoutGroup w env group order r = t at hby ⊢
    obtain ⟨t, _ | idx⟩ := t
    swap
    · exact fun h => absurd h nofun
    have htr := hby rfl
    dsimp only at htr ⊢
    subst htr
    split
    · intro hnone halive hidle hlogin
      have huse := (silent_checkoutLazy env group order t).setup
      rcases checkoutLazy_none env group order hnone b with hsame | hdead
      · rw [hsame] at halive hidle hlogin
        refine (hall b hmem halive hidle).1 ⟨hgroup.2, hlogin ?_⟩
        rw [show (checkoutLazy env group order t).1.useGroupAsUser = t.useGroupAsUser from
          congrArg Prod.snd huse]
        exact hgroup.1
      · rw [hdead] at halive
        cases halive
    · exact fun _ halive hidle hlogin => (hall b hmem halive hidle).1 ⟨hgroup.2, hlogin hgroup.1⟩
  · rename_i hgroup
    cases fallback with
    | none => exact fun _ halive hidle _ => (hall b hmem halive hidle).2 rfl
    | some idx =>
        have htry := checkoutTry_idle w env hoffq (hres idx rfl)
        dsimp only
        generalize checkoutTry w env r idx = t at htry ⊢
        obtain ⟨t, ok⟩ := t
        subst htry
        intro h
        cases h

/-- A Bind that could be run is refused only when there is no backend for it. -/
theorem asyncBegin_none {p : Pool} (hwf : p.Wf) (hoff : p.cfg.healthCheckOnCheckout = false)
    (cache : StmtCache) (bind : PqBind) (owner : Identity)
    (hstart : startable w cache bind owner = true)
    (hnone : (asyncBegin w env p cache bind owner).2 = none) (b : Nat) :
    ¬ (asyncBegin w env p cache bind owner).1.Offers owner.group b := by
  have hcheckout := checkout_none w env hwf hoff owner.group
  revert hnone
  unfold asyncBegin
  unfold startable at hstart
  generalize checkout w env p owner.group = r at hcheckout
  generalize bindPipeline w cache bind owner = pipeline at hstart
  obtain ⟨q, _ | a⟩ := r
  · exact fun _ => hcheckout rfl b
  · obtain ⟨out, ok⟩ := pipeline
    simp only [Bool.and_eq_true, decide_eq_true_eq] at hstart
    obtain ⟨⟨rfl, hpos⟩, hcap⟩ := hstart
    dsimp only
    obtain ⟨hfits, hread⟩ := fillSend_spec (out.length + 1) out
      { q.conns a with
        wire := some [], sendLen := 0, sendOff := 0, recvAccLen := 0, skipParseBind := true,
        pipeSt := .init } (Nat.lt_succ_self _)
    generalize fillSend (out.length + 1) out _ = filled at hfits hread ⊢
    obtain ⟨c, fits⟩ := filled
    dsimp only at hfits hread ⊢
    have hok : fits = true := hfits.mpr (Or.inr (by omega))
    have hlen := (hread hok).1
    have hsome : ¬ (fits = false ∨ c.sendLen = 0) := by
      rintro (h | h)
      · rw [hok] at h
        cases h
      · omega
    rw [if_neg hsome]
    exact fun h => absurd h nofun

/-- The same when it is run by blocking calls. -/
theorem execBindEx_unflushed {p : Pool} (hwf : p.Wf) (hoff : p.cfg.healthCheckOnCheckout = false)
    (cache : StmtCache) (bind : PqBind) (owner : Identity) (cap : Nat)
    (hstart : startable w cache bind owner = true)
    (hnone : (execBindEx w env p cache bind owner cap).2.flushed = false) (b : Nat) :
    ¬ (execBindEx w env p cache bind owner cap).1.Offers owner.group b := by
  have hcheckout := checkout_none w env hwf hoff owner.group
  have hfill : (bindPipeline w cache bind owner).2 = true := by
    unfold startable at hstart
    simp only [Bool.and_eq_true] at hstart
    exact hstart.1.1
  revert hnone
  unfold execBindEx execOn
  generalize checkout w env p owner.group = r at hcheckout
  obtain ⟨q, _ | a⟩ := r
  · exact fun _ => hcheckout rfl b
  · dsimp only
    rw [hfill, if_neg (by simp)]
    exact fun h => absurd h nofun

end
