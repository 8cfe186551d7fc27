import PqProxy.PoolPipeline

/-! What the operations of the pool leave alone. Every operation works on one connection, or on
connections that nobody holds; a connection that is alive and checked out keeps its session, its
descriptor and its buffers while other frontends use the pool. -/

/-- Checked out and alive. -/
def BackendConn.Held (c : BackendConn) : Prop := c.busy = true ∧ c.alive = true

/-- A live connection has nothing unread in its socket. -/
def BackendConn.Clean (c : BackendConn) : Prop := c.alive = true → c.inbox = []

/-- Descriptors are not shared, and live connections have one. -/
structure Pool.Wf (p : Pool) : Prop where
  distinct : ∀ a b, (p.conns a).fd = (p.conns b).fd → (p.conns a).fd ≠ none → a = b
  inside : ∀ b, (p.conns b).fd ≠ none → b < p.maxConns
  opened : ∀ b, (p.conns b).alive = true → (p.conns b).fd ≠ none

theorem Pool.Wf.lt_of_alive {p : Pool} (h : p.Wf) {b : Nat} (hb : (p.conns b).alive = true) :
    b < p.maxConns := h.inside b (h.opened b hb)

@[simp] theorem Pool.setConn_self (p : Pool) (b : Nat) (c : BackendConn) :
    (p.setConn b c).conns b = c := Function.update_self ..

theorem Pool.setConn_of_ne (p : Pool) {a b : Nat} (h : a ≠ b) (c : BackendConn) :
    (p.setConn b c).conns a = p.conns a := Function.update_of_ne h ..

@[simp] theorem Pool.wrote_conns (p : Pool) (pipelines : List Bytes) :
    (p.wrote pipelines).conns = p.conns := rfl

/-- `p'` differs from `p` in connection `b` only. -/
structure Touches (b : Nat) (p p' : Pool) : Prop where
  others : ∀ a, a ≠ b → p'.conns a = p.conns a
  maxConns : p'.maxConns = p.maxConns
  wf : p.Wf → p'.Wf

/-- In addition a connection that was clean still is. -/
structure TouchesClean (b : Nat) (p p' : Pool) : Prop extends Touches b p p' where
  clean : (p.conns b).Clean → (p'.conns b).Clean

theorem Touches.trans {b : Nat} {p q r : Pool} (h : Touches b p q) (k : Touches b q r) :
    Touches b p r where
  others := fun a ha => (k.others a ha).trans (h.others a ha)
  maxConns := k.maxConns.trans h.maxConns
  wf := k.wf ∘ h.wf

theorem TouchesClean.trans {b : Nat} {p q r : Pool} (h : TouchesClean b p q)
    (k : TouchesClean b q r) : TouchesClean b p r :=
  ⟨h.toTouches.trans k.toTouches, k.clean ∘ h.clean⟩

/-- The clock, the session count and the cursor are not part of any connection. -/
theorem TouchesClean.of_conns (b : Nat) (p p' : Pool) (hconns : p'.conns = p.conns)
    (hmax : p'.maxConns = p.maxConns) : TouchesClean b p p' where
  others := fun a _ => by rw [hconns]
  maxConns := hmax
  wf := fun h => ⟨by rw [hconns]; exact h.distinct, by rw [hconns, hmax]; exact h.inside,
    by rw [hconns]; exact h.opened⟩
  clean := by rw [hconns]; exact id

theorem TouchesClean.refl (b : Nat) (p : Pool) : TouchesClean b p p := of_conns b p p rfl rfl

theorem touches_tick (b : Nat) (p : Pool) : TouchesClean b p p.tick := .of_conns b p _ rfl rfl

theorem touches_newSession (b : Nat) (p : Pool) : TouchesClean b p p.newSession :=
  .of_conns b p _ rfl rfl

theorem touches_wrote (b : Nat) (p : Pool) (pipelines : List Bytes) :
    TouchesClean b p (p.wrote pipelines) := .of_conns b p _ rfl rfl

/-- Updates that give a connection no other descriptor than its own. -/
theorem touches_setConn {p : Pool} {b : Nat} {c : BackendConn}
    (hfd : c.fd = (p.conns b).fd ∨ c.fd = none)
    (halive : c.alive = true → (p.conns b).alive = true ∧ c.fd = (p.conns b).fd) :
    Touches b p (p.setConn b c) where
  others := fun a ha => p.setConn_of_ne ha c
  maxConns := rfl
  wf := by
    intro h
    have hsub : ∀ a, ((p.setConn b c).conns a).fd ≠ none →
        ((p.setConn b c).conns a).fd = (p.conns a).fd := by
      intro a ha
      by_cases hab : a = b
      · subst hab
        rw [Pool.setConn_self] at ha ⊢
        exact hfd.resolve_right ha
      · rw [p.setConn_of_ne hab]
    refine ⟨?_, ?_, ?_⟩
    · intro a d had ha
      have hd : ((p.setConn b c).conns d).fd ≠ none := had ▸ ha
      apply h.distinct
      · rw [← hsub a ha, ← hsub d hd, had]
      · rw [← hsub a ha]
        exact ha
    · intro a ha
      exact h.inside a (by rw [← hsub a ha]; exact ha)
    · intro a ha
      by_cases hab : a = b
      · subst hab
        rw [Pool.setConn_self] at ha ⊢
        obtain ⟨hold, hsame⟩ := halive ha
        rw [hsame]
        exact h.opened a hold
      · rw [p.setConn_of_ne hab] at ha ⊢
        exact h.opened a ha

theorem touchesClean_setConn {p : Pool} {b : Nat} {c : BackendConn}
    (hfd : c.fd = (p.conns b).fd ∨ c.fd = none)
    (halive : c.alive = true → (p.conns b).alive = true ∧ c.fd = (p.conns b).fd)
    (hclean : (p.conns b).Clean → c.Clean) : TouchesClean b p (p.setConn b c) :=
  ⟨touches_setConn hfd halive, by rw [Pool.setConn_self]; exact hclean⟩

theorem touches_busy (p : Pool) (b : Nat) (v : Bool) :
    TouchesClean b p (p.setConn b { p.conns b with busy := v }) :=
  touchesClean_setConn (Or.inl rfl) (fun h => ⟨h, rfl⟩) id

/-- A torn-down connection is clean, whatever it was before. -/
theorem touches_teardown (p : Pool) (b : Nat) :
    Touches b p (p.setConn b (p.conns b).teardownIo) :=
  touches_setConn (Or.inr rfl) (fun h => by cases h)

theorem clean_teardown (p : Pool) (b : Nat) :
    ((p.setConn b (p.conns b).teardownIo).conns b).Clean := by
  rw [Pool.setConn_self]
  intro h
  cases h

theorem touches_checkin (p : Pool) (b : Nat) : TouchesClean b p (checkin p b) :=
  touches_busy p b false

theorem Pool.isOpen_eq_false {p : Pool} (h : p.Wf) {fd : Nat} (hfd : p.isOpen fd = false) (a : Nat) :
    (p.conns a).fd ≠ some fd := by
  intro ha
  have hlt := h.inside a (by rw [ha]; simp)
  rw [Pool.isOpen, List.any_eq_false] at hfd
  exact hfd a (List.mem_range.mpr hlt) (by simp [ha])

/-- A descriptor that is not open may be given to any slot of the pool. -/
theorem Pool.Wf.setConn_fresh {p : Pool} (h : p.Wf) {b fd : Nat} (hb : b < p.maxConns)
    (hfd : p.isOpen fd = false) {c : BackendConn} (hc : c.fd = some fd) : (p.setConn b c).Wf := by
  have hfresh := Pool.isOpen_eq_false h hfd
  refine ⟨?_, ?_, ?_⟩
  · intro a d had ha
    by_cases hab : a = b
    · by_cases hdb : d = b
      · rw [hab, hdb]
      · rw [hab, Pool.setConn_self, hc, p.setConn_of_ne hdb] at had
        exact absurd had.symm (hfresh d)
    · by_cases hdb : d = b
      · rw [hdb, Pool.setConn_self, hc, p.setConn_of_ne hab] at had
        exact absurd had (hfresh a)
      · rw [p.setConn_of_ne hab, p.setConn_of_ne hdb] at had
        rw [p.setConn_of_ne hab] at ha
        exact h.distinct a d had ha
  · intro a ha
    by_cases hab : a = b
    · rw [hab]
      exact hb
    · rw [p.setConn_of_ne hab] at ha
      exact h.inside a ha
  · intro a ha
    by_cases hab : a = b
    · rw [hab, Pool.setConn_self, hc]
      simp
    · rw [p.setConn_of_ne hab] at ha ⊢
      exact h.opened a ha

section

variable (w : Pqwire) (env : Env)

theorem tcpConnect_isOpen {p : Pool} {fd : Nat} (h : tcpConnect env p = some fd) :
    p.isOpen fd = false := by
  rw [tcpConnect, Option.filter_eq_some_iff] at h
  simpa using h.2

theorem touches_warmOne (p : Pool) {b : Nat} (hb : b < p.maxConns) (user : Text) :
    TouchesClean b p (warmOne env p b user).1 := by
  have hdown := touches_teardown p b
  have hclean := clean_teardown p b
  unfold warmOne
  dsimp only
  generalize p.setConn b (p.conns b).teardownIo = q at hdown hclean ⊢
  have hq : b < q.maxConns := by rw [hdown.maxConns]; exact hb
  cases hfd : tcpConnect env q with
  | none => exact ⟨hdown.trans (touches_tick b q).toTouches, fun _ => hclean⟩
  | some fd =>
      have hopen : q.isOpen fd = false := tcpConnect_isOpen env hfd
      have hnew := hdown.trans ((touches_tick b q).trans (touches_newSession b q.tick)).toTouches
      -- whatever happens next, only this slot is written
      have hlast : ∀ c : BackendConn, c.inbox = [] →
          (c.fd = none ∧ c.alive = false ∨ c.fd = some fd) →
          TouchesClean b p (q.tick.newSession.setConn b c) := by
        intro c hinbox hc
        refine ⟨⟨?_, hnew.maxConns, ?_⟩, fun _ => ?_⟩
        · intro a ha
          rw [Pool.setConn_of_ne _ ha]
          exact hnew.others a ha
        · intro hwf
          rcases hc with ⟨hnone, hdead⟩ | hsome
          · exact (touches_setConn (Or.inr hnone) (fun h => by rw [hdead] at h; cases h)).wf
              (hnew.wf hwf)
          · exact (hnew.wf hwf).setConn_fresh hq hopen hsome
        · rw [Pool.setConn_self]
          exact fun _ => hinbox
      dsimp only
      split
      · exact hlast _ rfl (Or.inl ⟨rfl, rfl⟩)
      · split
        · exact hlast _ rfl (Or.inl ⟨rfl, rfl⟩)
        · exact hlast _ rfl (Or.inr rfl)

/-- The slot is alive and free afterwards exactly when the attempt succeeded. -/
theorem warmOne_result (p : Pool) (b : Nat) (user : Text) :
    ((warmOne env p b user).1.conns b).alive = (warmOne env p b user).2 ∧
      ((warmOne env p b user).2 = true → ((warmOne env p b user).1.conns b).busy = false) := by
  unfold warmOne
  dsimp only
  split
  · simp [BackendConn.teardownIo, Pool.tick]
  · split
    · simp [BackendConn.teardownIo]
    · split
      · simp [BackendConn.teardownIo]
      · simp

theorem warmOne_busy {p : Pool} {b : Nat} (user : Text) (h : (p.conns b).busy = false) :
    ((warmOne env p b user).1.conns b).busy = false := by
  unfold warmOne
  dsimp only
  split
  · simpa [BackendConn.teardownIo, Pool.tick] using h
  · split
    · simpa [BackendConn.teardownIo] using h
    · split
      · simpa [BackendConn.teardownIo] using h
      · simp

theorem touches_reconnect (p : Pool) {b : Nat} (hb : b < p.maxConns) :
    TouchesClean b p (reconnect env p b).1 := by
  have hwarm := touches_warmOne env p hb
    (Text.copyTo (if (p.conns b).loginUser = [] then p.user else (p.conns b).loginUser) 128)
  unfold reconnect
  dsimp only
  split
  · rename_i q heq
    rw [heq] at hwarm
    exact hwarm
  · rename_i q heq
    rw [heq] at hwarm
    exact hwarm.trans (touches_busy q b _)

theorem reconnect_alive (p : Pool) (b : Nat) :
    ((reconnect env p b).1.conns b).alive = (reconnect env p b).2 := by
  have hwarm := (warmOne_result env p b
    (Text.copyTo (if (p.conns b).loginUser = [] then p.user else (p.conns b).loginUser) 128)).1
  unfold reconnect
  dsimp only
  split
  · rename_i q heq
    rw [heq] at hwarm
    exact hwarm
  · rename_i q heq
    rw [heq] at hwarm
    simpa using hwarm

/-! ### The blocking read loop -/

/-- One whole message is cut off, or the connection is given up on a message that is too long. -/
theorem readMsg_framed {m : Bytes} (hm : Framing.Framed m) (rest : Bytes) :
    (m.length ≤ 16384 → readMsg (m ++ rest) 16384 = (rest, some m)) ∧
      (16384 < m.length → (readMsg (m ++ rest) 16384).2 = none) := by
  obtain ⟨hlen, hfive⟩ := hm
  rw [readMsg, Framing.lengthField_append hfive, hlen]
  dsimp only
  rw [Nat.add_sub_cancel' (by omega)]
  constructor
  · intro hle
    rw [if_neg (by omega), if_neg (by omega), if_neg (by simp), List.take_left, List.drop_left]
  · intro hlt
    split <;> rfl

/-- The pipeline status after a message. -/
def PipelineStatus.fed (st : PipelineStatus) (m : Bytes) : PipelineStatus :=
  ⟨st.sawError || Framing.typeOf m == some msgErrorResponse,
    st.complete || Framing.typeOf m == some msgReadyForQuery⟩

/-- One round of the read loop on a stream that starts with a whole message. -/
theorem collect_message {w : Pqwire} (hw : w.FollowsPipeline) (cap : Nat) (skip : Bool) {m : Bytes}
    (hm : Framing.Framed m) (rounds : Nat) (fault : Option Nat) (rest : Bytes)
    {st : PipelineStatus} (hst : st.complete = false) (out : Bytes) :
    collect w cap skip (rounds + 1) fault (m ++ rest) st out =
      if fault = some 0 then ⟨.dead, m ++ rest, st, out⟩
      else if 16384 < m.length then ⟨.dead, (readMsg (m ++ rest) 16384).1, st, out⟩
      else if w.filterBackendType (m.headD 0) skip then
        collect w cap skip rounds (fault.map (· - 1)) rest (st.fed m) out
      else if cap < out.length + m.length then ⟨.full, rest, st.fed m, out⟩
      else collect w cap skip rounds (fault.map (· - 1)) rest (st.fed m) (out ++ m) := by
  rw [collect, hst, if_neg (by decide)]
  split
  · rfl
  · by_cases hlong : 16384 < m.length
    · rw [if_pos hlong]
      have hnone := (readMsg_framed hm rest).2 hlong
      cases hread : readMsg (m ++ rest) 16384 with
      | mk inbox msg =>
          rw [hread] at hnone
          cases hnone
          rfl
    · rw [if_neg hlong, (readMsg_framed hm rest).1 (by omega)]
      dsimp only
      rw [hw.feed st m hm]
      rfl

/-- A read loop that completes its pipeline has read everything the backend sent. -/
theorem collect_complete {w : Pqwire} (hw : w.FollowsPipeline) (cap : Nat) (skip : Bool)
    {last : Bytes} (hlast : Framing.Framed last ∧ Framing.typeOf last = some msgReadyForQuery)
    (body : List Bytes)
    (hbody : ∀ m ∈ body, Framing.Framed m ∧ Framing.typeOf m ≠ some msgReadyForQuery)
    (rounds : Nat) (fault : Option Nat) {st : PipelineStatus} (hst : st.complete = false)
    (out : Bytes)
    (hexit : (collect w cap skip rounds fault (body.flatten ++ last) st out).exit = .ended)
    (hdone : (collect w cap skip rounds fault (body.flatten ++ last) st out).status.complete = true) :
    (collect w cap skip rounds fault (body.flatten ++ last) st out).inbox = [] := by
  induction body generalizing rounds fault st out with
  | nil =>
      cases rounds with
      | zero =>
          rw [collect] at hdone
          rw [hst] at hdone
          cases hdone
      | succ rounds =>
          have hfed : (st.fed last).complete = true := by simp [PipelineStatus.fed, hlast.2]
          have hend : ∀ fault out, collect w cap skip rounds fault [] (st.fed last) out =
              ⟨.ended, [], st.fed last, out⟩ := by
            intro fault out
            cases rounds with
            | zero => rfl
            | succ rounds => rw [collect, if_pos hfed]
          have hmsg := collect_message hw cap skip hlast.1 rounds fault [] hst out
          rw [List.append_nil] at hmsg
          rw [List.flatten_nil, List.nil_append] at hexit ⊢
          rw [hmsg] at hexit ⊢
          split at hexit
          · cases hexit
          · rename_i hfault
            rw [if_neg hfault]
            split at hexit
            · cases hexit
            · rename_i hlen
              rw [if_neg hlen]
              split at hexit
              · rename_i hskip
                rw [if_pos hskip, hend]
              · rename_i hskip
                rw [if_neg hskip]
                split at hexit
                · cases hexit
                · rename_i hcap
                  rw [if_neg hcap, hend]
  | cons m body ih =>
      have hm := hbody m List.mem_cons_self
      have hrest : ∀ x ∈ body, Framing.Framed x ∧ Framing.typeOf x ≠ some msgReadyForQuery :=
        fun x hx => hbody x (List.mem_cons_of_mem _ hx)
      have hfed : (st.fed m).complete = false := by simp [PipelineStatus.fed, hst, hm.2]
      cases rounds with
      | zero =>
          rw [collect] at hdone
          rw [hst] at hdone
          cases hdone
      | succ rounds =>
          have hmsg := collect_message hw cap skip hm.1 rounds fault (body.flatten ++ last) hst out
          rw [List.flatten_cons, List.append_assoc] at hexit hdone ⊢
          rw [hmsg] at hexit hdone ⊢
          split at hexit
          · cases hexit
          · rename_i hfault
            rw [if_neg hfault] at hdone ⊢
            split at hexit
            · cases hexit
            · rename_i hlen
              rw [if_neg hlen] at hdone ⊢
              split at hexit
              · rename_i hskip
                rw [if_pos hskip] at hdone ⊢
                exact ih hrest _ _ hfed _ hexit hdone
              · rename_i hskip
                rw [if_neg hskip] at hdone ⊢
                split at hexit
                · cases hexit
                · rename_i hcap
                  rw [if_neg hcap] at hdone ⊢
                  exact ih hrest _ _ hfed _ hexit hdone

/-- A blocking flush changes no descriptor and revives nothing. -/
theorem flushConn_fd (w : Pqwire) (env : Env) (now cap : Nat) (skip : Bool) (c : BackendConn) :
    (flushConn w env now cap skip c).1.fd = c.fd ∧
      ((flushConn w env now cap skip c).1.alive = true → c.alive = true) ∧
      (flushConn w env now cap skip c).1.busy = c.busy := by
  unfold flushConn
  split
  · rename_i halive _
    split
    · exact ⟨rfl, fun _ => halive, rfl⟩
    · dsimp only [flushEnd]
      split <;> exact ⟨rfl, fun _ => halive, rfl⟩
  · exact ⟨rfl, id, rfl⟩

theorem touches_flush (w : Pqwire) (env : Env) (p : Pool) (b cap : Nat) (skip : Bool) :
    Touches b p (flushPipelineEx w env p b cap skip).1 := by
  obtain ⟨hfd, halive, -⟩ := flushConn_fd w env p.clock cap skip (p.conns b)
  exact (touches_setConn (Or.inl hfd) (fun h => ⟨halive h, hfd⟩)).trans
    ((touches_tick b _).trans (touches_wrote b _ _)).toTouches

theorem flushEnd_clean (c : BackendConn) (hc : c.alive = true) (r : Collected) :
    (flushEnd c r).1.Clean ↔ r.exit = .dead ∨ r.inbox = [] := by
  unfold flushEnd BackendConn.Clean
  cases hexit : r.exit with
  | dead => simp
  | full => simp [hc]
  | ended => simp [hc]

theorem flushEnd_ok {c : BackendConn} {r : Collected} (h : (flushEnd c r).2.ok = true) :
    r.exit = .ended ∧ r.status.complete = true := by
  unfold flushEnd at h
  cases hexit : r.exit with
  | dead => simp [hexit] at h
  | full => simp [hexit] at h
  | ended => simpa [hexit] using h

theorem flushEnd_alive (c : BackendConn) {r : Collected} (h : r.exit = .ended) :
    (flushEnd c r).1.alive = c.alive := by
  unfold flushEnd
  rw [h]

theorem collect_nil (w : Pqwire) (cap : Nat) (skip : Bool) (rounds : Nat) (fault : Option Nat)
    (out : Bytes) : (collect w cap skip (rounds + 1) fault [] .init out).exit = .dead := by
  rw [collect, if_neg (by decide)]
  split <;> rfl

theorem flushPipelineEx_conn (w : Pqwire) (env : Env) (p : Pool) (b cap : Nat) (skip : Bool) :
    (flushPipelineEx w env p b cap skip).1.conns b =
      (flushConn w env p.clock cap skip (p.conns b)).1 := Pool.setConn_self ..

/-- A flush that succeeds on a clean connection leaves it clean. -/
theorem flushConn_ok_clean {w : Pqwire} (hw : w.FollowsPipeline) (env : Env) (now cap : Nat)
    (skip : Bool) {c : BackendConn} (hclean : c.Clean)
    (hok : (flushConn w env now cap skip c).2.ok = true) :
    (flushConn w env now cap skip c).1.Clean := by
  unfold flushConn at hok ⊢
  split at hok
  · rename_i pending halive hwire
    split at hok
    · cases hok
    · rename_i hwrite
      obtain ⟨hended, hdone⟩ := flushEnd_ok hok
      rw [if_neg hwrite, flushEnd_clean c halive]
      rw [hclean halive, List.nil_append] at hended hdone ⊢
      by_cases hp : pending = []
      · rw [if_pos hp, collect_nil] at hended
        cases hended
      · rw [if_neg hp] at hended hdone ⊢
        exact Or.inr (collect_complete hw cap skip (env.answer now).last_framed
          (env.answer now).body (env.answer now).body_framed 256 _ rfl [] hended hdone)
  · cases hok

theorem touches_healthCheck (w : Pqwire) (env : Env) (p : Pool) (b : Nat) :
    Touches b p (healthCheck w env p b).1 := by
  unfold healthCheck
  dsimp only
  split
  · exact (TouchesClean.refl b p).toTouches
  · split
    · exact touches_teardown p b
    · rename_i out _
      have hfill : Touches b p (p.setConn b { p.conns b with wire := some out }) :=
        touches_setConn (Or.inl rfl) (fun h => ⟨h, rfl⟩)
      have hflush := hfill.trans (touches_flush w env (p.setConn b { p.conns b with wire := some out })
        b 2048 false)
      split
      · exact hflush.trans (touches_setConn (Or.inl rfl) (fun h => ⟨h, rfl⟩))
      · exact hflush.trans (touches_teardown _ b)

/-- A health check that fails may kill the connection; it never leaves bytes in its socket. -/
theorem healthCheck_clean {w : Pqwire} (hw : w.FollowsPipeline) (env : Env) {p : Pool} {b : Nat}
    (hclean : (p.conns b).Clean) : ((healthCheck w env p b).1.conns b).Clean := by
  unfold healthCheck
  dsimp only
  split
  · exact hclean
  · split
    · exact clean_teardown p b
    · rename_i out _
      split
      · rename_i hok
        have hfilled : ((p.setConn b { p.conns b with wire := some out }).conns b).Clean := by
          rw [Pool.setConn_self]
          exact hclean
        have hflush := flushConn_ok_clean hw env p.clock 2048 false hfilled hok
        rw [Pool.setConn_self]
        intro halive
        dsimp only at halive ⊢
        rw [flushPipelineEx_conn] at halive ⊢
        exact hflush halive
      · exact clean_teardown _ b

theorem flushConn_ok_alive (w : Pqwire) (env : Env) (now cap : Nat) (skip : Bool) (c : BackendConn)
    (hok : (flushConn w env now cap skip c).2.ok = true) :
    (flushConn w env now cap skip c).1.alive = true := by
  unfold flushConn at hok ⊢
  split at hok
  · rename_i halive _
    split at hok
    · cases hok
    · rename_i hwrite
      obtain ⟨hended, -⟩ := flushEnd_ok hok
      rw [if_neg hwrite]
      exact (flushEnd_alive c hended).trans halive
  · cases hok

theorem healthCheck_ok (w : Pqwire) (env : Env) (p : Pool) (b : Nat)
    (hok : (healthCheck w env p b).2 = true) :
    ((healthCheck w env p b).1.conns b).alive = true ∧
      ((healthCheck w env p b).1.conns b).busy = (p.conns b).busy := by
  unfold healthCheck at hok ⊢
  dsimp only at hok ⊢
  split at hok
  · cases hok
  · rename_i hlive
    rw [if_neg hlive]
    split at hok
    · cases hok
    · rename_i out hout
      split at hok
      · rename_i hflush
        rw [if_pos hflush, Pool.setConn_self, flushPipelineEx_conn]
        refine ⟨flushConn_ok_alive w env _ _ _ _ hflush, ?_⟩
        rw [(flushConn_fd w env _ _ _ _).2.2, Pool.setConn_self]
      · cases hok

/-! ### Operations on connections that nobody holds -/

/-- Connections that are held are left alone, and clean pools stay clean. -/
structure Idle (w : Pqwire) (p p' : Pool) : Prop where
  held : ∀ b, (p.conns b).Held → p'.conns b = p.conns b
  maxConns : p'.maxConns = p.maxConns
  wf : p.Wf → p'.Wf
  clean : w.FollowsPipeline → (∀ b, (p.conns b).Clean) → ∀ b, (p'.conns b).Clean

namespace Idle

variable {w : Pqwire}

theorem refl (p : Pool) : Idle w p p := ⟨fun _ _ => rfl, rfl, id, fun _ h => h⟩

theorem trans {p q r : Pool} (h : Idle w p q) (k : Idle w q r) : Idle w p r where
  held := fun b hb => by
    have hq := h.held b hb
    rw [k.held b (hq ▸ hb), hq]
  maxConns := k.maxConns.trans h.maxConns
  wf := k.wf ∘ h.wf
  clean := fun hw => k.clean hw ∘ h.clean hw

theorem of_touches {b : Nat} {p p' : Pool} (h : Touches b p p') (hb : ¬ (p.conns b).Held)
    (hclean : w.FollowsPipeline → (p.conns b).Clean → (p'.conns b).Clean) : Idle w p p' where
  held := fun a ha => h.others a (by rintro rfl; exact hb ha)
  maxConns := h.maxConns
  wf := h.wf
  clean := fun hw hall a => by
    by_cases hab : a = b
    · subst hab
      exact hclean hw (hall a)
    · rw [h.others a hab]
      exact hall a

theorem of_touchesClean {b : Nat} {p p' : Pool} (h : TouchesClean b p p')
    (hb : ¬ (p.conns b).Held) : Idle w p p' := of_touches h.toTouches hb fun _ => h.clean

theorem of_conns {p p' : Pool} (hconns : p'.conns = p.conns) (hmax : p'.maxConns = p.maxConns) :
    Idle w p p' where
  held := fun b _ => by rw [hconns]
  maxConns := hmax
  wf := (TouchesClean.of_conns 0 p p' hconns hmax).wf
  clean := fun _ h b => by rw [hconns]; exact h b

end Idle

theorem not_held_of_dead {c : BackendConn} (h : c.alive = false) : ¬ c.Held := by
  rintro ⟨-, halive⟩
  rw [h] at halive
  cases halive

theorem maintainFrom_idle (w : Pqwire) (env : Env) (bs : List Nat) (p : Pool)
    (hbs : ∀ b ∈ bs, b < p.maxConns) : Idle w p (maintainFrom env bs p) := by
  induction bs generalizing p with
  | nil => exact .refl p
  | cons b bs ih =>
      rw [maintainFrom]
      split
      · rename_i hdead
        have hstep := touches_reconnect env p (hbs b List.mem_cons_self)
        refine (Idle.of_touchesClean hstep (not_held_of_dead hdead.2.1)).trans (ih _ ?_)
        intro a ha
        rw [hstep.maxConns]
        exact hbs a (List.mem_cons_of_mem _ ha)
      · exact ih p fun a ha => hbs a (List.mem_cons_of_mem _ ha)

theorem poolMaintain_idle (w : Pqwire) (env : Env) (p : Pool) : Idle w p (poolMaintain env p) := by
  unfold poolMaintain
  split
  · exact maintainFrom_idle w env _ p fun b hb => List.mem_range.mp hb
  · exact .refl p

theorem searchOrder_lt {p : Pool} {b : Nat} (hb : b ∈ searchOrder p) : b < p.maxConns := by
  obtain ⟨i, hi, rfl⟩ := List.mem_map.mp hb
  exact Nat.mod_lt _ (Nat.zero_lt_of_lt (List.mem_range.mp hi))

/-- Every slot is looked at. -/
theorem mem_searchOrder {p : Pool} {b : Nat} (hb : b < p.maxConns) : b ∈ searchOrder p := by
  have hpos : 0 < p.maxConns := by omega
  have hstart := Nat.mod_lt p.rrCursor hpos
  refine List.mem_map.mpr ?_
  by_cases hle : p.rrCursor % p.maxConns ≤ b
  · refine ⟨b - p.rrCursor % p.maxConns, List.mem_range.mpr (by omega), ?_⟩
    rw [Nat.add_sub_cancel' hle, Nat.mod_eq_of_lt hb]
  · refine ⟨b + p.maxConns - p.rrCursor % p.maxConns, List.mem_range.mpr (by omega), ?_⟩
    have hsum : p.rrCursor % p.maxConns + (b + p.maxConns - p.rrCursor % p.maxConns) =
        b + p.maxConns := by
      omega
    rw [hsum, Nat.add_mod_right, Nat.mod_eq_of_lt hb]

/-- A try touches one idle connection; on success that connection is held. -/
theorem checkoutTry_spec (w : Pqwire) (env : Env) (p : Pool) {b : Nat} (hb : b < p.maxConns) :
    Idle w p (checkoutTry w env p b).1 ∧
      ((checkoutTry w env p b).2 = true →
        ((checkoutTry w env p b).1.conns b).Held ∧ ¬ (p.conns b).Held) := by
  unfold checkoutTry
  dsimp only
  split
  · exact ⟨.refl p, fun h => by cases h⟩
  · rename_i hfree
    have halive : (p.conns b).alive = true := by
      cases h : (p.conns b).alive with
      | false => exact absurd (Or.inl h) hfree
      | true => rfl
    have hidle : ¬ (p.conns b).Held := fun h => hfree (Or.inr h.1)
    have hbusy := touches_busy p b true
    split
    · exact ⟨.of_touchesClean hbusy hidle, fun _ => ⟨by simp [BackendConn.Held, halive], hidle⟩⟩
    · have hcheck := touches_healthCheck w env (p.setConn b { p.conns b with busy := true }) b
      have hclean : w.FollowsPipeline → (p.conns b).Clean → ((healthCheck w env
          (p.setConn b { p.conns b with busy := true }) b).1.conns b).Clean := fun hw h =>
        healthCheck_clean hw env (hbusy.clean h)
      have hok := healthCheck_ok w env (p.setConn b { p.conns b with busy := true }) b
      split
      · rename_i q heq
        rw [heq] at hcheck hclean hok
        refine ⟨.of_touches (hbusy.toTouches.trans hcheck) hidle hclean, fun _ => ⟨?_, hidle⟩⟩
        obtain ⟨h1, h2⟩ := hok rfl
        exact ⟨by rw [h2]; simp, h1⟩
      · rename_i q heq
        rw [heq] at hcheck hclean
        have hq := hbusy.toTouches.trans (hcheck.trans (touches_busy q b false).toTouches)
        have hqclean : w.FollowsPipeline → (p.conns b).Clean →
            ((q.setConn b { q.conns b with busy := false }).conns b).Clean := fun hw h =>
          (touches_busy q b false).clean (hclean hw h)
        split
        · exact ⟨.of_touches hq hidle hqclean, fun h => by cases h⟩
        · have hre := touches_reconnect env (q.setConn b { q.conns b with busy := false })
            (b := b) (by rw [hq.maxConns]; exact hb)
          have hrealive := reconnect_alive env (q.setConn b { q.conns b with busy := false }) b
          split
          · rename_i r hr
            rw [hr] at hre hrealive
            refine ⟨.of_touches (hq.trans (hre.trans (touches_busy r b true)).toTouches) hidle
              fun hw h => ?_, fun _ => ⟨?_, hidle⟩⟩
            · exact (touches_busy r b true).clean (hre.clean (hqclean hw h))
            · exact ⟨by simp, by simpa using hrealive⟩
          · rename_i r hr
            rw [hr] at hre
            exact ⟨.of_touches (hq.trans hre.toTouches) hidle fun hw h => hre.clean (hqclean hw h),
              fun h => by cases h⟩

/-- What a search for a connection leaves behind when it returns `r`. -/
structure Found (w : Pqwire) (p p' : Pool) (r : Option Nat) : Prop extends Idle w p p' where
  found : ∀ b, r = some b → (p'.conns b).Held ∧ ¬ (p.conns b).Held

theorem Found.of_idle {w : Pqwire} {p q p' : Pool} {r : Option Nat} (h : Idle w p q)
    (k : Found w q p' r) : Found w p p' r where
  toIdle := h.trans k.toIdle
  found := fun b hb => by
    obtain ⟨hheld, hnot⟩ := k.found b hb
    exact ⟨hheld, fun hp => hnot (by rw [h.held b hp]; exact hp)⟩

theorem Found.none {w : Pqwire} {p p' : Pool} (h : Idle w p p') : Found w p p' none :=
  ⟨h, fun _ hb => by cases hb⟩

theorem Found.of_try {w : Pqwire} {env : Env} {p q : Pool} {b : Nat} (hb : b < p.maxConns)
    (heq : checkoutTry w env p b = (q, true)) : Found w p (q.advanceCursor b) (some b) := by
  obtain ⟨hidle, hheld⟩ := checkoutTry_spec w env p hb
  rw [heq] at hidle hheld
  refine ⟨hidle.trans (.of_conns rfl rfl), ?_⟩
  rintro a ⟨⟩
  exact hheld rfl

theorem checkoutScan_spec (w : Pqwire) (env : Env) (group : Text) (order : List Nat)
    (fallback : Option Nat) (p : Pool) (horder : ∀ b ∈ order, b < p.maxConns)
    (hfallback : ∀ b, fallback = some b → b < p.maxConns) :
    Found w p (checkoutScan w env group order fallback p).1
        (checkoutScan w env group order fallback p).2.1 ∧
      ∀ b, (checkoutScan w env group order fallback p).2.2 = some b → b < p.maxConns := by
  induction order generalizing fallback p with
  | nil => exact ⟨.none (.refl p), hfallback⟩
  | cons idx order ih =>
      have hidx := horder idx List.mem_cons_self
      have horder' : ∀ b ∈ order, b < p.maxConns := fun b hb =>
        horder b (List.mem_cons_of_mem _ hb)
      rw [checkoutScan]
      split
      · exact ih fallback p horder' hfallback
      · split
        · split
          · rename_i q heq
            exact ⟨.of_try hidx heq, hfallback⟩
          · rename_i q heq
            have hidle := (checkoutTry_spec w env p hidx).1
            rw [heq] at hidle
            have hmax := hidle.maxConns
            obtain ⟨h1, h2⟩ := ih fallback q (by rw [hmax]; exact horder')
              (by rw [hmax]; exact hfallback)
            rw [hmax] at h2
            exact ⟨.of_idle hidle h1, h2⟩
        · refine ih _ p horder' ?_
          intro b hb
          cases fallback with
          | none => exact Option.some.inj hb ▸ hidx
          | some a => exact hfallback b hb

theorem checkoutGroup_spec (w : Pqwire) (env : Env) (group : Text) (order : List Nat) (p : Pool)
    (horder : ∀ b ∈ order, b < p.maxConns) :
    Found w p (checkoutGroup w env group order p).1 (checkoutGroup w env group order p).2 := by
  induction order generalizing p with
  | nil => exact .none (.refl p)
  | cons idx order ih =>
      have hidx := horder idx List.mem_cons_self
      have horder' : ∀ b ∈ order, b < p.maxConns := fun b hb =>
        horder b (List.mem_cons_of_mem _ hb)
      rw [checkoutGroup]
      split
      · split
        · rename_i q heq
          exact .of_try hidx heq
        · rename_i q heq
          have hidle := (checkoutTry_spec w env p hidx).1
          rw [heq] at hidle
          exact .of_idle hidle (ih q (by rw [hidle.maxConns]; exact horder'))
      · exact ih p horder'

theorem checkoutLazy_spec (w : Pqwire) (env : Env) (group : Text) (order : List Nat) (p : Pool)
    (horder : ∀ b ∈ order, b < p.maxConns) :
    Found w p (checkoutLazy env group order p).1 (checkoutLazy env group order p).2 := by
  induction order with
  | nil => exact .none (.refl p)
  | cons idx order ih =>
      have hidx := horder idx List.mem_cons_self
      rw [checkoutLazy]
      split
      · exact ih fun b hb => horder b (List.mem_cons_of_mem _ hb)
      · rename_i hdead
        have hnot := not_held_of_dead (Bool.eq_false_iff.mpr hdead)
        have hwarm := touches_warmOne env p hidx group
        have halive := (warmOne_result env p idx group).1
        split
        · rename_i q heq
          rw [heq] at hwarm halive
          have hheld := hwarm.trans (touches_busy q idx true)
          refine ⟨(Idle.of_touchesClean hheld hnot).trans (.of_conns rfl rfl), ?_⟩
          rintro a ⟨⟩
          refine ⟨?_, hnot⟩
          exact ⟨by simp [Pool.advanceCursor], by simpa [Pool.advanceCursor] using halive⟩
        · rename_i q heq
          rw [heq] at hwarm
          exact .none (.of_touchesClean hwarm hnot)

/-- A checkout leaves every held connection alone, and hands out one that nobody held. -/
theorem checkout_spec (w : Pqwire) (env : Env) (p : Pool) (group : Text) :
    Found w p (checkout w env p group).1 (checkout w env p group).2 := by
  unfold checkout
  split
  · exact .none (.refl p)
  · rename_i hmax
    have hmaintain := poolMaintain_idle w env p
    dsimp only
    generalize poolMaintain env p = q at hmaintain ⊢
    have horder : ∀ b ∈ searchOrder q, b < q.maxConns := fun _ => searchOrder_lt
    generalize searchOrder q = order at horder ⊢
    obtain ⟨hscan, hfall⟩ := checkoutScan_spec w env group order none q horder
      (fun b hb => by cases hb)
    refine .of_idle hmaintain ?_
    split
    · rename_i r idx _ heq
      rw [heq] at hscan
      exact hscan
    · rename_i r fallback heq
      rw [heq] at hscan hfall
      have hrmax := hscan.maxConns
      have horder' : ∀ b ∈ order, b < r.maxConns := by rw [hrmax]; exact horder
      refine .of_idle hscan.toIdle ?_
      split
      · have hgroup := checkoutGroup_spec w env group order r horder'
        split
        · rename_i t idx heq'
          rw [heq'] at hgroup
          exact hgroup
        · rename_i t heq'
          rw [heq'] at hgroup
          refine .of_idle hgroup.toIdle ?_
          split
          · exact checkoutLazy_spec w env group order t (by rw [hgroup.maxConns]; exact horder')
          · exact .none (.refl t)
      · cases fallback with
        | none => exact .none (.refl r)
        | some idx =>
            have hidx : idx < r.maxConns := by rw [hrmax]; exact hfall idx rfl
            dsimp only
            split
            · rename_i t heq'
              exact .of_try hidx heq'
            · rename_i t heq'
              have hidle := (checkoutTry_spec w env r hidx).1
              rw [heq'] at hidle
              exact .none hidle

theorem warmPlan_lt {groups : List Text} {useGroupAsUser : Bool} {user : Text} {n : Nat}
    {x : Nat × Text} (h : x ∈ warmPlan groups useGroupAsUser user n) : x.1 < n := by
  unfold warmPlan at h
  split at h
  · obtain ⟨y, hy, rfl⟩ := List.mem_map.mp h
    have hlt := List.snd_lt_of_mem_zipIdx hy
    rw [List.length_take] at hlt
    exact Nat.lt_of_lt_of_le hlt (Nat.min_le_left _ _)
  · obtain ⟨b, hb, rfl⟩ := List.mem_map.mp h
    exact List.mem_range.mp hb

/-- Between uses of the pool: nobody holds a connection and every live one is clean. -/
structure Pool.Unused (p : Pool) : Prop where
  wf : p.Wf
  free : ∀ b, (p.conns b).busy = false
  clean : ∀ b, (p.conns b).Clean

theorem warmSlots_unused (env : Env) (plan : List (Nat × Text)) (p : Pool) (ok : Nat)
    (hplan : ∀ x ∈ plan, x.1 < p.maxConns) (hp : p.Unused) :
    (warmSlots env plan p ok).1.Unused := by
  induction plan generalizing p ok with
  | nil => exact hp
  | cons x plan ih =>
      have hb := hplan x List.mem_cons_self
      have hwarm := touches_warmOne env p hb x.2
      have hbusy := warmOne_busy env x.2 (hp.free x.1)
      have hcons : warmSlots env (x :: plan) p ok = warmSlots env plan (warmOne env p x.1 x.2).1
          (if (warmOne env p x.1 x.2).2 then ok + 1 else ok) := rfl
      rw [hcons]
      generalize warmOne env p x.1 x.2 = r at hwarm hbusy ⊢
      apply ih
      · intro y hy
        rw [hwarm.maxConns]
        exact hplan y (List.mem_cons_of_mem _ hy)
      · refine ⟨hwarm.wf hp.wf, fun a => ?_, fun a => ?_⟩
        · by_cases hab : a = x.1
          · rw [hab]
            exact hbusy
          · rw [hwarm.others a hab]
            exact hp.free a
        · by_cases hab : a = x.1
          · rw [hab]
            exact hwarm.clean (hp.clean x.1)
          · rw [hwarm.others a hab]
            exact hp.clean a

theorem poolCreate_unused {env : Env} {cfg : BackendConfig} {p : Pool}
    (h : poolCreate env cfg = some p) : p.Unused := by
  unfold poolCreate at h
  dsimp only at h
  split at h
  · cases h
  · rename_i q n heq
    cases h
    rw [show p = (p, n + 1).1 from rfl, ← heq]
    apply warmSlots_unused
    · intro x hx
      exact Nat.lt_of_lt_of_le (warmPlan_lt hx) (Nat.min_le_right _ _)
    · exact ⟨⟨fun _ _ _ h => absurd rfl h, fun _ h => absurd rfl h, fun _ h => by cases h⟩,
        fun _ => rfl, fun _ _ => rfl⟩

end
