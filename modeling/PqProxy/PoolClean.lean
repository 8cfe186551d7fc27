import PqProxy.PoolSteps
import PqProxy.Runs
import PqProxy.WirePg

/-! Whether the blocking path returns its connection clean. A response is read to its end, or the
connection is marked dead, unless the loop gives up in between: when the caller's buffer is full, or
after 256 messages. -/

/-- A blocking call on the pool. -/
inductive ExecCall where
  | execBind (cache : StmtCache) (bind : PqBind) (id : Identity) (cap : Nat)
  | execQuery (group sql : Text) (cap : Nat)

section

variable (w : Pqwire) (env : Env)

def execCall (p : Pool) : ExecCall → Pool × ExecResult
  | .execBind cache bind id cap => execBindEx w env p cache bind id cap
  | .execQuery group sql cap => execQuery w env p group sql cap

namespace ExecCall

def group : ExecCall → Text
  | .execBind _cache _bind id _cap => id.group
  | .execQuery group .. => group

def cap : ExecCall → Nat
  | .execBind _cache _bind _id cap => cap
  | .execQuery _group _sql cap => cap

/-- Whether ParseComplete and BindComplete are left out. -/
def skip : ExecCall → Bool
  | .execBind .. => true
  | .execQuery .. => false

/-- The pipeline the call puts into the drained context. -/
def pipeline (w : Pqwire) : ExecCall → Bytes × Bool
  | .execBind cache bind id _cap => bindPipeline w cache bind id
  | .execQuery _group sql _cap =>
      match sendQuery w [] sql with
      | some out => (out, true)
      | none => ([], false)

end ExecCall

theorem execCall_eq (p : Pool) (call : ExecCall) :
    execCall w env p call =
      execOn w env p call.group call.cap call.skip (call.pipeline w) := by
  cases call <;> rfl

end

/-- The messages before the final ReadyForQuery that come before a read error and before the first
message that does not fit the 16384-byte buffer. -/
def readable (fault : Option Nat) (body : List Bytes) : List Bytes :=
  (match fault with
    | none => body
    | some k => body.take k).takeWhile fun m => m.length ≤ 16384

/-- Fewer than 256 messages precede the ReadyForQuery, and the caller's buffer holds them. -/
def FitsLoop (w : Pqwire) (cap : Nat) (skip : Bool) (fault : Option Nat) (r : Response) : Prop :=
  (readable fault r.body).length < 256 ∧ (keptBytes w skip (readable fault r.body)).length ≤ cap

theorem readable_zero (body : List Bytes) : readable (some 0) body = [] := rfl

theorem readable_cons_long {m : Bytes} (h : 16384 < m.length) (fault : Option Nat)
    (body : List Bytes) : readable fault (m :: body) = [] := by
  have hm : ¬ m.length ≤ 16384 := by omega
  cases fault with
  | none => simp [readable, hm]
  | some k =>
      cases k with
      | zero => rfl
      | succ k => simp [readable, hm]

theorem readable_cons {m : Bytes} (h : m.length ≤ 16384) {fault : Option Nat} (hf : fault ≠ some 0)
    (body : List Bytes) :
    readable fault (m :: body) = m :: readable (fault.map (· - 1)) body := by
  cases fault with
  | none => simp [readable, h]
  | some k =>
      cases k with
      | zero => exact absurd rfl hf
      | succ k => simp [readable, h]

/-- The read loop leaves nothing behind exactly when the response fits it. -/
theorem collect_clean_iff {w : Pqwire} (hw : w.FollowsPipeline) (cap : Nat) (skip : Bool)
    {last : Bytes} (hlast : Framing.Framed last ∧ Framing.typeOf last = some msgReadyForQuery)
    (body : List Bytes)
    (hbody : ∀ m ∈ body, Framing.Framed m ∧ Framing.typeOf m ≠ some msgReadyForQuery)
    (rounds : Nat) (fault : Option Nat) {st : PipelineStatus} (hst : st.complete = false)
    (out : Bytes) (hout : out.length ≤ cap) :
    ((collect w cap skip rounds fault (body.flatten ++ last) st out).exit = .dead ∨
        (collect w cap skip rounds fault (body.flatten ++ last) st out).inbox = []) ↔
      (readable fault body).length < rounds ∧
        out.length + (keptBytes w skip (readable fault body)).length ≤ cap := by
  induction body generalizing rounds fault st out with
  | nil =>
      have hread : readable fault [] = [] := by cases fault <;> simp [readable]
      rw [hread, List.flatten_nil, List.nil_append]
      cases rounds with
      | zero => simp [collect, hlast.1.ne_nil]
      | succ rounds =>
          have hmsg := collect_message hw cap skip hlast.1 rounds fault [] hst out
          rw [List.append_nil] at hmsg
          refine iff_of_true ?_ ⟨Nat.succ_pos _, by simpa [keptBytes] using hout⟩
          have hfed : (st.fed last).complete = true := by simp [PipelineStatus.fed, hlast.2]
          have hend : ∀ fault out, (collect w cap skip rounds fault [] (st.fed last) out).inbox = [] := by
            intro fault out
            cases rounds with
            | zero => rfl
            | succ rounds => rw [collect, if_pos hfed]
          rw [hmsg]
          split_ifs
          · exact Or.inl rfl
          · exact Or.inl rfl
          · exact Or.inr (hend _ _)
          · exact Or.inr rfl
          · exact Or.inr (hend _ _)
  | cons m body ih =>
      have hm := hbody m List.mem_cons_self
      have hrest : ∀ x ∈ body, Framing.Framed x ∧ Framing.typeOf x ≠ some msgReadyForQuery :=
        fun x hx => hbody x (List.mem_cons_of_mem _ hx)
      have hfed : (st.fed m).complete = false := by simp [PipelineStatus.fed, hst, hm.2]
      rw [List.flatten_cons, List.append_assoc]
      cases rounds with
      | zero => simp [collect, hm.1.ne_nil]
      | succ rounds =>
          rw [collect_message hw cap skip hm.1 rounds fault (body.flatten ++ last) hst out]
          by_cases hfault : fault = some 0
          · rw [if_pos hfault, hfault, readable_zero]
            exact iff_of_true (Or.inl rfl) ⟨Nat.succ_pos _, by simpa [keptBytes] using hout⟩
          · rw [if_neg hfault]
            by_cases hlong : 16384 < m.length
            · rw [if_pos hlong, readable_cons_long hlong]
              exact iff_of_true (Or.inl rfl) ⟨Nat.succ_pos _, by simpa [keptBytes] using hout⟩
            · rw [if_neg hlong, readable_cons (by omega) hfault, List.length_cons]
              by_cases hskip : w.filterBackendType (m.headD 0) skip = true
              · rw [if_pos hskip, ih hrest rounds _ hfed out hout, keptBytes_cons, if_pos hskip,
                  Nat.add_lt_add_iff_right]
              · rw [if_neg hskip, keptBytes_cons, if_neg hskip, List.length_append]
                by_cases hfull : cap < out.length + m.length
                · rw [if_pos hfull]
                  refine iff_of_false ?_ (by omega)
                  rintro (h | h)
                  · cases h
                  · exact hlast.1.ne_nil (List.append_eq_nil_iff.mp h).2
                · rw [if_neg hfull, ih hrest rounds _ hfed (out ++ m) (by simp; omega),
                    List.length_append]
                  omega

theorem flushConn_clean_iff {w : Pqwire} (hw : w.FollowsPipeline) (env : Env) (now cap : Nat)
    (skip : Bool) {c : BackendConn} (halive : c.alive = true) (hinbox : c.inbox = [])
    {pending : Bytes} (hwire : c.wire = some pending) :
    (flushConn w env now cap skip c).1.Clean ↔
      (pending ≠ [] → env.write now = true →
        FitsLoop w cap skip (env.fault now) (env.answer now)) := by
  unfold flushConn
  rw [halive, hwire]
  dsimp only
  by_cases hp : pending = []
  · rw [if_neg (by simp [hp]), flushEnd_clean c halive, if_pos hp, hinbox, collect_nil]
    exact iff_of_true (Or.inl rfl) fun h => absurd hp h
  · cases hwrite : env.write now with
    | false =>
        rw [if_pos ⟨hp, rfl⟩]
        refine iff_of_true (fun h => ?_) fun _ h => ?_
        · cases h
        · cases h
    | true =>
        have hst : PipelineStatus.init.complete = false := rfl
        have hloop := collect_clean_iff hw cap skip (env.answer now).last_framed
          (env.answer now).body (env.answer now).body_framed 256 (env.fault now)
          hst [] (Nat.zero_le cap)
        rw [if_neg (by simp), flushEnd_clean c halive, if_neg hp, hinbox, List.nil_append]
        refine hloop.trans ?_
        simp [FitsLoop, hp]

/-! ### Sequences of calls -/

/-- Every live connection of the pool has been read to the end of its last pipeline. -/
def Pool.AllClean (p : Pool) : Prop := ∀ b, (p.conns b).Clean

theorem allClean_iff {b : Nat} {p p' : Pool} (h : Touches b p p') (hp : p.AllClean) :
    p'.AllClean ↔ (p'.conns b).Clean := by
  constructor
  · exact fun hall => hall b
  · intro hb a
    by_cases hab : a = b
    · rw [hab]
      exact hb
    · rw [h.others a hab]
      exact hp a

/-- If the call gets as far as writing its pipeline, the response fits the read loop. -/
def ResponseFits (w : Pqwire) (env : Env) (p : Pool) (call : ExecCall) : Prop :=
  ∀ q b, checkout w env p call.group = (q, some b) → (call.pipeline w).2 = true →
    (call.pipeline w).1 ≠ [] → env.write q.clock = true →
    FitsLoop w call.cap call.skip (env.fault q.clock) (env.answer q.clock)

/-- On a clean pool a call returns its connection clean exactly when the response fits. -/
theorem execCall_clean_iff {w : Pqwire} (hw : w.FollowsPipeline) (env : Env) {p : Pool}
    (hp : p.AllClean) (call : ExecCall) :
    (execCall w env p call).1.AllClean ↔ ResponseFits w env p call := by
  rw [execCall_eq]
  have hfound := checkout_spec w env p call.group
  have hclean := hfound.clean hw hp
  unfold execOn ResponseFits
  cases hq : checkout w env p call.group with
  | mk q r =>
      rw [hq] at hfound hclean
      cases r with
      | none =>
          refine iff_of_true hclean ?_
          rintro q' b h
          cases h
      | some b =>
          obtain ⟨⟨-, halive⟩, -⟩ := hfound.found b rfl
          dsimp only
          have hfill : Touches b q (q.setConn b
              { q.conns b with wire := some (call.pipeline w).1 }) :=
            touches_setConn (Or.inl rfl) fun h => ⟨h, rfl⟩
          split
          · rename_i hfailed
            have htouch := hfill.trans (touches_checkin _ b).toTouches
            rw [allClean_iff htouch hclean, checkin, Pool.setConn_self, Pool.setConn_self]
            refine iff_of_true (hclean b) ?_
            rintro q' b' _ hok
            rw [hfailed] at hok
            cases hok
          · rename_i hsent
            have htouch := (hfill.trans (touches_flush w env _ b call.cap call.skip)).trans
              (touches_checkin _ b).toTouches
            have hflush := flushConn_clean_iff hw env q.clock call.cap call.skip
              (c := { q.conns b with wire := some (call.pipeline w).1 }) halive
              (hclean b halive) rfl
            rw [allClean_iff htouch hclean, checkin, Pool.setConn_self, flushPipelineEx_conn,
              Pool.setConn_self]
            refine Iff.trans Iff.rfl (hflush.trans ?_)
            constructor
            · rintro h q' b' hqb - hne hwrite
              cases hqb
              exact h hne hwrite
            · intro h hne hwrite
              exact h q b rfl (by simpa using hsent) hne hwrite

/-- The pool after a call. -/
def execStep (w : Pqwire) (env : Env) (p : Pool) (call : ExecCall) : Pool := (execCall w env p call).1

/-- Along every sequence of calls on a new pool: each call leaves every live connection read to the
end of its response exactly when each response fits the read loop. -/
theorem execCalls_clean_iff {w : Pqwire} (hw : w.FollowsPipeline) {env : Env} {cfg : BackendConfig}
    {p : Pool} (hp : poolCreate env cfg = some p) (calls : List ExecCall) :
    Runs.Along (execStep w env) (fun p call => (execStep w env p call).AllClean) p calls ↔
      Runs.Along (execStep w env) (ResponseFits w env) p calls :=
  @Runs.along_iff _ _ (execStep w env) _ _ Pool.AllClean
    (fun _ call h => execCall_clean_iff hw env h call) (fun _ _ _ h => h) p
    (poolCreate_unused hp).clean calls

/-! A pool of one connection, and a query answered by rows that together exceed the caller's
buffer. -/

def dataRow : Bytes := WirePg.frame 68 (List.replicate 10000 0)

theorem dataRow_length : dataRow.length = 10005 := by
  rw [dataRow, WirePg.length_frame, List.length_replicate]

def twoRows : Response where
  body := [dataRow, dataRow]
  last := pgWire.encode .readyForQuery
  body_framed := by
    have hrow : Framing.Framed dataRow ∧ Framing.typeOf dataRow ≠ some msgReadyForQuery :=
      ⟨WirePg.framed_frame 68 (by rw [List.length_replicate]; decide), by
        rw [dataRow, WirePg.frame, Framing.typeOf, List.cons_append, List.head?_cons]
        decide⟩
    intro m hm
    rcases List.mem_cons.mp hm with rfl | hm
    · exact hrow
    · rw [List.mem_singleton.mp hm]
      exact hrow
  last_framed := by decide

def oneConnConfig : BackendConfig where
  user := "postgres".toList
  useGroupAsUser := false
  groups := []
  lazyGroupConnect := false
  poolSize := 1
  autoReconnect := true
  healthCheckOnCheckout := false

def selectCall : ExecCall := .execQuery [] "SELECT 1".toList 16384

/-- The pool the server of these runs starts with. -/
def onePool (r : Response) : Pool := (poolCreate (answering r) oneConnConfig).get rfl

theorem onePool_eq (r : Response) : poolCreate (answering r) oneConnConfig = some (onePool r) :=
  (Option.some_get _).symm

theorem keptBytes_twoRows : (keptBytes pgWire false (readable none twoRows.body)).length = 20010 := by
  have hlen := dataRow_length
  have hkeep : pgWire.filterBackendType (dataRow.headD 0) false = false := rfl
  have hread : readable none twoRows.body = [dataRow, dataRow] := by
    have hshort : dataRow.length ≤ 16384 := by omega
    have h := fun body => @readable_cons dataRow hshort none (by simp) body
    have hnil : readable none [] = [] := rfl
    rw [show twoRows.body = [dataRow, dataRow] from rfl, h, Option.map_none, h, Option.map_none, hnil]
  rw [hread, keptBytes_cons, hkeep, if_neg (by decide), keptBytes_cons, hkeep, if_neg (by decide),
    List.length_append, List.length_append, hlen]
  rfl

/-- The second row does not fit: the call fails and its connection goes back alive with the rest of
the response unread, for the next client to receive. -/
theorem execCall_leaves_response :
    (onePool twoRows).AllClean ∧
      ¬ (execStep pgWire (answering twoRows) (onePool twoRows) selectCall).AllClean := by
  have hclean := (poolCreate_unused (onePool_eq twoRows)).clean
  refine ⟨hclean, fun h => ?_⟩
  rw [execStep, execCall_clean_iff WirePg.followsPipeline (answering twoRows) hclean selectCall] at h
  have hloop := (h (checkout pgWire (answering twoRows) (onePool twoRows) []).1 0
    (Prod.ext rfl rfl) rfl (by decide) rfl).2
  have hlen := keptBytes_twoRows
  have hcap : selectCall.cap = 16384 := rfl
  rw [show (answering twoRows).fault _ = none from rfl,
    show (answering twoRows).answer _ = twoRows from rfl, show selectCall.skip = false from rfl, hlen,
    hcap] at hloop
  omega

def oneRow : Response where
  body := [WirePg.frame 68 [0, 0]]
  last := pgWire.encode .readyForQuery
  body_framed := by decide
  last_framed := by decide

theorem execCalls_clean_oneRow :
    Runs.Along (execStep pgWire (answering oneRow))
      (fun p call => (execStep pgWire (answering oneRow) p call).AllClean) (onePool oneRow)
      [selectCall, selectCall] := by
  have hfits : ∀ p, ResponseFits pgWire (answering oneRow) p selectCall := by
    intro p q b _ _ _ _
    show FitsLoop pgWire 16384 false none oneRow
    exact ⟨by decide, by decide⟩
  exact (execCalls_clean_iff WirePg.followsPipeline (onePool_eq oneRow) [selectCall, selectCall]).mpr
    ⟨hfits _, hfits _, trivial⟩
