import PqProxy.PoolFrame

/-! What the calls of the event loop do to the pool. A call that starts or runs a pipeline works on
connections that nobody holds; the end of a pipeline works on the connection it ran on. -/

/-- Connections that are held are left alone. -/
structure Spares (p p' : Pool) : Prop where
  held : ∀ b, (p.conns b).Held → p'.conns b = p.conns b
  maxConns : p'.maxConns = p.maxConns
  wf : p.Wf → p'.Wf

namespace Spares

theorem of_idle {w : Pqwire} {p p' : Pool} (h : Idle w p p') : Spares p p' :=
  ⟨h.held, h.maxConns, h.wf⟩

theorem of_touches {b : Nat} {p q r : Pool} (h : Spares p q) (k : Touches b q r)
    (hb : ¬ (p.conns b).Held) : Spares p r where
  held := fun a ha => by
    rw [k.others a (by rintro rfl; exact hb ha), h.held a ha]
  maxConns := k.maxConns.trans h.maxConns
  wf := k.wf ∘ h.wf

end Spares

section

variable (w : Pqwire) (env : Env)

/-- A connection whose session, descriptor and holder stay as they are. -/
theorem touches_same {p : Pool} {b : Nat} {c : BackendConn} (hfd : c.fd = (p.conns b).fd)
    (halive : c.alive = (p.conns b).alive) : Touches b p (p.setConn b c) :=
  touches_setConn (Or.inl hfd) fun h => ⟨halive ▸ h, hfd⟩

theorem execOn_spares (p : Pool) (group : Text) (cap : Nat) (skip : Bool) (fill : Bytes × Bool) :
    Spares p (execOn w env p group cap skip fill).1 := by
  have hfound := checkout_spec w env p group
  unfold execOn
  cases hq : checkout w env p group with
  | mk q r =>
      rw [hq] at hfound
      have hspares := Spares.of_idle hfound.toIdle
      cases r with
      | none => exact hspares
      | some b =>
          obtain ⟨-, hnot⟩ := hfound.found b rfl
          have hfill : Touches b q (q.setConn b { q.conns b with wire := some fill.1 }) :=
            touches_same rfl rfl
          dsimp only
          split
          · exact hspares.of_touches (hfill.trans (touches_checkin _ b).toTouches) hnot
          · exact hspares.of_touches ((hfill.trans (touches_flush w env _ b cap skip)).trans
              (touches_checkin _ b).toTouches) hnot

/-- The bytes of well-formed messages, the last of which is the only ReadyForQuery. -/
def Whole (bs : Bytes) : Prop :=
  ∃ (body : List Bytes) (last : Bytes),
    (∀ m ∈ body, Framing.Framed m ∧ Framing.typeOf m ≠ some msgReadyForQuery) ∧
      Framing.Framed last ∧ Framing.typeOf last = some msgReadyForQuery ∧
      bs = body.flatten ++ last

/-- The bytes of well-formed messages without a ReadyForQuery. -/
def Partial (bs : Bytes) : Prop :=
  ∃ body : List Bytes,
    (∀ m ∈ body, Framing.Framed m ∧ Framing.typeOf m ≠ some msgReadyForQuery) ∧ bs = body.flatten

theorem partial_nil : Partial [] := ⟨[], by simp, rfl⟩

theorem Partial.append {bs m : Bytes} (h : Partial bs) (hm : Framing.Framed m)
    (htype : Framing.typeOf m ≠ some msgReadyForQuery) : Partial (bs ++ m) := by
  obtain ⟨body, hbody, rfl⟩ := h
  refine ⟨body ++ [m], ?_, by simp⟩
  intro x hx
  rcases List.mem_append.mp hx with h | h
  · exact hbody x h
  · rw [List.mem_singleton.mp h]
    exact ⟨hm, htype⟩

theorem Partial.whole {bs m : Bytes} (h : Partial bs) (hm : Framing.Framed m)
    (htype : Framing.typeOf m = some msgReadyForQuery) : Whole (bs ++ m) := by
  obtain ⟨body, hbody, rfl⟩ := h
  exact ⟨body, m, hbody, hm, htype, rfl⟩

/-- Every message that `readMsg` returns is well formed. -/
theorem framed_readMsg {inbox rest m : Bytes} {cap : Nat} (h : readMsg inbox cap = (rest, some m)) :
    Framing.Framed m := by
  unfold readMsg at h
  cases hlen : Framing.lengthField inbox with
  | none => rw [hlen] at h; cases h
  | some mlen =>
      rw [hlen] at h
      dsimp only at h
      split at h
      · cases h
      · split at h
        · cases h
        · split at h
          · cases h
          · rename_i hsmall _ hfull
            cases h
            have hfive : 5 ≤ (inbox.take (1 + mlen)).length := by simp; omega
            refine ⟨?_, hfive⟩
            rw [← Framing.lengthField_append hfive (inbox.drop (1 + mlen)), List.take_append_drop,
              hlen, List.length_take, Nat.min_eq_left (by omega), Nat.add_sub_cancel_left]

/-- A read loop that completes has collected one whole response. -/
theorem collect_whole {w : Pqwire} (hw : w.FollowsPipeline) (cap : Nat) (skip : Bool)
    (rounds : Nat) (fault : Option Nat) (inbox : Bytes) {st : PipelineStatus}
    (hst : st.complete = false) {out : Bytes} (hout : Partial out)
    (hdone : (collect w cap skip rounds fault inbox st out).exit = .ended ∧
      (collect w cap skip rounds fault inbox st out).status.complete = true) :
    Whole (collect w cap skip rounds fault inbox st out).out := by
  induction rounds generalizing fault inbox st out with
  | zero =>
      rw [collect, hst] at hdone
      cases hdone.2
  | succ rounds ih =>
      rw [collect, hst, if_neg (by decide)] at hdone ⊢
      by_cases hfault : fault = some 0
      · rw [if_pos hfault] at hdone
        cases hdone.1
      · rw [if_neg hfault] at hdone ⊢
        cases hread : readMsg inbox 16384 with
        | mk rest m =>
            rw [hread] at hdone
            cases m with
            | none => cases hdone.1
            | some m =>
                have hm := framed_readMsg hread
                dsimp only at hdone ⊢
                rw [hw.feed st m hm] at hdone ⊢
                dsimp only at hdone ⊢
                by_cases htype : Framing.typeOf m = some msgReadyForQuery
                · -- the loop stops right behind this message
                  have hfed : (st.fed m).complete = true := by
                    simp [PipelineStatus.fed, htype]
                  have hkeep : w.filterBackendType (m.headD 0) skip = false := by
                    have hhead : m.headD 0 = msgReadyForQuery := by
                      rw [List.headD_eq_head?_getD, show m.head? = _ from htype]
                      rfl
                    rw [hhead]
                    exact (hw.keeps skip).1
                  have hend : ∀ out', collect w cap skip rounds (fault.map (· - 1)) rest
                      (st.fed m) out' = ⟨.ended, rest, st.fed m, out'⟩ := by
                    intro out'
                    cases rounds with
                    | zero => rfl
                    | succ rounds => rw [collect, if_pos hfed]
                  rw [hkeep, if_neg (by decide)] at hdone ⊢
                  by_cases hcap : cap < out.length + m.length
                  · rw [if_pos hcap] at hdone
                    cases hdone.1
                  · rw [if_neg hcap]
                    change Whole (collect w cap skip rounds (fault.map (· - 1)) rest (st.fed m)
                      (out ++ m)).out
                    rw [hend]
                    exact hout.whole hm htype
                · have hfed : (st.fed m).complete = false := by
                    simp [PipelineStatus.fed, hst, htype]
                  change Whole (if w.filterBackendType (m.headD 0) skip = true then
                    collect w cap skip rounds (fault.map (· - 1)) rest (st.fed m) out
                    else _).out
                  split at hdone
                  · rename_i hskip
                    rw [if_pos hskip]
                    exact ih _ _ hfed hout hdone
                  · rename_i hskip
                    rw [if_neg hskip]
                    split at hdone
                    · cases hdone.1
                    · rename_i hcap
                      rw [if_neg hcap]
                      exact ih _ _ hfed (hout.append hm htype) hdone

/-- What a blocking call returns: when it succeeds, the bytes of one whole response. -/
def ExecResult.Sound (w : Pqwire) (r : ExecResult) : Prop :=
  r.ok = true → r.outLen = r.written.length ∧ (w.FollowsPipeline → Whole r.written)

theorem flushEnd_written {c : BackendConn} {r : Collected} (h : r.exit = .ended) :
    (flushEnd c r).2.written = r.out ∧ (flushEnd c r).2.outLen = r.out.length := by
  unfold flushEnd
  rw [h]
  exact ⟨rfl, rfl⟩

theorem flushConn_sound (now cap : Nat) (skip : Bool) (c : BackendConn)
    (hok : (flushConn w env now cap skip c).2.ok = true) :
    (flushConn w env now cap skip c).2.outLen = (flushConn w env now cap skip c).2.written.length ∧
      (w.FollowsPipeline → Whole (flushConn w env now cap skip c).2.written) := by
  unfold flushConn at hok ⊢
  split at hok
  · split at hok
    · cases hok
    · rename_i hwrite
      rw [if_neg hwrite]
      have hdone := flushEnd_ok hok
      obtain ⟨hwritten, hlen⟩ := flushEnd_written hdone.1
      dsimp only at hwritten hlen ⊢
      rw [hwritten, hlen]
      exact ⟨rfl, fun hw => collect_whole hw cap skip 256 _ _ rfl partial_nil hdone⟩
  · cases hok

theorem execOn_sound (p : Pool) (group : Text) (cap : Nat) (skip : Bool) (fill : Bytes × Bool) :
    (execOn w env p group cap skip fill).2.Sound w := by
  unfold execOn ExecResult.Sound
  split
  · intro hok
    cases hok
  · dsimp only
    split
    · intro hok
      cases hok
    · intro hok
      exact flushConn_sound w env _ cap skip _ hok

theorem execBindEx_sound (p : Pool) (cache : StmtCache) (bind : PqBind) (id : Identity) (cap : Nat) :
    (execBindEx w env p cache bind id cap).2.Sound w := execOn_sound w env _ _ _ _ _

theorem execQuery_sound (p : Pool) (group sql : Text) (cap : Nat) :
    (execQuery w env p group sql cap).2.Sound w := execOn_sound w env _ _ _ _ _

/-! ### Starting and ending a pipeline -/

/-- A connection that was just filled for a pipeline. -/
structure BackendConn.Begun (c : BackendConn) : Prop where
  pipeSt : c.pipeSt = .init
  recvAccLen : c.recvAccLen = 0
  skipParseBind : c.skipParseBind = true
  sendOff : c.sendOff = 0
  sendLen : 0 < c.sendLen

theorem fillSend_conn (fuel : Nat) (out : Bytes) (c : BackendConn) :
    ∃ wire sendBuf sendLen, (fillSend fuel out c).1 =
      { c with wire := wire, sendBuf := sendBuf, sendLen := sendLen } := by
  induction fuel generalizing out c with
  | zero => exact ⟨some out, c.sendBuf, c.sendLen, rfl⟩
  | succ fuel ih =>
      rw [fillSend]
      split
      · exact ⟨some [], c.sendBuf, c.sendLen, rfl⟩
      · split
        · exact ⟨some (out.drop 4096), c.sendBuf, c.sendLen, rfl⟩
        · exact ih _ _

/-- A pipeline is started on a connection that nobody held. -/
theorem asyncBegin_spec (p : Pool) (cache : StmtCache) (bind : PqBind) (id : Identity) :
    Spares p (asyncBegin w env p cache bind id).1 ∧
      ∀ b, (asyncBegin w env p cache bind id).2 = some b →
        ((asyncBegin w env p cache bind id).1.conns b).Held ∧ ¬ (p.conns b).Held ∧
          ((asyncBegin w env p cache bind id).1.conns b).Begun := by
  have hfound := checkout_spec w env p id.group
  unfold asyncBegin
  cases hq : checkout w env p id.group with
  | mk q r =>
      rw [hq] at hfound
      have hspares := Spares.of_idle hfound.toIdle
      cases r with
      | none => exact ⟨hspares, fun b h => by cases h⟩
      | some b =>
          obtain ⟨hheld, hnot⟩ := hfound.found b rfl
          have hset : ∀ (c : BackendConn) (pipelines : List Bytes), c.fd = (q.conns b).fd →
              c.alive = (q.conns b).alive → Spares p ((q.setConn b c).wrote pipelines) :=
            fun c pipelines hfd halive => hspares.of_touches
              ((touches_same hfd halive).trans (touches_wrote b _ pipelines).toTouches) hnot
          have hback : ∀ c : BackendConn, c.fd = (q.conns b).fd → c.alive = (q.conns b).alive →
              Spares p (checkin (q.setConn b c) b) := fun c hfd halive =>
            hspares.of_touches ((touches_same hfd halive).trans (touches_checkin _ b).toTouches) hnot
          dsimp only
          cases hpipe : bindPipeline w cache bind id with
          | mk out ok =>
              cases ok with
              | false => exact ⟨hback _ rfl rfl, fun a h => by cases h⟩
              | true =>
                  dsimp only
                  obtain ⟨wire, sendBuf, sendLen, hfill⟩ := fillSend_conn (out.length + 1) out
                    { q.conns b with
                      wire := some [], sendLen := 0, sendOff := 0, recvAccLen := 0,
                      skipParseBind := true, pipeSt := .init }
                  rw [hfill]
                  split
                  · exact ⟨hback _ rfl rfl, fun a h => by cases h⟩
                  · rename_i hfits
                    refine ⟨hset _ _ rfl rfl, ?_⟩
                    rintro a ⟨⟩
                    rw [Pool.wrote_conns, Pool.setConn_self]
                    refine ⟨hheld, hnot, rfl, rfl, rfl, rfl, ?_⟩
                    exact Nat.pos_of_ne_zero fun h => hfits (Or.inr h)

theorem touches_asyncFinish (p : Pool) {b : Nat} (hb : b < p.maxConns) (failed : Bool) :
    Touches b p (asyncFinish env p b failed) := by
  have hlast : ∀ q : Pool, Touches b p q → Touches b p (checkin
      (q.setConn b { q.conns b with sendLen := 0, sendOff := 0, recvAccLen := 0 }) b) := by
    intro q hq
    have hzero : Touches b q
        (q.setConn b { q.conns b with sendLen := 0, sendOff := 0, recvAccLen := 0 }) :=
      touches_same rfl rfl
    exact hq.trans (hzero.trans (touches_checkin _ b).toTouches)
  unfold asyncFinish
  apply hlast
  split
  · exact (TouchesClean.refl b p).toTouches
  · have hdown := touches_teardown p b
    dsimp only
    split
    · have hre := touches_reconnect env (p.setConn b (p.conns b).teardownIo) (b := b) hb
      exact (hdown.trans hre.toTouches).trans (touches_busy _ b false).toTouches
    · exact hdown

/-! ### Receiving a response -/

/-- The pipeline status after some messages. -/
def PipelineStatus.fedAll (st : PipelineStatus) (ms : List Bytes) : PipelineStatus :=
  ms.foldl PipelineStatus.fed st

theorem fedAll_complete_iff (st : PipelineStatus) (ms : List Bytes) : (st.fedAll ms).complete = true ↔
    st.complete = true ∨ ∃ m ∈ ms, Framing.typeOf m = some msgReadyForQuery := by
  induction ms generalizing st with
  | nil => simp [PipelineStatus.fedAll]
  | cons m ms ih =>
      rw [PipelineStatus.fedAll, List.foldl_cons, ← PipelineStatus.fedAll, ih]
      simp [PipelineStatus.fed, or_assoc]

theorem fedAll_sawError_iff (st : PipelineStatus) (ms : List Bytes) : (st.fedAll ms).sawError = true ↔
    st.sawError = true ∨ ∃ m ∈ ms, Framing.typeOf m = some msgErrorResponse := by
  induction ms generalizing st with
  | nil => simp [PipelineStatus.fedAll]
  | cons m ms ih =>
      rw [PipelineStatus.fedAll, List.foldl_cons, ← PipelineStatus.fedAll, ih]
      simp [PipelineStatus.fed, or_assoc]

theorem fedAll_append (st : PipelineStatus) (ms ns : List Bytes) :
    st.fedAll (ms ++ ns) = (st.fedAll ms).fedAll ns := List.foldl_append

theorem fedAll_complete (st : PipelineStatus) (ms : List Bytes) (h : st.complete = false)
    (hms : ∀ m ∈ ms, Framing.typeOf m ≠ some msgReadyForQuery) :
    (st.fedAll ms).complete = false := by
  refine Bool.eq_false_iff.mpr fun hcomplete => ?_
  rcases (fedAll_complete_iff st ms).mp hcomplete with hst | ⟨m, hm, htype⟩
  · rw [h] at hst
    exact absurd hst nofun
  · exact hms m hm htype

/-- The bytes of the messages that are copied to the caller. -/
def keptBytes (w : Pqwire) (skip : Bool) (ms : List Bytes) : Bytes :=
  (ms.filter fun m => !w.filterBackendType (m.headD 0) skip).flatten

theorem keptBytes_cons (skip : Bool) (m : Bytes) (ms : List Bytes) :
    keptBytes w skip (m :: ms) =
      if w.filterBackendType (m.headD 0) skip then keptBytes w skip ms
      else m ++ keptBytes w skip ms := by
  rw [keptBytes, List.filter_cons]
  cases w.filterBackendType (m.headD 0) skip <;> rfl

theorem keptBytes_append (skip : Bool) (ms ns : List Bytes) :
    keptBytes w skip (ms ++ ns) = keptBytes w skip ms ++ keptBytes w skip ns := by
  simp [keptBytes]

/-- Only the status changes while messages are taken from the accumulated bytes. -/
theorem beFilterAppend_conn (c : BackendConn) (msg : Bytes) (resp : RespBuf) (cap : Nat) :
    (∃ st, (beFilterAppend w c msg resp cap).1 = { c with pipeSt := st }) ∧
      ∀ done, (beFilterAppend w c msg resp cap).2.2 = some done →
        (beFilterAppend w c msg resp cap).1.pipeSt.complete = done := by
  unfold beFilterAppend
  have hsame : ∃ st, c = { c with pipeSt := st } := ⟨c.pipeSt, rfl⟩
  split
  · exact ⟨hsame, fun done h => by cases h⟩
  · split
    · exact ⟨hsame, fun done h => by cases h⟩
    · split
      · exact ⟨hsame, fun done h => by cases h⟩
      · split
        · exact ⟨hsame, fun done h => by cases h⟩
        · rename_i st _
          dsimp only
          split
          · exact ⟨⟨st, rfl⟩, fun done h => Option.some.inj h⟩
          · split
            · exact ⟨⟨st, rfl⟩, fun done h => by cases h⟩
            · exact ⟨⟨st, rfl⟩, fun done h => Option.some.inj h⟩

theorem recvLoop_conn (cap fuel off : Nat) (c : BackendConn) (resp : RespBuf) :
    (∃ st, (recvLoop w cap fuel off c resp).1 = { c with pipeSt := st }) ∧
      ((recvLoop w cap fuel off c resp).2.2.2 = .more → c.pipeSt.complete = false →
        (recvLoop w cap fuel off c resp).1.pipeSt.complete = false) := by
  have hsame : ∀ c : BackendConn, ∃ st, c = { c with pipeSt := st } := fun c => ⟨c.pipeSt, rfl⟩
  induction fuel generalizing off c resp with
  | zero => exact ⟨hsame c, fun _ h => h⟩
  | succ fuel ih =>
      rw [recvLoop]
      split
      · exact ⟨hsame c, fun _ h => h⟩
      · dsimp only
        split
        · exact ⟨hsame c, fun h => by cases h⟩
        · split
          · exact ⟨hsame c, fun _ h => h⟩
          · generalize Framing.be32 (c.recvAcc (off + 1)) (c.recvAcc (off + 2))
              (c.recvAcc (off + 3)) (c.recvAcc (off + 4)) = mlen
            have hconn := beFilterAppend_conn w c (c.recvAcc.read off (1 + mlen)) resp cap
            split
            · rename_i c' resp' heq
              rw [heq] at hconn
              exact ⟨hconn.1, fun h => by cases h⟩
            · rename_i c' resp' heq
              rw [heq] at hconn
              exact ⟨hconn.1, fun h => by cases h⟩
            · rename_i c' resp' heq
              rw [heq] at hconn
              obtain ⟨⟨st, hst⟩, hflag⟩ := hconn
              dsimp only at hst
              subst hst
              have hnext := ih (off + (1 + mlen)) { c with pipeSt := st } resp'
              refine ⟨?_, fun h _ => hnext.2 h (hflag false rfl)⟩
              obtain ⟨st', hst'⟩ := hnext.1
              exact ⟨st', hst'⟩

/-- A receive keeps the session, the descriptor and the holder of the connection, and the status
tells whether the pipeline is over. -/
theorem asyncOnRecv_conn (c : BackendConn) (data : Bytes) (resp : RespBuf) (cap : Nat) :
    (∃ acc len st, (asyncOnRecv w c data resp cap).1 =
        { c with recvAcc := acc, recvAccLen := len, pipeSt := st }) ∧
      ((asyncOnRecv w c data resp cap).2.2 = .more → c.pipeSt.complete = false →
        (asyncOnRecv w c data resp cap).1.pipeSt.complete = false) := by
  unfold asyncOnRecv
  split
  · exact ⟨⟨c.recvAcc, c.recvAccLen, c.pipeSt, rfl⟩, fun h => by cases h⟩
  · dsimp only
    obtain ⟨⟨st, hst⟩, hmore⟩ := recvLoop_conn w cap (c.recvAccLen + data.length + 1) 0
      { c with
        recvAcc := c.recvAcc.write c.recvAccLen data, recvAccLen := c.recvAccLen + data.length } resp
    split
    · rename_i c' resp' off heq
      rw [heq] at hst
      dsimp only at hst
      subst hst
      exact ⟨⟨_, _, st, rfl⟩, fun h => by cases h⟩
    · rename_i c' resp' off exit hne heq
      rw [heq] at hst hmore
      dsimp only at hst hmore
      subst hst
      exact ⟨⟨_, _, st, rfl⟩, hmore⟩

theorem framed_read (m : Mem) (off : Nat)
    (h : 4 ≤ Framing.be32 (m (off + 1)) (m (off + 2)) (m (off + 3)) (m (off + 4))) :
    Framing.Framed (m.read off
      (1 + Framing.be32 (m (off + 1)) (m (off + 2)) (m (off + 3)) (m (off + 4)))) := by
  obtain ⟨k, hk⟩ := Nat.exists_eq_add_of_le h
  have hread : m.read off (1 + (4 + k)) =
      [m off, m (off + 1), m (off + 2), m (off + 3), m (off + 4)] ++ m.read (off + 5) k := by
    rw [show 1 + (4 + k) = 5 + k by omega, Mem.read_add]
    rfl
  refine ⟨?_, by rw [Mem.read_length]; omega⟩
  rw [Mem.read_length, Nat.add_sub_cancel_left, hk, hread]
  change some _ = some _
  rw [hk]

/-- What one message does to the status and to the response. -/
theorem beFilterAppend_spec {w : Pqwire} (hw : w.FollowsPipeline) (hp : w.Peeks) {c : BackendConn}
    {msg : Bytes} (hmsg : Framing.Framed msg) {resp : RespBuf} {cap : Nat} {done : Bool}
    (h : (beFilterAppend w c msg resp cap).2.2 = some done) :
    (beFilterAppend w c msg resp cap).1.pipeSt = c.pipeSt.fed msg ∧
      done = (c.pipeSt.fed msg).complete ∧
      (beFilterAppend w c msg resp cap).2.1.bytes =
        resp.bytes ++ keptBytes w c.skipParseBind [msg] := by
  unfold beFilterAppend at h ⊢
  have hkept : keptBytes w c.skipParseBind [msg] =
      if w.filterBackendType (msg.headD 0) c.skipParseBind then [] else msg := by
    rw [keptBytes_cons]
    simp [keptBytes]
  split at h
  · cases h
  · rename_i hlen
    rw [if_neg hlen]
    split at h
    · cases h
    · rename_i t total hpeek
      have hhead : msg.headD 0 = t := by
        rw [List.headD_eq_head?_getD, show msg.head? = _ from hp.typeOf msg t total hpeek]
        rfl
      rw [hhead] at hkept
      split at h
      · cases h
      · rename_i htotal
        rw [if_neg htotal]
        rw [hw.feed _ msg hmsg] at h ⊢
        dsimp only at h ⊢
        rw [hkept]
        split at h
        · rename_i hskip
          rw [if_pos hskip, if_pos hskip]
          exact ⟨rfl, (Option.some.inj h).symm, (List.append_nil _).symm⟩
        · rename_i hskip
          rw [if_neg hskip, if_neg hskip]
          split at h
          · cases h
          · rename_i hcap
            rw [if_neg hcap]
            exact ⟨rfl, (Option.some.inj h).symm, Mem.read_write_append _ _ _⟩

/-- The messages that a receive takes from the accumulated bytes, up to a ReadyForQuery. -/
structure Taken (w : Pqwire) (c : BackendConn) (resp : RespBuf) (used : Bytes) (exit : RecvExit)
    (c' : BackendConn) (resp' : RespBuf) (ms : List Bytes) : Prop where
  framed : ∀ m ∈ ms, Framing.Framed m
  used : used = ms.flatten
  status : c'.pipeSt = c.pipeSt.fedAll ms
  resp : resp'.bytes = resp.bytes ++ keptBytes w c.skipParseBind ms
  more : exit = .more → ∀ m ∈ ms, Framing.typeOf m ≠ some msgReadyForQuery
  complete : exit = .complete → ∃ init last, ms = init ++ [last] ∧
    (∀ m ∈ init, Framing.typeOf m ≠ some msgReadyForQuery) ∧
      Framing.typeOf last = some msgReadyForQuery

theorem recvLoop_taken {w : Pqwire} (hw : w.FollowsPipeline) (hp : w.Peeks) (cap fuel off : Nat)
    (c : BackendConn) (resp : RespBuf) (hst : c.pipeSt.complete = false)
    (hoff : off ≤ c.recvAccLen) {c' : BackendConn} {resp' : RespBuf} {off' : Nat} {exit : RecvExit}
    (h : recvLoop w cap fuel off c resp = (c', resp', off', exit)) (hexit : exit ≠ .failed) :
    off ≤ off' ∧ off' ≤ c.recvAccLen ∧
      ∃ ms, Taken w c resp (c.recvAcc.read off (off' - off)) exit c' resp' ms := by
  have hnil : ∀ (off : Nat) (c : BackendConn) (resp : RespBuf), off ≤ c.recvAccLen →
      off ≤ off ∧ off ≤ c.recvAccLen ∧
        ∃ ms, Taken w c resp (c.recvAcc.read off (off - off)) .more c resp ms := by
    intro off c resp hoff
    exact ⟨Nat.le_refl _, hoff, [], by simp, by simp, rfl, by simp [keptBytes], by simp,
      fun h => by cases h⟩
  induction fuel generalizing off c resp with
  | zero =>
      cases h
      exact hnil _ _ _ hoff
  | succ fuel ih =>
      rw [recvLoop] at h
      split at h
      · cases h
        exact hnil _ _ _ hoff
      · dsimp only at h
        split at h
        · cases h
          exact absurd rfl hexit
        · rename_i hsmall
          split at h
          · cases h
            exact hnil _ _ _ hoff
          · rename_i hfits
            have hframed := framed_read c.recvAcc off (Nat.le_of_not_lt hsmall)
            have hlen := Nat.le_of_not_lt hfits
            clear hsmall hfits
            generalize Framing.be32 (c.recvAcc (off + 1)) (c.recvAcc (off + 2))
              (c.recvAcc (off + 3)) (c.recvAcc (off + 4)) = mlen at hframed hlen h
            have hspec := fun done => @beFilterAppend_spec w hw hp c _ hframed resp cap done
            have hconn := beFilterAppend_conn w c (c.recvAcc.read off (1 + mlen)) resp cap
            split at h
            · cases h
              exact absurd rfl hexit
            · rename_i c₁ resp₁ heq
              rw [heq] at hspec
              cases h
              obtain ⟨h1, h2, h3⟩ := hspec true rfl
              have htype : Framing.typeOf (c.recvAcc.read off (1 + mlen)) =
                  some msgReadyForQuery := by
                simpa [PipelineStatus.fed, hst] using h2
              refine ⟨by omega, hlen, [c.recvAcc.read off (1 + mlen)], by simpa using hframed, ?_,
                h1, h3, fun h => (by cases h), fun _ => ⟨[], _, rfl, by simp, htype⟩⟩
              rw [Nat.add_sub_cancel_left, List.flatten_singleton]
            · rename_i c₁ resp₁ heq
              rw [heq] at hspec hconn
              obtain ⟨h1, h2, h3⟩ := hspec false rfl
              obtain ⟨⟨st, hst₁⟩, hflag⟩ := hconn
              dsimp only at hst₁ h1 h3
              have htype : Framing.typeOf (c.recvAcc.read off (1 + mlen)) ≠
                  some msgReadyForQuery := by
                intro htype
                simp [PipelineStatus.fed, htype] at h2
              have hacc : c₁.recvAcc = c.recvAcc ∧ c₁.recvAccLen = c.recvAccLen ∧
                  c₁.skipParseBind = c.skipParseBind := by
                rw [hst₁]
                exact ⟨rfl, rfl, rfl⟩
              obtain ⟨ha, hl, hs⟩ := hacc
              have hoff₁ : off + (1 + mlen) ≤ c₁.recvAccLen := by rw [hl]; exact hlen
              obtain ⟨hle, hle', ms, hms⟩ := ih (off + (1 + mlen)) c₁ resp₁ (hflag false rfl) hoff₁ h
              refine ⟨by omega, by omega, c.recvAcc.read off (1 + mlen) :: ms, ?_, ?_, ?_, ?_, ?_, ?_⟩
              · intro m hm
                rcases List.mem_cons.mp hm with rfl | hm
                · exact hframed
                · exact hms.framed m hm
              · have hused := hms.used
                rw [ha] at hused
                rw [List.flatten_cons, ← hused,
                  show off' - off = 1 + mlen + (off' - (off + (1 + mlen))) by omega, Mem.read_add]
              · rw [hms.status, h1]
                rfl
              · rw [hms.resp, h3, hs, List.append_assoc, ← keptBytes_append]
                rfl
              · intro hmore m hm
                rcases List.mem_cons.mp hm with rfl | hm
                · exact htype
                · exact hms.more hmore m hm
              · intro hdone
                obtain ⟨init, last, rfl, hinit, hlast⟩ := hms.complete hdone
                refine ⟨c.recvAcc.read off (1 + mlen) :: init, last, rfl, ?_, hlast⟩
                intro m hm
                rcases List.mem_cons.mp hm with rfl | hm
                · exact htype
                · exact hinit m hm

/-- A receive that does not fail moves whole messages into the response. -/
theorem asyncOnRecv_taken {w : Pqwire} (hw : w.FollowsPipeline) (hp : w.Peeks) (c : BackendConn)
    (data : Bytes) (resp : RespBuf) (cap : Nat) (hst : c.pipeSt.complete = false)
    {c' : BackendConn} {resp' : RespBuf} {exit : RecvExit}
    (h : asyncOnRecv w c data resp cap = (c', resp', exit)) (hexit : exit ≠ .failed) :
    ∃ ms, Taken w c resp (usedUp c c' data) exit c' resp' ms := by
  unfold asyncOnRecv at h
  split at h
  · cases h
    exact absurd rfl hexit
  · dsimp only at h
    split at h
    · cases h
      exact absurd rfl hexit
    · rename_i c₁ resp₁ off exit₁ hne heq
      let filled : BackendConn := { c with
        recvAcc := c.recvAcc.write c.recvAccLen data, recvAccLen := c.recvAccLen + data.length }
      obtain ⟨-, hoff, ms, hms⟩ := recvLoop_taken hw hp cap (filled.recvAccLen + 1) 0 filled resp hst
        (Nat.zero_le _) heq hne
      have hconn := (recvLoop_conn w cap (filled.recvAccLen + 1) 0 filled resp).1
      rw [heq] at hconn
      obtain ⟨st, hst₁⟩ := hconn
      dsimp only at hst₁ hoff
      subst hst₁
      cases h
      have hused : usedUp c { c with
          recvAcc := (c.recvAcc.write c.recvAccLen data).write 0
            ((c.recvAcc.write c.recvAccLen data).read off (c.recvAccLen + data.length - off)),
          recvAccLen := c.recvAccLen + data.length - off, pipeSt := st } data =
            (c.recvAcc.write c.recvAccLen data).read 0 (off - 0) := by
        rw [usedUp, ← Mem.read_write_append]
        dsimp only
        rw [Nat.sub_sub_self hoff, Mem.take_read _ _ hoff, Nat.sub_zero]
      refine ⟨ms, hms.framed, ?_, hms.status, hms.resp, hms.more, hms.complete⟩
      rw [hused]
      exact hms.used

end
