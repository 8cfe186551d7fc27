import PqProxy.PoolReassembly

/-! The two collectors of a response: the blocking loop of `pqproxy_backend_flush_pipeline_ex` and the
receives of an asynchronous pipeline. On a response that fits the accumulator they differ in one
thing: the blocking loop reads at most 256 messages. -/

section

variable {w : Pqwire} {cap : Nat}

/-- The blocking loop takes the messages before a ReadyForQuery one by one, until one does not fit the
caller's buffer. -/
theorem collect_messages (hw : w.FollowsPipeline) (cap : Nat) (skip : Bool) (ms : List Bytes)
    (hms : ∀ m ∈ ms, Framing.Framed m ∧ Framing.typeOf m ≠ some msgReadyForQuery)
    (hsize : ∀ m ∈ ms, m.length ≤ 16384) (rest : Bytes) (rounds : Nat)
    (st : PipelineStatus) (out : Bytes) (hst : st.complete = false) (hroom : out.length ≤ cap) :
    (cap < out.length + (keptBytes w skip ms).length ∧
        (collect w cap skip (rounds + ms.length) none (ms.flatten ++ rest) st out).exit = .full) ∨
      ((out ++ keptBytes w skip ms).length ≤ cap ∧
        collect w cap skip (rounds + ms.length) none (ms.flatten ++ rest) st out =
          collect w cap skip rounds none rest (st.fedAll ms) (out ++ keptBytes w skip ms)) := by
  induction ms generalizing st out with
  | nil =>
      refine Or.inr ?_
      rw [show keptBytes w skip [] = [] from rfl, List.append_nil]
      exact ⟨hroom, rfl⟩
  | cons m ms ih =>
      obtain ⟨hm, htype⟩ := hms m List.mem_cons_self
      have hshort := hsize m List.mem_cons_self
      have hfed : (st.fed m).complete = false := by simp [PipelineStatus.fed, hst, htype]
      have hnext := fun (out : Bytes) (hroom : out.length ≤ cap) =>
        ih (fun x hx => hms x (List.mem_cons_of_mem _ hx))
          (fun x hx => hsize x (List.mem_cons_of_mem _ hx)) (st.fed m) out hfed hroom
      rw [List.length_cons, ← Nat.add_assoc, List.flatten_cons, List.append_assoc,
        collect_message hw cap skip hm _ none _ hst out, if_neg (by simp), if_neg (by omega),
        Option.map_none, keptBytes_cons]
      by_cases hskip : w.filterBackendType (m.headD 0) skip = true
      · rw [if_pos hskip, if_pos hskip]
        exact hnext out hroom
      · rw [if_neg hskip, if_neg hskip]
        by_cases hfull : cap < out.length + m.length
        · rw [if_pos hfull, List.length_append]
          exact Or.inl ⟨by omega, rfl⟩
        · rw [if_neg hfull, ← List.append_assoc, @List.length_append _ m, ← Nat.add_assoc,
            ← List.length_append]
          exact hnext (out ++ m) (by rw [List.length_append]; omega)

/-- The blocking loop on a whole response: it completes when the response fits its rounds and the
caller's buffer, and only then. -/
theorem collect_response (hw : w.FollowsPipeline) (cap : Nat) (skip : Bool) (r : Response)
    (hsize : ∀ m ∈ r.messages, m.length ≤ 16384) (rounds : Nat) :
    (r.messages.length ≤ rounds ∧ (keptBytes w skip r.messages).length ≤ cap ∧
        collect w cap skip rounds none r.bytes .init [] =
          ⟨.ended, [], PipelineStatus.init.fedAll r.messages, keptBytes w skip r.messages⟩) ∨
      (¬(r.messages.length ≤ rounds ∧ (keptBytes w skip r.messages).length ≤ cap) ∧
        ((collect w cap skip rounds none r.bytes .init []).exit = .full ∨
          (collect w cap skip rounds none r.bytes .init []).exit = .ended ∧
            (collect w cap skip rounds none r.bytes .init []).status.complete = false)) := by
  have hbody : ∀ m ∈ r.body, m.length ≤ 16384 := fun m hm => hsize m (List.mem_append_left _ hm)
  have hlast : r.last.length ≤ 16384 := hsize r.last (by simp [Response.messages])
  have hkept : keptBytes w skip r.messages = keptBytes w skip r.body ++ r.last := by
    rw [Response.messages, keptBytes_append, hw.keptBytes_last r.last_framed.2]
  have hcount : r.messages.length = r.body.length + 1 := List.length_append
  rw [Response.bytes, hkept, hcount, List.length_append]
  by_cases hrounds : r.body.length + 1 ≤ rounds
  · obtain ⟨more, rfl⟩ := Nat.exists_eq_add_of_le hrounds
    rw [show r.body.length + 1 + more = more + 1 + r.body.length by omega]
    rcases collect_messages hw cap skip r.body r.body_framed hbody r.last (more + 1) .init [] rfl
      (Nat.zero_le _) with ⟨hover, hfull⟩ | ⟨hroom, hloop⟩
    · rw [List.length_nil, Nat.zero_add] at hover
      exact Or.inr ⟨by omega, Or.inl hfull⟩
    · rw [List.nil_append] at hroom hloop
      have hmsg := collect_message hw cap skip r.last_framed.1 more none []
        (fedAll_complete .init r.body rfl fun m hm => (r.body_framed m hm).2)
        (keptBytes w skip r.body)
      rw [List.append_nil, if_neg (by simp), if_neg (by omega), hw.keeps_last r.last_framed.2,
        if_neg (by decide), Option.map_none] at hmsg
      by_cases hfull : cap < (keptBytes w skip r.body).length + r.last.length
      · rw [if_pos hfull] at hmsg
        exact Or.inr ⟨by omega, Or.inl (by rw [hloop, hmsg])⟩
      · rw [if_neg hfull] at hmsg
        refine Or.inl ⟨by omega, by omega, ?_⟩
        have hstatus : (PipelineStatus.init.fedAll r.body).fed r.last =
            PipelineStatus.init.fedAll r.messages := by
          rw [Response.messages, PipelineStatus.fedAll, PipelineStatus.fedAll, List.foldl_append]
          rfl
        have hdone : (PipelineStatus.init.fedAll r.messages).complete = true := by
          rw [← hstatus]
          simp [PipelineStatus.fed, r.last_framed.2]
        rw [hloop, hmsg, hstatus]
        -- the loop stops at the ReadyForQuery, whatever rounds are left
        cases more with
        | zero => rfl
        | succ more => rw [collect, if_pos hdone]
  · -- the rounds are used up before the ReadyForQuery
    refine Or.inr ⟨fun h => hrounds h.1, ?_⟩
    have hsplit : r.body.flatten ++ r.last =
        (r.body.take rounds).flatten ++ ((r.body.drop rounds).flatten ++ r.last) := by
      rw [← List.append_assoc, ← List.flatten_append, List.take_append_drop]
    have htake : rounds = 0 + (r.body.take rounds).length := by
      rw [List.length_take]
      omega
    have hmem : ∀ m ∈ r.body.take rounds, m ∈ r.body := fun m hm => List.mem_of_mem_take hm
    have hloop := collect_messages hw cap skip (r.body.take rounds)
      (fun m hm => r.body_framed m (hmem m hm)) (fun m hm => hbody m (hmem m hm))
      ((r.body.drop rounds).flatten ++ r.last) 0 .init [] rfl (Nat.zero_le _)
    rw [← htake, ← hsplit] at hloop
    rcases hloop with ⟨-, hfull⟩ | ⟨-, hloop⟩
    · exact Or.inl hfull
    · rw [hloop]
      refine Or.inr ⟨rfl, ?_⟩
      exact fedAll_complete _ _ rfl fun m hm => (r.body_framed m (hmem m hm)).2

/-! ### The two collectors side by side -/

/-- What the blocking collector finds: a live connection that is written to without an error, and
whose socket then holds the response. -/
structure Responds (env : Env) (now : Nat) (c : BackendConn) (r : Response) : Prop where
  alive : c.alive = true
  wire : ∃ pending, c.wire = some pending ∧ (pending ≠ [] → env.write now = true) ∧
    (if pending = [] then c.inbox else c.inbox ++ (env.answer now).bytes) = r.bytes
  fault : env.fault now = none

/-- The blocking collector succeeds exactly when the receives complete, and then both hand out the
same bytes and the same status. -/
def CollectorsAgree (flushed : BackendConn × Flushed) (outcome : RecvOutcome) : Prop :=
  (flushed.2.ok = true ↔ ∃ out st, outcome = .complete [] out st) ∧
    ∀ out st, flushed.2.ok = true → outcome = .complete [] out st →
      flushed.2.written = out ∧ flushed.2.outLen = out.length ∧ flushed.1.pipeSt = st

theorem flushEnd_not_ok (c : BackendConn) {r : Collected}
    (h : r.exit = .full ∨ r.exit = .ended ∧ r.status.complete = false) :
    (flushEnd c r).2.ok = false := by
  unfold flushEnd
  rcases h with hfull | ⟨hended, hopen⟩
  · rw [hfull]
  · rw [hended]
    exact hopen

/-- The blocking collector on a whole response. -/
theorem flushConn_response (hw : w.FollowsPipeline) {env : Env} {now : Nat} {r : Response}
    {c : BackendConn} (hc : Responds env now c r) (hsize : ∀ m ∈ r.messages, m.length ≤ 16384)
    (cap : Nat) :
    (r.messages.length ≤ 256 ∧ (keptBytes w true r.messages).length ≤ cap ∧
        (flushConn w env now cap true c).2 =
          ⟨keptBytes w true r.messages, (keptBytes w true r.messages).length, true⟩ ∧
        (flushConn w env now cap true c).1.pipeSt = PipelineStatus.init.fedAll r.messages) ∨
      (¬(r.messages.length ≤ 256 ∧ (keptBytes w true r.messages).length ≤ cap) ∧
        (flushConn w env now cap true c).2.ok = false) := by
  obtain ⟨pending, hwire, hwrite, hinbox⟩ := hc.wire
  have hflush : flushConn w env now cap true c =
      flushEnd c (collect w cap true 256 none r.bytes .init []) := by
    rw [flushConn, hc.alive, hwire, ← hinbox, hc.fault]
    dsimp only
    rw [if_neg]
    rintro ⟨hne, hfail⟩
    rw [hwrite hne] at hfail
    cases hfail
  rw [hflush]
  rcases collect_response hw cap true r hsize 256 with
    ⟨hrounds, hroom, hcollect⟩ | ⟨hnot, hfail⟩
  · have hcomplete : (PipelineStatus.init.fedAll r.messages).complete = true := by
      rw [Response.messages, PipelineStatus.fedAll, List.foldl_append]
      simp [PipelineStatus.fed, r.last_framed.2]
    rw [hcollect]
    refine Or.inl ⟨hrounds, hroom, ?_, rfl⟩
    exact congrArg (Flushed.mk _ _) hcomplete
  · exact Or.inr ⟨hnot, flushEnd_not_ok c hfail⟩

theorem Response.short {r : Response} (h : r.bytes.length ≤ beRecvCap) :
    ∀ m ∈ r.messages, m.length ≤ 16384 := by
  intro m hm
  have hle := List.Sublist.length_le (List.sublist_flatten_of_mem hm)
  rw [r.flatten_messages] at hle
  exact Nat.le_trans hle h

/-- The collectors agree exactly on the responses of at most 256 messages, and on those that exceed
the caller's buffer. -/
theorem collectorsAgree_iff (hw : w.FollowsPipeline) (hp : w.PeeksLength) {env : Env} {now : Nat}
    {r : Response} {blocking async : BackendConn} {resp : RespBuf}
    (hblocking : Responds env now blocking r) (hasync : Fresh async resp)
    (hskip : async.skipParseBind = true) (hlen : r.bytes.length ≤ beRecvCap) {chunks : List Bytes}
    (hchunks : Segments r.bytes chunks) :
    CollectorsAgree (flushConn w env now cap true blocking) (recvChunks w cap chunks async resp) ↔
      r.messages.length ≤ 256 ∨ cap < (keptBytes w true r.messages).length := by
  have hrecv := recvChunks_outcome cap hw hp hasync hchunks
  rw [hskip] at hrecv
  rcases flushConn_response hw hblocking (Response.short hlen) cap with
    ⟨hrounds, hroom, hflush, hstatus⟩ | ⟨hnot, hok⟩
  · -- both deliver the response
    rcases hrecv with ⟨-, hover⟩ | ⟨hdone, -, -⟩
    · omega
    · rw [hdone]
      refine iff_of_true ⟨iff_of_true (by rw [hflush]) ⟨_, _, rfl⟩, ?_⟩ (Or.inl hrounds)
      rintro out st - ⟨⟩
      rw [hflush, hstatus]
      exact ⟨rfl, rfl, rfl⟩
  · rcases hrecv with ⟨hlate, hover⟩ | ⟨hdone, -, hroom⟩
    · rw [hlate]
      refine iff_of_true ⟨iff_of_false (by rw [hok]; nofun) ?_, ?_⟩ (by omega)
      · rintro ⟨out, st, h⟩
        cases h
      · rintro out st - h
        cases h
    · rw [hdone]
      refine iff_of_false ?_ (by omega)
      rintro ⟨hiff, -⟩
      rw [hok] at hiff
      exact absurd (hiff.mpr ⟨_, _, rfl⟩) (by decide)

end

/-! A result of 253 rows: with the messages around them the ReadyForQuery is the 257th. -/

def emptyRow : Bytes := WirePg.frame 68 [0, 0]

theorem manyRows_framed : ∀ m ∈ [WirePg.encode .parseComplete, WirePg.encode .bindComplete] ++
    List.replicate 253 emptyRow ++ [WirePg.encode (.commandComplete "SELECT 253".toList)],
    Framing.Framed m ∧ Framing.typeOf m ≠ some msgReadyForQuery := by
  intro m hm
  rcases List.mem_append.mp hm with hm | hm
  · rcases List.mem_append.mp hm with hm | hm
    · simp only [List.mem_cons, List.not_mem_nil, or_false] at hm
      rcases hm with rfl | rfl
      · decide
      · decide
    · rw [List.eq_of_mem_replicate hm]
      decide
  · rw [List.mem_singleton.mp hm]
    decide

theorem readyForQuery_framed : Framing.Framed (WirePg.encode .readyForQuery) ∧
    Framing.typeOf (WirePg.encode .readyForQuery) = some msgReadyForQuery := by decide

def manyRows : Response where
  body := [WirePg.encode .parseComplete, WirePg.encode .bindComplete] ++
    List.replicate 253 emptyRow ++ [WirePg.encode (.commandComplete "SELECT 253".toList)]
  last := WirePg.encode .readyForQuery
  body_framed := manyRows_framed
  last_framed := readyForQuery_framed

/-- A live connection with a pipeline that has not been written yet. -/
def loadedConn : BackendConn :=
  { BackendConn.fresh 0 with alive := true, fd := some 5, wire := some [83, 0, 0, 0, 4] }

theorem loadedConn_responds (r : Response) : Responds (answering r) 0 loadedConn r :=
  ⟨rfl, ⟨_, rfl, fun _ => rfl, rfl⟩, rfl⟩

theorem segments_one {stream : Bytes} (h : 1 ≤ stream.length ∧ stream.length ≤ ioBuf) :
    Segments stream [stream] where
  whole := List.flatten_singleton
  sized := by simpa using h

theorem collectorsAgree_insert :
    CollectorsAgree (flushConn pgWire (answering insertResponse) 0 ioBuf true loadedConn)
      (recvChunks pgWire ioBuf [insertResponse.bytes] freshConn ⟨Mem.zero, 0⟩) :=
  (collectorsAgree_iff WirePg.followsPipeline WirePg.peeksLength (loadedConn_responds insertResponse)
    fresh_freshConn rfl (by decide) (segments_one (by decide))).mpr (Or.inl (by decide))

/-- Received in one chunk the rows arrive; the blocking loop gives up one message too early. -/
theorem not_collectorsAgree :
    ¬ CollectorsAgree (flushConn pgWire (answering manyRows) 0 ioBuf true loadedConn)
      (recvChunks pgWire ioBuf [manyRows.bytes] freshConn ⟨Mem.zero, 0⟩) := by
  rintro ⟨hiff, -⟩
  have hlen : 1 ≤ manyRows.bytes.length ∧ manyRows.bytes.length ≤ ioBuf := by decide +kernel
  have hkept : (keptBytes pgWire true manyRows.messages).length ≤ ioBuf := by decide +kernel
  have hcount : 256 < manyRows.messages.length := by decide +kernel
  rcases flushConn_response WirePg.followsPipeline (loadedConn_responds manyRows)
    (Response.short hlen.2) ioBuf with ⟨hrounds, -⟩ | ⟨-, hok⟩
  · omega
  · rw [hok] at hiff
    rcases recvChunks_outcome ioBuf WirePg.followsPipeline WirePg.peeksLength fresh_freshConn
      (segments_one hlen) with ⟨-, hover⟩ | ⟨hdone, -⟩
    · rcases hover with hlong | hfull
      · exact absurd hlen.2 (Nat.not_le.mpr hlong)
      · exact absurd hkept (Nat.not_le.mpr hfull)
    · exact absurd (hiff.mpr ⟨_, _, hdone⟩) (by decide)
