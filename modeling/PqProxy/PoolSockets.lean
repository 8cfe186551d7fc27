import PqProxy.Transfers
import PqProxy.Pool

/-! The blocking input and output of the pool, one system call after the other. The pool is modelled by what a
read or a write of a whole message gives; here these are the loops of the source, and everything the calls
can do is an outcome that the model knows. -/

open Transfers (Line movedBy)

/-- `read_msg`. -/
def Transfers.Line.readMsg (l : Line) (cap : Nat) : Line × Option Bytes :=
  match l.readUntil 5 [] with
  | (l, none) => (l, none)
  | (l, some hdr) =>
      match Framing.lengthField hdr with
      | none => (l, none)
      | some mlen =>
          if mlen < 4 ∨ 16 * 1024 * 1024 < mlen then (l, none)
          else if cap < 1 + mlen then (l, none)
          else l.readUntil (1 + mlen) hdr

section

variable {l l' : Line} {cap : Nat} {m inbox rest : Bytes}

/-- A message that was read call by call is the one at the front of the stream, and all that was read. -/
theorem readMsg_of_calls (h : l.readMsg cap = (l', some m)) :
    readMsg l.inbox cap = (l'.inbox, some m) ∧ l' = { l with reads := l'.reads, inbox := l'.inbox } := by
  unfold Transfers.Line.readMsg at h
  cases hhead : l.readUntil 5 [] with
  | mk l₁ hdr =>
      rw [hhead] at h
      cases hdr with
      | none => cases h
      | some hdr =>
          have hnone : ([] : Bytes).length + 5 = 5 := rfl
          obtain ⟨hfive, rfl, hl₁⟩ := Transfers.readUntil_some hnone hhead
          dsimp only at h
          rw [List.nil_append] at h
          have hfield : Framing.lengthField (l.inbox.take 5) = Framing.lengthField l.inbox := by
            have happend := Framing.lengthField_append (m := l.inbox.take 5)
              (by rw [List.length_take]; omega) (l.inbox.drop 5)
            rw [List.take_append_drop] at happend
            exact happend.symm
          rw [hfield] at h
          unfold readMsg
          cases hlen : Framing.lengthField l.inbox with
          | none =>
              rw [hlen] at h
              cases h
          | some mlen =>
              rw [hlen] at h
              dsimp only at h ⊢
              by_cases hbad : mlen < 4 ∨ 16 * 1024 * 1024 < mlen
              · rw [if_pos hbad] at h
                cases h
              · rw [if_neg hbad] at h ⊢
                by_cases hcap : cap < 1 + mlen
                · rw [if_pos hcap] at h
                  cases h
                · rw [if_neg hcap] at h ⊢
                  have hinbox : l₁.inbox = l.inbox.drop 5 := by rw [hl₁]
                  obtain ⟨hrest, rfl, hl'⟩ := Transfers.readUntil_some (n := mlen - 4)
                    (by rw [List.length_take]; omega) h
                  rw [hinbox, List.length_drop] at hrest
                  have hinbox' : l'.inbox = l.inbox.drop (1 + mlen) := by
                    rw [hl', hinbox]
                    dsimp only
                    rw [List.drop_drop]
                    congr 1
                    omega
                  have hsum : 5 + (mlen - 4) = 1 + mlen := by omega
                  rw [if_neg (by omega), hinbox', hinbox, ← List.take_add, hsum]
                  refine ⟨rfl, ?_⟩
                  rw [hl']
                  dsimp only
                  rw [hinbox, List.drop_drop, hsum, hl₁]

/-- Two calls can read a message. -/
theorem readMsg_realised (h : readMsg inbox cap = (rest, some m)) (tail : List Transfers.Turn) :
    ∃ reads, ∀ writes outbox, (Line.mk reads writes inbox outbox).readMsg cap =
      (⟨tail, writes, rest, outbox⟩, some m) := by
  unfold readMsg at h
  cases hlen : Framing.lengthField inbox with
  | none =>
      rw [hlen] at h
      cases h
  | some mlen =>
      rw [hlen] at h
      dsimp only at h
      by_cases hbad : mlen < 4 ∨ 16 * 1024 * 1024 < mlen
      · rw [if_pos hbad] at h
        cases h
      · rw [if_neg hbad] at h
        by_cases hcap : cap < 1 + mlen
        · rw [if_pos hcap] at h
          cases h
        · rw [if_neg hcap] at h
          by_cases hcut : inbox.length < 1 + mlen
          · rw [if_pos hcut] at h
            cases h
          · rw [if_neg hcut] at h
            obtain ⟨hrest, hm⟩ := Prod.mk.inj h
            obtain ⟨hfive, hfield⟩ : 5 ≤ inbox.length ∧
                Framing.lengthField (inbox.take 5) = some mlen := by
              match inbox, hlen with
              | _ :: _ :: _ :: _ :: _ :: _, hlen => exact ⟨by simp, hlen⟩
            -- the header in one call, and the rest in another unless there is none
            obtain ⟨more, hmore⟩ : ∃ more, movedBy (more ++ tail) (mlen - 4) = some tail := by
              cases hbody : mlen - 4 with
              | zero => exact ⟨[], Transfers.movedBy_zero tail⟩
              | succ n => exact ⟨[.moved n], Transfers.movedBy_moved tail n⟩
            refine ⟨.moved 4 :: (more ++ tail), fun writes outbox => ?_⟩
            have hnone : ([] : Bytes).length + 5 = 5 := rfl
            have hhead : (Line.mk (.moved 4 :: (more ++ tail)) writes inbox outbox).readUntil 5 [] =
                (⟨more ++ tail, writes, inbox.drop 5, outbox⟩, some (inbox.take 5)) :=
              Transfers.readUntil_eq _ hnone hfive (Transfers.movedBy_moved _ 4)
            have hbody : (Line.mk (more ++ tail) writes (inbox.drop 5) outbox).readUntil (1 + mlen)
                (inbox.take 5) = (⟨tail, writes, rest, outbox⟩, some m) := by
              have hsum : 5 + (mlen - 4) = 1 + mlen := by omega
              rw [Transfers.readUntil_eq _ (n := mlen - 4) (by rw [List.length_take]; omega)
                (by rw [List.length_drop]; omega) hmore]
              dsimp only
              rw [← List.take_add, List.drop_drop, hsum, hrest, hm]
            unfold Transfers.Line.readMsg
            rw [hhead]
            dsimp only
            rw [hfield]
            dsimp only
            rw [if_neg hbad, if_neg hcap, hbody]

end

/-! ### The answer to a pipeline -/

section

variable (w : Pqwire)

/-- The read loop of `pqproxy_backend_flush_pipeline_ex`, call by call. -/
def collectCalls (cap : Nat) (skip : Bool) : Nat → Line → PipelineStatus → Bytes → Collected
  | 0, l, st, out => ⟨.ended, l.inbox, st, out⟩
  | rounds + 1, l, st, out =>
      if st.complete then ⟨.ended, l.inbox, st, out⟩
      else
        match l.readMsg 16384 with
        | (l, none) => ⟨.dead, l.inbox, st, out⟩
        | (l, some m) =>
            match w.feedBackendMsg st m with
            | none => ⟨.dead, l.inbox, st, out⟩
            | some st =>
                if w.filterBackendType (m.headD 0) skip then collectCalls cap skip rounds l st out
                else if cap < out.length + m.length then ⟨.full, l.inbox, st, out⟩
                else collectCalls cap skip rounds l st (out ++ m)

/-- Two ends of the read loop that differ at most in what a dead connection leaves unread. -/
structure Collected.Alike (r r' : Collected) : Prop where
  exit : r.exit = r'.exit
  status : r.status = r'.status
  out : r.out = r'.out
  inbox : r.exit ≠ .dead → r.inbox = r'.inbox

theorem Collected.Alike.refl (r : Collected) : r.Alike r := ⟨rfl, rfl, rfl, fun _ => rfl⟩

theorem Collected.Alike.dead (inbox inbox' : Bytes) (st : PipelineStatus) (out : Bytes) :
    Collected.Alike ⟨.dead, inbox, st, out⟩ ⟨.dead, inbox', st, out⟩ :=
  ⟨rfl, rfl, rfl, fun h => absurd rfl h⟩

/-- What the read loop does with a message, given how it goes on. -/
def takeMessage (cap : Nat) (skip : Bool) (inbox : Bytes) (st : PipelineStatus) (out m : Bytes)
    (again : PipelineStatus → Bytes → Collected) : Collected :=
  match w.feedBackendMsg st m with
  | none => ⟨.dead, inbox, st, out⟩
  | some st =>
      if w.filterBackendType (m.headD 0) skip then again st out
      else if cap < out.length + m.length then ⟨.full, inbox, st, out⟩
      else again st (out ++ m)

variable {w} {cap : Nat} {skip : Bool}

theorem collect_succ (rounds : Nat) (fault : Option Nat) (inbox : Bytes) {st : PipelineStatus}
    (hst : st.complete = false) (out : Bytes) :
    collect w cap skip (rounds + 1) fault inbox st out =
      if fault = some 0 then ⟨.dead, inbox, st, out⟩
      else
        match readMsg inbox 16384 with
        | (inbox, none) => ⟨.dead, inbox, st, out⟩
        | (inbox, some m) => takeMessage w cap skip inbox st out m
            fun st out => collect w cap skip rounds (fault.map (· - 1)) inbox st out := by
  have hopen : ¬ st.complete = true := Bool.eq_false_iff.mp hst
  rw [collect, if_neg hopen]
  rfl

theorem collectCalls_succ (rounds : Nat) (l : Line) {st : PipelineStatus} (hst : st.complete = false)
    (out : Bytes) : collectCalls w cap skip (rounds + 1) l st out =
      match l.readMsg 16384 with
      | (l, none) => ⟨.dead, l.inbox, st, out⟩
      | (l, some m) => takeMessage w cap skip l.inbox st out m
          fun st out => collectCalls w cap skip rounds l st out := by
  have hopen : ¬ st.complete = true := Bool.eq_false_iff.mp hst
  rw [collectCalls, if_neg hopen]
  rfl

/-- The loop goes on from one place at most. -/
theorem takeMessage_alike (inbox : Bytes) (st : PipelineStatus) (out m : Bytes) :
    ∃ st' out', ∀ again again' : PipelineStatus → Bytes → Collected,
      (again st' out').Alike (again' st' out') →
        (takeMessage w cap skip inbox st out m again).Alike
          (takeMessage w cap skip inbox st out m again') := by
  unfold takeMessage
  cases w.feedBackendMsg st m with
  | none => exact ⟨st, out, fun _ _ _ => .refl _⟩
  | some st' =>
      dsimp only
      by_cases hfilter : w.filterBackendType (m.headD 0) skip
      · refine ⟨st', out, fun again again' h => ?_⟩
        rw [if_pos hfilter, if_pos hfilter]
        exact h
      · refine ⟨st', out ++ m, fun again again' h => ?_⟩
        rw [if_neg hfilter, if_neg hfilter]
        split
        · exact .refl _
        · exact h

variable (w cap skip) in
/-- Whatever the calls do, it is as if the socket failed after some number of messages, or never. -/
theorem collect_of_calls (rounds : Nat) (l : Line) (st : PipelineStatus) (out : Bytes) :
    ∃ fault, (collectCalls w cap skip rounds l st out).Alike
      (collect w cap skip rounds fault l.inbox st out) := by
  induction rounds generalizing l st out with
  | zero => exact ⟨none, .refl _⟩
  | succ rounds ih =>
      cases hst : st.complete with
      | true =>
          refine ⟨none, ?_⟩
          rw [collectCalls, collect, if_pos hst, if_pos hst]
          exact .refl _
      | false =>
          rw [collectCalls_succ rounds l hst]
          cases hread : l.readMsg 16384 with
          | mk l' m =>
              cases m with
              | none =>
                  refine ⟨some 0, ?_⟩
                  rw [collect_succ rounds _ _ hst, if_pos rfl]
                  exact .dead ..
              | some m =>
                  obtain ⟨hmsg, -⟩ := readMsg_of_calls hread
                  obtain ⟨st', out', halike⟩ := takeMessage_alike (w := w) l'.inbox st out m
                  obtain ⟨fault, hlater⟩ := ih l' st' out'
                  -- one message more than behind it
                  refine ⟨fault.map (· + 1), ?_⟩
                  have hne : fault.map (· + 1) ≠ some 0 := by
                    cases fault with
                    | none => exact (Option.some_ne_none 0).symm
                    | some k => exact fun h => Nat.succ_ne_zero k (Option.some.inj h)
                  have hback : (fault.map (· + 1)).map (· - 1) = fault := by
                    cases fault with
                    | none => rfl
                    | some k => rfl
                  rw [collect_succ rounds _ _ hst, if_neg hne, hmsg]
                  refine halike _ _ ?_
                  rw [hback]
                  exact hlater

/-- No call gives anything. -/
theorem readMsg_silent (inbox : Bytes) (writes : List Transfers.Turn) (outbox : Bytes) (cap : Nat) :
    (Line.mk [] writes inbox outbox).readMsg cap = (⟨[], writes, inbox, outbox⟩, none) := rfl

variable (w cap skip) in
/-- Every end of the read loop that the model knows comes from some calls. -/
theorem collect_realised (rounds : Nat) (fault : Option Nat) (inbox : Bytes) (st : PipelineStatus)
    (out : Bytes) : ∃ reads, ∀ writes outbox,
      (collectCalls w cap skip rounds ⟨reads, writes, inbox, outbox⟩ st out).Alike
        (collect w cap skip rounds fault inbox st out) := by
  induction rounds generalizing fault inbox st out with
  | zero => exact ⟨[], fun _ _ => .refl _⟩
  | succ rounds ih =>
      cases hst : st.complete with
      | true =>
          refine ⟨[], fun _ _ => ?_⟩
          rw [collectCalls, collect, if_pos hst, if_pos hst]
          exact .refl _
      | false =>
          rw [collect_succ rounds _ _ hst]
          by_cases hzero : fault = some 0
          · refine ⟨[], fun _ _ => ?_⟩
            rw [collectCalls_succ rounds _ hst, readMsg_silent, if_pos hzero]
            exact .dead ..
          · rw [if_neg hzero]
            cases hread : readMsg inbox 16384 with
            | mk inbox' m =>
                cases m with
                | none =>
                    refine ⟨[], fun _ _ => ?_⟩
                    rw [collectCalls_succ rounds _ hst, readMsg_silent]
                    exact .dead ..
                | some m =>
                    obtain ⟨st', out', halike⟩ := takeMessage_alike (w := w) inbox' st out m
                    obtain ⟨later, hlater⟩ := ih (fault.map (· - 1)) inbox' st' out'
                    obtain ⟨reads, hreads⟩ := readMsg_realised hread later
                    refine ⟨reads, fun writes outbox => ?_⟩
                    rw [collectCalls_succ rounds _ hst, hreads]
                    exact halike _ _ (hlater writes outbox)

end

/-! ### A pipeline and its answer -/

section

variable (w : Pqwire)

/-- The loop that writes the output of the wire context: what it leaves there, and whether it got to the
end. -/
def writeOutput : Nat → Line → Bytes → Line × Bytes × Bool
  | 0, l, pending => (l, pending, decide (pending = []))
  | fuel + 1, l, pending =>
      if pending = [] then (l, [], true)
      else
        match l.writeAll (pending.take 16384) with
        | (l, false) => (l, pending.drop 16384, false)
        | (l, true) => writeOutput fuel l (pending.drop 16384)

/-- `pqproxy_backend_flush_pipeline_ex`, call by call: what reached the backend, the connection and the result.
The backend answers a pipeline that reached it whole. -/
def flushCalls (reads writes : List Transfers.Turn) (answer : Bytes) (cap : Nat) (skip : Bool)
    (c : BackendConn) : Bytes × BackendConn × Flushed :=
  match c.alive, c.wire with
  | true, some pending =>
      match writeOutput pending.length ⟨reads, writes, c.inbox, []⟩ pending with
      | (l, left, false) =>
          (l.outbox, { c with wire := some left, alive := false, pipeSt := .init }, .failed)
      | (l, _, true) =>
          let inbox := if pending = [] then l.inbox else l.inbox ++ answer
          (l.outbox, flushEnd c (collectCalls w cap skip 256 { l with inbox := inbox } .init []))
  | _, _ => ([], c, .failed)

/-- Two connections that differ at most in what a dead one leaves unsent and unread. -/
structure BackendConn.Alike (c c' : BackendConn) : Prop where
  alive : c.alive = true → c = c'
  rest : { c with inbox := c'.inbox, wire := c'.wire } = c'

theorem BackendConn.Alike.refl (c : BackendConn) : c.Alike c := ⟨fun _ => rfl, rfl⟩

variable {w}

/-- What was written is the beginning of the output. -/
theorem writeOutput_spec (fuel : Nat) (l : Line) {pending : Bytes} (hfuel : pending.length ≤ fuel) :
    ∃ sent, sent <+: pending ∧ (writeOutput fuel l pending).1.outbox = l.outbox ++ sent ∧
      (writeOutput fuel l pending).1.inbox = l.inbox ∧
      (writeOutput fuel l pending).1.reads = l.reads ∧
      ((writeOutput fuel l pending).2.2 = true → sent = pending) := by
  induction fuel generalizing l pending with
  | zero =>
      have hnil : pending = [] := List.eq_nil_of_length_eq_zero (Nat.le_zero.mp hfuel)
      subst hnil
      exact ⟨[], List.prefix_rfl, (List.append_nil _).symm, rfl, rfl, fun _ => rfl⟩
  | succ fuel ih =>
      rw [writeOutput]
      by_cases hnil : pending = []
      · subst hnil
        rw [if_pos rfl]
        exact ⟨[], List.prefix_rfl, (List.append_nil _).symm, rfl, rfl, fun _ => rfl⟩
      · rw [if_neg hnil]
        obtain ⟨sent, hprefix, houtbox, hinbox, hreads, hend⟩ :=
          Transfers.writeAll_spec l (pending.take 16384)
        generalize l.writeAll (pending.take 16384) = r at houtbox hinbox hreads hend
        obtain ⟨l', _ | _⟩ := r
        · exact ⟨sent, hprefix.trans (List.take_prefix ..), houtbox, hinbox, hreads, fun h => by cases h⟩
        · have hsent : sent = pending.take 16384 := hend.1
          have hpos := List.length_pos_iff.mpr hnil
          have hdrop : (pending.drop 16384).length ≤ fuel := by
            rw [List.length_drop]
            omega
          obtain ⟨later, hlater, houtbox', hinbox', hreads', hend'⟩ := ih l' hdrop
          refine ⟨pending.take 16384 ++ later, ?_, ?_, hinbox'.trans hinbox, hreads'.trans hreads, ?_⟩
          · have happend := (List.prefix_append_right_inj (pending.take 16384)).mpr hlater
            rwa [List.take_append_drop] at happend
          · rw [houtbox', houtbox, hsent, List.append_assoc]
          · intro h
            rw [hend' h, List.take_append_drop]

/-- Some calls write everything. -/
theorem writeOutput_realised (fuel : Nat) {pending : Bytes} (hfuel : pending.length ≤ fuel) :
    ∃ writes, ∀ reads inbox outbox, (writeOutput fuel ⟨reads, writes, inbox, outbox⟩ pending).2.2 = true := by
  induction fuel generalizing pending with
  | zero =>
      have hnil : pending = [] := List.eq_nil_of_length_eq_zero (Nat.le_zero.mp hfuel)
      exact ⟨[], fun _ _ _ => decide_eq_true hnil⟩
  | succ fuel ih =>
      by_cases hnil : pending = []
      · refine ⟨[], fun _ _ _ => ?_⟩
        rw [writeOutput, if_pos hnil]
      · have hpos := List.length_pos_iff.mpr hnil
        have hdrop : (pending.drop 16384).length ≤ fuel := by
          rw [List.length_drop]
          omega
        obtain ⟨writes, hwrites⟩ := ih hdrop
        obtain ⟨n, hn⟩ : ∃ n, (pending.take 16384).length = n + 1 :=
          Nat.exists_eq_add_one.mpr (by rw [List.length_take]; omega)
        refine ⟨.moved n :: writes, fun reads inbox outbox => ?_⟩
        have hall : (Line.mk reads (.moved n :: writes) inbox outbox).writeAll (pending.take 16384) =
            (⟨reads, writes, inbox, outbox ++ pending.take 16384⟩, true) := by
          refine Transfers.writeAll_eq _ ?_
          rw [hn]
          exact Transfers.movedBy_moved writes n
        rw [writeOutput, if_neg hnil, hall]
        exact hwrites ..

theorem flushEnd_alike (c : BackendConn) {r r' : Collected} (h : r.Alike r') :
    (flushEnd c r).1.Alike (flushEnd c r').1 ∧ (flushEnd c r).2 = (flushEnd c r').2 := by
  obtain ⟨exit, inbox, status, out⟩ := r
  obtain ⟨exit', inbox', status', out'⟩ := r'
  obtain ⟨rfl, rfl, rfl, hinbox⟩ := h
  cases exit with
  | dead => exact ⟨⟨fun hlive => absurd hlive Bool.false_ne_true, rfl⟩, rfl⟩
  | full =>
      cases hinbox ReadExit.noConfusion
      exact ⟨.refl _, rfl⟩
  | ended =>
      cases hinbox ReadExit.noConfusion
      exact ⟨.refl _, rfl⟩

/-- Calls and model agree on a flush: on what it returns and on the connection, and what reached the backend
is the beginning of the pipeline, all of it where the connection survives. -/
structure SameFlush (c : BackendConn) (r : Bytes × BackendConn × Flushed) (r' : BackendConn × Flushed) :
    Prop where
  conn : r.2.1.Alike r'.1
  result : r.2.2 = r'.2
  sent : r.1 <+: c.toWrite.flatten
  whole : r'.1.alive = true → r.1 = c.toWrite.flatten

/-- The output of a connection that is written. -/
theorem toWrite_flatten {c : BackendConn} (halive : c.alive = true) {pending : Bytes}
    (hwire : c.wire = some pending) : c.toWrite.flatten = pending := by
  unfold BackendConn.toWrite
  rw [halive, hwire]
  dsimp only
  split
  · rename_i hnil
    exact hnil.symm
  · exact List.append_nil pending

variable {env : Env} {now : Nat} {c : BackendConn} {pending : Bytes} {reads writes : List Transfers.Turn}

/-- Nothing happens on a connection that is dead or has no wire context. -/
theorem sameFlush_skip (answer : Bytes) (h : ∀ pending, c.alive = true → c.wire ≠ some pending) :
    SameFlush c (flushCalls w reads writes answer cap skip c) (flushConn w env now cap skip c) := by
  unfold flushCalls flushConn
  cases halive : c.alive with
  | false => exact ⟨.refl _, rfl, List.nil_prefix, fun hlive => absurd (halive.symm.trans hlive) Bool.false_ne_true⟩
  | true =>
      cases hwire : c.wire with
      | none =>
          refine ⟨.refl _, rfl, List.nil_prefix, fun _ => ?_⟩
          unfold BackendConn.toWrite
          rw [halive, hwire]
          rfl
      | some pending => exact absurd hwire (h pending halive)

/-- The write fails. -/
theorem sameFlush_unsent (answer : Bytes) (halive : c.alive = true) (hwire : c.wire = some pending)
    (hunsent : (writeOutput pending.length ⟨reads, writes, c.inbox, []⟩ pending).2.2 = false)
    (hne : pending ≠ []) (henv : env.write now = false) :
    SameFlush c (flushCalls w reads writes answer cap skip c) (flushConn w env now cap skip c) := by
  obtain ⟨sent, hprefix, houtbox, -, -, -⟩ :=
    writeOutput_spec pending.length ⟨reads, writes, c.inbox, []⟩ (Nat.le_refl _)
  rw [List.nil_append] at houtbox
  unfold flushCalls flushConn
  rw [halive, hwire]
  dsimp only
  rw [if_pos ⟨hne, henv⟩]
  generalize writeOutput pending.length ⟨reads, writes, c.inbox, []⟩ pending = x at hunsent houtbox
  obtain ⟨l, left, ok⟩ := x
  dsimp only at hunsent houtbox
  rw [hunsent]
  refine ⟨⟨fun hlive => absurd hlive Bool.false_ne_true, rfl⟩, rfl, ?_,
    fun hlive => absurd hlive Bool.false_ne_true⟩
  change l.outbox <+: _
  rw [toWrite_flatten halive hwire, houtbox]
  exact hprefix

/-- The write succeeds, and the answer is collected. -/
theorem sameFlush_sent (answer : Response) (halive : c.alive = true) (hwire : c.wire = some pending)
    (hsent : (writeOutput pending.length ⟨reads, writes, c.inbox, []⟩ pending).2.2 = true)
    (hanswer : env.answer now = answer) (henv : ¬ (pending ≠ [] ∧ env.write now = false))
    (hcollect :
      let l := (writeOutput pending.length ⟨reads, writes, c.inbox, []⟩ pending).1
      let inbox := if pending = [] then c.inbox else c.inbox ++ answer.bytes
      (collectCalls w cap skip 256 ⟨reads, l.writes, inbox, l.outbox⟩ .init []).Alike
        (collect w cap skip 256 (env.fault now) inbox .init [])) :
    SameFlush c (flushCalls w reads writes answer.bytes cap skip c) (flushConn w env now cap skip c) := by
  obtain ⟨sent, -, houtbox, hinbox, hreads, hall⟩ :=
    writeOutput_spec pending.length ⟨reads, writes, c.inbox, []⟩ (Nat.le_refl _)
  unfold flushCalls flushConn
  rw [halive, hwire]
  dsimp only
  rw [if_neg henv, hanswer]
  generalize writeOutput pending.length ⟨reads, writes, c.inbox, []⟩ pending = x
    at hsent houtbox hinbox hreads hall hcollect
  obtain ⟨⟨reads', writes', inbox', outbox'⟩, left, ok⟩ := x
  dsimp only at hsent houtbox hinbox hreads hall hcollect
  subst hinbox hreads
  rw [hsent]
  obtain ⟨hconn, hresult⟩ := flushEnd_alike c hcollect
  have hwhole : outbox' = c.toWrite.flatten := by
    rw [toWrite_flatten halive hwire, houtbox, hall hsent]
    exact List.nil_append _
  refine ⟨hconn, hresult, ?_, fun _ => hwhole⟩
  change outbox' <+: _
  rw [hwhole]

variable (w cap skip)

theorem flush_of_calls (answer : Response) (reads writes : List Transfers.Turn) (c : BackendConn) :
    ∃ ok fault, ∀ (env : Env) now, env.write now = ok → env.fault now = fault → env.answer now = answer →
      SameFlush c (flushCalls w reads writes answer.bytes cap skip c) (flushConn w env now cap skip c) := by
  by_cases hopen : c.alive = true ∧ ∃ pending, c.wire = some pending
  · obtain ⟨halive, pending, hwire⟩ := hopen
    cases hsent : (writeOutput pending.length ⟨reads, writes, c.inbox, []⟩ pending).2.2 with
    | false =>
        refine ⟨false, none, fun env now hwrite _ _ => sameFlush_unsent _ halive hwire hsent ?_ hwrite⟩
        rintro rfl
        cases hsent
    | true =>
        obtain ⟨fault, hfault⟩ := collect_of_calls w cap skip 256
          ⟨reads, (writeOutput pending.length ⟨reads, writes, c.inbox, []⟩ pending).1.writes,
            if pending = [] then c.inbox else c.inbox ++ answer.bytes,
            (writeOutput pending.length ⟨reads, writes, c.inbox, []⟩ pending).1.outbox⟩ .init []
        refine ⟨true, fault, fun env now hwrite hfault' hanswer =>
          sameFlush_sent answer halive hwire hsent hanswer (fun h => ?_) ?_⟩
        · exact Bool.false_ne_true (h.2.symm.trans hwrite)
        · rw [hfault']
          exact hfault
  · exact ⟨true, none, fun _ _ _ _ _ =>
      sameFlush_skip _ fun pending halive hwire => hopen ⟨halive, pending, hwire⟩⟩

theorem flush_realised (env : Env) (now : Nat) (c : BackendConn) : ∃ reads writes,
    SameFlush c (flushCalls w reads writes (env.answer now).bytes cap skip c)
      (flushConn w env now cap skip c) := by
  by_cases hopen : c.alive = true ∧ ∃ pending, c.wire = some pending
  · obtain ⟨halive, pending, hwire⟩ := hopen
    by_cases hfail : pending ≠ [] ∧ env.write now = false
    · refine ⟨[], [], sameFlush_unsent _ halive hwire ?_ hfail.1 hfail.2⟩
      obtain ⟨b, bs, rfl⟩ := List.exists_cons_of_ne_nil hfail.1
      rfl
    · obtain ⟨writes, hwrites⟩ := writeOutput_realised pending.length (Nat.le_refl _)
      obtain ⟨reads, hreads⟩ := collect_realised w cap skip 256 (env.fault now)
        (if pending = [] then c.inbox else c.inbox ++ (env.answer now).bytes) .init []
      exact ⟨reads, writes, sameFlush_sent _ halive hwire (hwrites ..) rfl hfail (hreads ..)⟩
  · exact ⟨[], [], sameFlush_skip _ fun pending halive hwire => hopen ⟨halive, pending, hwire⟩⟩

/-- The environment of the pool says what the blocking calls of a flush can do, no more and no less: whatever
they do is an outcome the model knows, and every outcome of the model comes from some calls. -/
theorem flush_outcomes (c : BackendConn) (answer : Response) :
    (∀ reads writes, ∃ (env : Env) (now : Nat), env.answer now = answer ∧
      SameFlush c (flushCalls w reads writes answer.bytes cap skip c) (flushConn w env now cap skip c)) ∧
    (∀ (env : Env) now, env.answer now = answer → ∃ reads writes,
      SameFlush c (flushCalls w reads writes answer.bytes cap skip c) (flushConn w env now cap skip c)) := by
  constructor
  · intro reads writes
    obtain ⟨ok, fault, h⟩ := flush_of_calls w cap skip answer reads writes c
    exact ⟨⟨fun _ => none, fun _ => true, fun _ => true, fun _ => ok, fun _ => answer, fun _ => fault⟩, 0, rfl,
      h _ 0 rfl rfl rfl⟩
  · rintro env now rfl
    exact flush_realised w cap skip env now c

end
