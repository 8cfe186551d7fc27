import PqProxy.Framing

/-! System calls that move as much as they like: a call that is asked for some bytes moves at least one of
them, is interrupted, or fails. The loops around such calls move everything or give up, and what they
move does not depend on how it was cut. -/

namespace Transfers

/-- What the kernel does with one call. -/
inductive Turn where
  | interrupted
  | failed
  /-- At most so many bytes beyond the first one. -/
  | moved (more : Nat)
  deriving DecidableEq

/-- The turns that are left when `n` bytes were moved by calls that each ask for all that is missing. -/
def movedBy : List Turn → Nat → Option (List Turn)
  | turns, 0 => some turns
  | [], _ + 1 => none
  | .interrupted :: turns, n + 1 => movedBy turns (n + 1)
  | .failed :: _, _ + 1 => none
  | .moved more :: turns, n + 1 => movedBy turns (n - more)

/-- The bytes that wait for the reader, those that were written, and how the kernel answers the calls to
come. -/
structure Line where
  reads : List Turn
  writes : List Turn
  inbox : Bytes
  outbox : Bytes

/-- `while (got < need)` around a read of all that is missing. A read that finds nothing means the end of the
stream. -/
def readLoop (need : Nat) : List Turn → Bytes → Bytes → List Turn × Bytes × Option Bytes
  | [], inbox, got => if got.length < need then ([], inbox, none) else ([], inbox, some got)
  | turn :: turns, inbox, got =>
      if got.length < need then
        match turn with
        | .interrupted => readLoop need turns inbox got
        | .failed => (turns, inbox, none)
        | .moved more =>
            if inbox = [] then (turns, [], none)
            else
              let n := min (more + 1) (need - got.length)
              readLoop need turns (inbox.drop n) (got ++ inbox.take n)
      else (turn :: turns, inbox, some got)

/-- Read until there are `need` bytes. -/
def Line.readUntil (l : Line) (need : Nat) (got : Bytes) : Line × Option Bytes :=
  let (reads, inbox, got) := readLoop need l.reads l.inbox got
  ({ l with reads := reads, inbox := inbox }, got)

/-- `while (off < len)` around a write of the rest: the turns that are left, what was written, and whether
that is all. -/
def writeLoop : List Turn → Bytes → List Turn × Bytes × Bool
  | [], rest => ([], [], decide (rest = []))
  | turn :: turns, rest =>
      if rest = [] then (turn :: turns, [], true)
      else
        match turn with
        | .interrupted => writeLoop turns rest
        | .failed => (turns, [], false)
        | .moved more =>
            let (turns, sent, ok) := writeLoop turns (rest.drop (more + 1))
            (turns, rest.take (more + 1) ++ sent, ok)

/-- Write all bytes. -/
def Line.writeAll (l : Line) (bs : Bytes) : Line × Bool :=
  let (writes, sent, ok) := writeLoop l.writes bs
  ({ l with writes := writes, outbox := l.outbox ++ sent }, ok)

/-! ### Reading -/

section

variable {turns rest : List Turn} {n need : Nat} {inbox got m : Bytes}

@[simp] theorem movedBy_zero (turns : List Turn) : movedBy turns 0 = some turns := by
  cases turns <;> rfl

/-- One call can be enough. -/
theorem movedBy_moved (rest : List Turn) (n : Nat) : movedBy (.moved n :: rest) (n + 1) = some rest := by
  rw [movedBy, Nat.sub_self, movedBy_zero]

theorem readLoop_done (turns : List Turn) (inbox : Bytes) (h : need ≤ got.length) :
    readLoop need turns inbox got = (turns, inbox, some got) := by
  cases turns <;> exact if_neg (Nat.not_lt.mpr h)

/-- The bytes that are missing are there, and the turns move them. -/
theorem readLoop_eq (hn : got.length + n = need) (hinbox : n ≤ inbox.length)
    (hturns : movedBy turns n = some rest) :
    readLoop need turns inbox got = (rest, inbox.drop n, some (got ++ inbox.take n)) := by
  induction turns generalizing n inbox got with
  | nil =>
      cases n with
      | zero =>
          cases hturns
          rw [readLoop_done [] inbox hn.ge, List.take_zero, List.append_nil, List.drop_zero]
      | succ n => cases hturns
  | cons turn turns ih =>
      cases n with
      | zero =>
          rw [movedBy_zero] at hturns
          rw [readLoop_done _ inbox hn.ge, List.take_zero, List.append_nil, List.drop_zero,
            Option.some.inj hturns]
      | succ n =>
          have hlt : got.length < need := by omega
          cases turn with
          | interrupted =>
              rw [readLoop, if_pos hlt]
              exact ih hn hinbox hturns
          | failed => cases hturns
          | moved more =>
              have hne : inbox ≠ [] := List.ne_nil_of_length_pos (by omega)
              have hneed : need - got.length = n + 1 := by omega
              rw [readLoop, if_pos hlt]
              dsimp only
              rw [if_neg hne, hneed, ih (n := n - more) ?_ ?_ hturns]
              · have hsum : min (more + 1) (n + 1) + (n - more) = n + 1 := by omega
                rw [List.append_assoc, ← List.take_add, List.drop_drop, hsum]
              · rw [List.length_append, List.length_take]
                omega
              · rw [List.length_drop]
                omega

/-- When the loop succeeds, it has read exactly the bytes that were missing. -/
theorem readLoop_some (hn : got.length + n = need)
    (h : (readLoop need turns inbox got).2.2 = some m) :
    n ≤ inbox.length ∧ ∃ rest, movedBy turns n = some rest ∧
      readLoop need turns inbox got = (rest, inbox.drop n, some (got ++ inbox.take n)) := by
  suffices hsuff : n ≤ inbox.length ∧ ∃ rest, movedBy turns n = some rest by
    obtain ⟨hle, rest, hrest⟩ := hsuff
    exact ⟨hle, rest, hrest, readLoop_eq hn hle hrest⟩
  induction turns generalizing n inbox got with
  | nil =>
      cases n with
      | zero => exact ⟨Nat.zero_le _, [], rfl⟩
      | succ n =>
          rw [readLoop, if_pos (by omega)] at h
          cases h
  | cons turn turns ih =>
      cases n with
      | zero => exact ⟨Nat.zero_le _, turn :: turns, movedBy_zero _⟩
      | succ n =>
          have hlt : got.length < need := by omega
          cases turn with
          | interrupted =>
              rw [readLoop, if_pos hlt] at h
              exact ih hn h
          | failed =>
              rw [readLoop, if_pos hlt] at h
              cases h
          | moved more =>
              rw [readLoop, if_pos hlt] at h
              dsimp only at h
              split at h
              · cases h
              · rename_i hne
                have hneed : need - got.length = n + 1 := by omega
                have hlen : (inbox.take (min (more + 1) (n + 1))).length ≤ min (more + 1) (n + 1) :=
                  List.length_take_le ..
                have hpos := List.length_pos_iff.mpr hne
                rw [hneed] at h
                -- what was missing after this call, as far as the stream had it
                obtain ⟨hle, rest, hrest⟩ := ih
                  (n := n + 1 - (inbox.take (min (more + 1) (n + 1))).length) (by
                    rw [List.length_append]
                    omega) h
                rw [List.length_take, List.length_drop] at hle
                refine ⟨by omega, rest, ?_⟩
                rw [List.length_take] at hrest
                rw [movedBy, ← hrest]
                congr 1
                omega

theorem readUntil_eq (l : Line) (hn : got.length + n = need) (hinbox : n ≤ l.inbox.length)
    (hturns : movedBy l.reads n = some rest) : l.readUntil need got =
      ({ l with reads := rest, inbox := l.inbox.drop n }, some (got ++ l.inbox.take n)) := by
  unfold Line.readUntil
  rw [readLoop_eq hn hinbox hturns]

theorem readUntil_some {l l' : Line} (hn : got.length + n = need)
    (h : l.readUntil need got = (l', some m)) :
    n ≤ l.inbox.length ∧ m = got ++ l.inbox.take n ∧
      l' = { l with reads := l'.reads, inbox := l.inbox.drop n } := by
  have hsome : (readLoop need l.reads l.inbox got).2.2 = some m := congrArg Prod.snd h
  obtain ⟨hle, reads, hturns, -⟩ := readLoop_some hn hsome
  obtain ⟨rfl, hm⟩ := Prod.mk.inj ((readUntil_eq l hn hle hturns).symm.trans h)
  exact ⟨hle, (Option.some.inj hm).symm, rfl⟩

/-! ### Writing -/

theorem writeLoop_nil (turns : List Turn) : writeLoop turns [] = (turns, [], true) := by
  cases turns <;> rfl

/-- The turns move all bytes. -/
theorem writeLoop_eq {bs : Bytes} (hturns : movedBy turns bs.length = some rest) :
    writeLoop turns bs = (rest, bs, true) := by
  induction turns generalizing bs with
  | nil =>
      cases bs with
      | nil =>
          cases hturns
          rfl
      | cons b bs => cases hturns
  | cons turn turns ih =>
      cases bs with
      | nil =>
          rw [List.length_nil, movedBy_zero] at hturns
          rw [writeLoop_nil, Option.some.inj hturns]
      | cons b bs =>
          cases turn with
          | interrupted =>
              rw [writeLoop, if_neg (List.cons_ne_nil b bs)]
              exact ih hturns
          | failed => cases hturns
          | moved more =>
              have hrest : movedBy turns ((b :: bs).drop (more + 1)).length = some rest := by
                rw [List.drop_succ_cons, List.length_drop]
                exact hturns
              rw [writeLoop, if_neg (List.cons_ne_nil b bs)]
              dsimp only
              rw [ih hrest, List.take_append_drop]

/-- The turns do not move all bytes: some first of them are written. -/
theorem writeLoop_none {bs : Bytes} (hturns : movedBy turns bs.length = none) :
    (writeLoop turns bs).2.2 = false ∧ (writeLoop turns bs).2.1 <+: bs := by
  induction turns generalizing bs with
  | nil =>
      cases bs with
      | nil => cases hturns
      | cons b bs => exact ⟨decide_eq_false (List.cons_ne_nil b bs), List.nil_prefix⟩
  | cons turn turns ih =>
      cases bs with
      | nil =>
          rw [List.length_nil, movedBy_zero] at hturns
          cases hturns
      | cons b bs =>
          cases turn with
          | interrupted =>
              rw [writeLoop, if_neg (List.cons_ne_nil b bs)]
              exact ih hturns
          | failed =>
              rw [writeLoop, if_neg (List.cons_ne_nil b bs)]
              exact ⟨rfl, List.nil_prefix⟩
          | moved more =>
              have hrest : movedBy turns ((b :: bs).drop (more + 1)).length = none := by
                rw [List.drop_succ_cons, List.length_drop]
                exact hturns
              obtain ⟨hok, hprefix⟩ := ih hrest
              rw [writeLoop, if_neg (List.cons_ne_nil b bs)]
              refine ⟨hok, ?_⟩
              have happend := (List.prefix_append_right_inj ((b :: bs).take (more + 1))).mpr hprefix
              rwa [List.take_append_drop] at happend

theorem writeAll_eq (l : Line) {bs : Bytes} (hturns : movedBy l.writes bs.length = some rest) :
    l.writeAll bs = ({ l with writes := rest, outbox := l.outbox ++ bs }, true) := by
  unfold Line.writeAll
  rw [writeLoop_eq hturns]

/-- What is written is the beginning of what was to be written, and all of it if and only if the turns move
it. -/
theorem writeAll_spec (l : Line) (bs : Bytes) : ∃ sent, sent <+: bs ∧
    (l.writeAll bs).1.outbox = l.outbox ++ sent ∧ (l.writeAll bs).1.inbox = l.inbox ∧
    (l.writeAll bs).1.reads = l.reads ∧
    (if (l.writeAll bs).2 then sent = bs ∧ movedBy l.writes bs.length = some (l.writeAll bs).1.writes
      else movedBy l.writes bs.length = none) := by
  unfold Line.writeAll
  cases hturns : movedBy l.writes bs.length with
  | none =>
      obtain ⟨hok, hprefix⟩ := writeLoop_none hturns
      refine ⟨_, hprefix, rfl, rfl, rfl, ?_⟩
      dsimp only
      rw [hok]
      rfl
  | some rest =>
      refine ⟨bs, List.prefix_rfl, ?_⟩
      rw [writeLoop_eq hturns]
      exact ⟨rfl, rfl, rfl, rfl, rfl⟩

end

end Transfers
