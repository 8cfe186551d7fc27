import PqProxy.LoopConn

/-! The request queue of a connection as a bounded double-ended list: any sequence of its four operations
answers as the list does, and holds what the list holds. -/

namespace RingBuffer

variable {α : Type} {n : Nat}

/-- A cell that holds an entry. -/
def Live (r : RingBuffer α n) (k : Nat) : Prop := ∃ j < r.count, k = (r.head + j) % n

theorem live_push {r : RingBuffer α n} {k : Nat} (hk : r.Live k) (x : α) (h : r.count < n) :
    (r.push x h).Live k ∧ (r.push x h).cells k = r.cells k := by
  obtain ⟨j, hj, rfl⟩ := hk
  refine ⟨⟨j, Nat.lt_succ_of_lt hj, rfl⟩, ?_⟩
  apply Function.update_of_ne
  intro heq
  rw [r.tail_eq] at heq
  have hsame : j = r.count := index_inj (hj.trans h) h heq
  exact absurd hsame (Nat.ne_of_lt hj)

/-- Stepping the head back makes every entry the next one. -/
theorem putBack_index {r : RingBuffer α n} (x : α) (h : r.count < n) (j : Nat) :
    ((r.putBack x h).head + (j + 1)) % n = (r.head + j) % n := by
  change ((r.head + n - 1) % n + (j + 1)) % n = (r.head + j) % n
  rw [Nat.mod_add_mod, show r.head + n - 1 + (j + 1) = r.head + j + n by omega, Nat.add_mod_right]

theorem live_putBack {r : RingBuffer α n} {k : Nat} (hk : r.Live k) (x : α) (h : r.count < n) :
    (r.putBack x h).Live k ∧ (r.putBack x h).cells k = r.cells k := by
  obtain ⟨j, hj, rfl⟩ := hk
  refine ⟨⟨j + 1, Nat.succ_lt_succ hj, (putBack_index x h j).symm⟩, ?_⟩
  apply Function.update_of_ne
  intro heq
  have hhead : (r.putBack x h).head = ((r.putBack x h).head + 0) % n :=
    (Nat.mod_eq_of_lt (r.putBack x h).head_lt).symm
  rw [← putBack_index x h j] at heq
  have hzero : j + 1 = 0 := index_inj (by omega) (by omega) (heq.trans hhead)
  exact absurd hzero (Nat.succ_ne_zero j)

/-- A pop resets the cell of the oldest entry, which no entry that stays is in. -/
theorem cells_pop {r : RingBuffer α n} {k : Nat} {d : α} (h : 0 < r.count) (hk : (r.pop d h).Live k) :
    (r.pop d h).cells k = r.cells k := by
  obtain ⟨j, hj, rfl⟩ := hk
  apply Function.update_of_ne
  have hle := r.count_le
  have hlt : j + 1 < r.count := Nat.add_lt_of_lt_sub hj
  change ((r.head + 1) % n + j) % n ≠ r.head
  intro heq
  rw [Nat.mod_add_mod, Nat.add_assoc, Nat.add_comm 1 j] at heq
  have hhead : (r.head + (j + 1)) % n = (r.head + 0) % n := heq.trans (Nat.mod_eq_of_lt r.head_lt).symm
  have hzero : j + 1 = 0 := index_inj (by omega) (by omega) hhead
  exact absurd hzero (Nat.succ_ne_zero j)

end RingBuffer

/-- What is done to the request queue. -/
inductive FeqOp where
  | push (it : FeqItem)
  | pop
  | putBack (it : FeqItem)
  | clear

/-- What the caller learns. -/
inductive FeqAnswer where
  | done
  | full
  | took (it : FeqItem)
  | empty

namespace FeqOp

/-- The operations of the event loop. -/
def apply : FeqOp → Conn → Conn × FeqAnswer
  | push it, c => ((feqPush c it).1, if (feqPush c it).2 then .done else .full)
  | pop, c =>
      match feqPop c with
      | some (c, it) => (c, .took it)
      | none => (c, .empty)
  | putBack it, c =>
      match feqPutBack c it with
      | some c => (c, .done)
      | none => (c, .full)
  | clear, c => (feqClearAll c, .done)

/-- What the queue is for: a list of at most `feQMax` requests. -/
def onList : FeqOp → List FeqItem → List FeqItem × FeqAnswer
  | push it, l => if l.length < feQMax then (l ++ [it], .done) else (l, .full)
  | pop, [] => ([], .empty)
  | pop, it :: l => (l, .took it)
  | putBack it, l => if l.length < feQMax then (it :: l, .done) else (l, .full)
  | clear, _ => ([], .done)

theorem onList_length (op : FeqOp) {l : List FeqItem} (h : l.length ≤ feQMax) :
    (op.onList l).1.length ≤ feQMax := by
  cases op with
  | push it =>
      rw [onList]
      split
      · rename_i hlt
        rw [List.length_append]
        exact hlt
      · exact h
  | pop =>
      cases l with
      | nil => exact h
      | cons it l => exact (Nat.le_succ _).trans h
  | putBack it =>
      rw [onList]
      split
      · rename_i hlt
        exact hlt
      · exact h
  | clear => exact Nat.zero_le _

/-- One operation holds and answers what the list does. -/
theorem apply_refines (op : FeqOp) (c : Conn) :
    ((op.apply c).1.feQ.toList, (op.apply c).2) = op.onList c.feQ.toList := by
  cases op with
  | push it =>
      rw [onList, apply, feqPush, RingBuffer.length_toList]
      by_cases h : c.feQ.count < feQMax
      · rw [dif_pos h, if_pos h]
        exact Prod.ext (RingBuffer.toList_push c.feQ it h) rfl
      · rw [dif_neg h, if_neg h]
        rfl
  | pop =>
      rw [apply, feqPop]
      by_cases h : 0 < c.feQ.count
      · rw [dif_pos h, RingBuffer.toList_eq_cons c.feQ h]
        exact Prod.ext (RingBuffer.toList_pop c.feQ .none h) rfl
      · have hempty : c.feQ.toList = [] := c.feQ.count_eq_zero_iff.mp (Nat.eq_zero_of_not_pos h)
        rw [dif_neg h, hempty]
        rfl
  | putBack it =>
      rw [onList, apply, feqPutBack, RingBuffer.length_toList]
      by_cases h : c.feQ.count < feQMax
      · rw [dif_pos h, if_pos h]
        exact Prod.ext (RingBuffer.toList_putBack c.feQ it h) rfl
      · rw [dif_neg h, if_neg h]
  | clear => rfl

/-- A sequence of operations, with the answers. -/
def applyAll : List FeqOp → Conn → Conn × List FeqAnswer
  | [], c => (c, [])
  | op :: ops, c => ((applyAll ops (op.apply c).1).1, (op.apply c).2 :: (applyAll ops (op.apply c).1).2)

def onListAll : List FeqOp → List FeqItem → List FeqItem × List FeqAnswer
  | [], l => (l, [])
  | op :: ops, l => ((onListAll ops (op.onList l).1).1, (op.onList l).2 :: (onListAll ops (op.onList l).1).2)

theorem onListAll_length (ops : List FeqOp) {l : List FeqItem} (h : l.length ≤ feQMax) :
    (onListAll ops l).1.length ≤ feQMax := by
  induction ops generalizing l with
  | nil => exact h
  | cons op ops ih => exact ih (op.onList_length h)

theorem applyAll_refines (ops : List FeqOp) (c : Conn) :
    ((applyAll ops c).1.feQ.toList, (applyAll ops c).2) = onListAll ops c.feQ.toList := by
  induction ops generalizing c with
  | nil => rfl
  | cons op ops ih =>
      have hstep := op.apply_refines c
      have hrest := ih (op.apply c).1
      rw [onListAll, ← hstep, ← hrest]
      rfl

end FeqOp

/-- What holds of the queue between any two operations. -/
structure Conn.QueueSound (c : Conn) : Prop where
  tail_eq : c.feQ.tail = (c.feQ.head + c.feQ.count) % feQMax
  full_iff : ∀ it, (feqPush c it).2 = false ↔ c.feQ.toList.length = feQMax
  /-- A push that fails changes nothing but the record of what happened. -/
  refused : ∀ it, (feqPush c it).2 = false → { (feqPush c it).1 with log := c.log } = c
  push_keeps : ∀ it k, c.feQ.Live k → (feqPush c it).1.feQ.cells k = c.feQ.cells k
  putBack_keeps : ∀ it c' k, feqPutBack c it = some c' → c.feQ.Live k → c'.feQ.cells k = c.feQ.cells k
  pop_keeps : ∀ c' it k, feqPop c = some (c', it) → c'.feQ.Live k → c'.feQ.cells k = c.feQ.cells k
  restored : ∀ c' it, feqPop c = some (c', it) →
    ∃ c'', feqPutBack c' it = some c'' ∧ c''.feQ.toList = c.feQ.toList

theorem Conn.queueSound (c : Conn) : c.QueueSound where
  tail_eq := c.feQ.tail_eq
  full_iff := by
    intro it
    rw [RingBuffer.length_toList, feqPush]
    have hle := c.feQ.count_le
    by_cases h : c.feQ.count < feQMax
    · rw [dif_pos h]
      exact iff_of_false Bool.true_eq_false.mp (Nat.ne_of_lt h)
    · rw [dif_neg h]
      exact iff_of_true rfl (Nat.le_antisymm hle (Nat.le_of_not_lt h))
  refused := by
    intro it hrefused
    rw [feqPush] at hrefused ⊢
    by_cases h : c.feQ.count < feQMax
    · rw [dif_pos h] at hrefused
      cases hrefused
    · rw [dif_neg h]
      rfl
  push_keeps := by
    intro it k hk
    rw [feqPush]
    by_cases h : c.feQ.count < feQMax
    · rw [dif_pos h]
      exact (RingBuffer.live_push hk it h).2
    · rw [dif_neg h]
      rfl
  putBack_keeps := by
    intro it c' k hback hk
    rw [feqPutBack] at hback
    by_cases h : c.feQ.count < feQMax
    · rw [dif_pos h] at hback
      cases hback
      exact (RingBuffer.live_putBack hk it h).2
    · rw [dif_neg h] at hback
      cases hback
  pop_keeps := by
    intro c' it k hpop hk
    rw [feqPop] at hpop
    by_cases h : 0 < c.feQ.count
    · rw [dif_pos h] at hpop
      cases hpop
      exact RingBuffer.cells_pop h hk
    · rw [dif_neg h] at hpop
      cases hpop
  restored := by
    intro c' it hpop
    rw [feqPop] at hpop
    by_cases h : 0 < c.feQ.count
    · rw [dif_pos h] at hpop
      cases hpop
      have hroom : c.feQ.count - 1 < feQMax := by
        have hle := c.feQ.count_le
        omega
      refine ⟨_, dif_pos hroom, ?_⟩
      rw [RingBuffer.toList_eq_cons c.feQ h, ← RingBuffer.toList_pop c.feQ .none h]
      exact RingBuffer.toList_putBack _ _ hroom
    · rw [dif_neg h] at hpop
      cases hpop

/-- Every sequence of operations answers and holds what a list of at most `feQMax` requests does, and
the queue is sound after it. -/
theorem FeqOp.queue_refines (ops : List FeqOp) (c : Conn) :
    (applyAll ops c).1.feQ.toList = (onListAll ops c.feQ.toList).1 ∧
      (applyAll ops c).2 = (onListAll ops c.feQ.toList).2 ∧
      (onListAll ops c.feQ.toList).1.length ≤ feQMax ∧ (applyAll ops c).1.QueueSound := by
  have hall := applyAll_refines ops c
  refine ⟨congrArg Prod.fst hall, congrArg Prod.snd hall, ?_, Conn.queueSound _⟩
  apply onListAll_length
  rw [RingBuffer.length_toList]
  exact c.feQ.count_le
