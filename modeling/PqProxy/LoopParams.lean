import PqProxy.LoopQueue
import PqProxy.WirePg
import PqProxy.Runs

/-! Who owns the values of queued Bind parameters. A value is made by `pqwire_param_set_text` or
`pqwire_param_set_binary` and released by `pqwire_param_clear`; in between it moves with the copies of
the item it belongs to. -/

namespace RingBuffer

variable {α β : Type} {n : Nat}

/-- The cells in the order of the ring are all the cells. -/
theorem rotation_perm (r : RingBuffer α n) :
    ((List.range n).map fun j => (r.head + j) % n).Perm (List.range n) := by
  have hn : 0 < n := Nat.lt_of_le_of_lt (Nat.zero_le _) r.head_lt
  have hhead := r.head_lt
  apply (List.perm_ext_iff_of_nodup ?_ List.nodup_range).mpr
  · intro k
    rw [List.mem_map, List.mem_range]
    constructor
    · rintro ⟨j, -, rfl⟩
      exact Nat.mod_lt _ hn
    · intro hk
      refine ⟨(k + (n - r.head)) % n, List.mem_range.mpr (Nat.mod_lt _ hn), ?_⟩
      rw [Nat.add_mod_mod, show r.head + (k + (n - r.head)) = k + n by omega, Nat.add_mod_right,
        Nat.mod_eq_of_lt hk]
  · apply List.Nodup.map_on ?_ List.nodup_range
    intro i hi j hj heq
    exact index_inj (List.mem_range.mp hi) (List.mem_range.mp hj) heq

/-- What is collected from all cells is what is collected from the entries, when the other cells have
nothing. -/
theorem flatMap_cells_perm (r : RingBuffer α n) (f : α → List β)
    (hdead : ∀ k, ¬ r.Live k → f (r.cells k) = []) :
    ((List.range n).flatMap fun k => f (r.cells k)).Perm (r.toList.flatMap f) := by
  have hsplit : List.range n = List.range r.count ++
      (List.range (n - r.count)).map fun j => r.count + j := by
    rw [← List.range_add, Nat.add_sub_cancel' r.count_le]
  have hrest : (List.range (n - r.count)).flatMap
      (fun j => f (r.cells ((r.head + (r.count + j)) % n))) = [] := by
    apply List.flatMap_eq_nil_iff.mpr
    intro j hj
    apply hdead
    rintro ⟨i, hi, heq⟩
    rw [List.mem_range] at hj
    have hle := r.count_le
    have hsame := index_inj (by omega) (by omega) heq
    omega
  have hlive : r.toList.flatMap f =
      (List.range r.count).flatMap fun j => f (r.cells ((r.head + j) % n)) := by
    rw [toList, List.flatMap_map]
  refine (r.rotation_perm.symm.flatMap_right _).trans ?_
  rw [List.flatMap_map, hsplit, List.flatMap_append, List.flatMap_map, hrest, List.append_nil, hlive]

theorem not_live_of_push {r : RingBuffer α n} {k : Nat} {x : α} {h : r.count < n}
    (hk : ¬ (r.push x h).Live k) : ¬ r.Live k ∧ (r.push x h).cells k = r.cells k := by
  refine ⟨fun hlive => hk (live_push hlive x h).1, ?_⟩
  apply Function.update_of_ne
  rintro rfl
  exact hk ⟨r.count, Nat.lt_succ_self _, r.tail_eq⟩

theorem not_live_of_pop {r : RingBuffer α n} {k : Nat} {d : α} {h : 0 < r.count}
    (hk : ¬ (r.pop d h).Live k) : (r.pop d h).cells k = d ∨
      ¬ r.Live k ∧ (r.pop d h).cells k = r.cells k := by
  by_cases heq : k = r.head
  · exact Or.inl (by rw [heq]; exact Function.update_self ..)
  · refine Or.inr ⟨?_, Function.update_of_ne heq ..⟩
    rintro ⟨j, hj, rfl⟩
    cases j with
    | zero => exact heq (Nat.mod_eq_of_lt r.head_lt)
    | succ j =>
        refine hk ⟨j, Nat.lt_sub_of_add_lt hj, ?_⟩
        change _ = ((r.head + 1) % n + j) % n
        rw [Nat.mod_add_mod, Nat.add_assoc, Nat.add_comm 1 j]

theorem not_live_of_putBack {r : RingBuffer α n} {k : Nat} {x : α} {h : r.count < n}
    (hk : ¬ (r.putBack x h).Live k) : ¬ r.Live k ∧ (r.putBack x h).cells k = r.cells k := by
  refine ⟨fun hlive => hk (live_putBack hlive x h).1, ?_⟩
  apply Function.update_of_ne
  rintro rfl
  exact hk ⟨0, Nat.succ_pos _, (Nat.mod_eq_of_lt (r.putBack x h).head_lt).symm⟩

end RingBuffer

theorem feQMax_pos : 0 < feQMax := Nat.succ_pos 31

/-- A queued request with the values that its parameters own. -/
structure OwnedItem where
  item : FeqItem
  values : List Nat

/-- A zeroed `feq_item_t`. -/
def OwnedItem.zero : OwnedItem := ⟨.none, []⟩

/-- The request queue of a slot, the item that `drain_fe_queue` processes, the number of values made so
far, which are numbered in the order in which they are made, and the values that were released. -/
structure ParamStore where
  inUse : Bool
  feQ : RingBuffer OwnedItem feQMax
  taken : Option OwnedItem
  made : Nat
  released : List Nat

namespace ParamStore

/-- A slot before its first connection. -/
def free : ParamStore := ⟨false, .empty .zero feQMax_pos, none, 0, []⟩

/-- The values that belong to an item. -/
def owned (s : ParamStore) : List Nat :=
  s.feQ.toList.flatMap OwnedItem.values ++ s.taken.toList.flatMap OwnedItem.values

/-- `feq_clear_item`. -/
def feqClearItem (s : ParamStore) (it : OwnedItem) : ParamStore :=
  { s with released := s.released ++ it.values }

/-- `feq_clear_all`: every cell is cleared, also one that no request is in. -/
def feqClearAll (s : ParamStore) : ParamStore :=
  { s with
    feQ := .empty .zero feQMax_pos
    released := s.released ++ (List.range feQMax).flatMap fun k => (s.feQ.cells k).values }

/-- `feq_push`: the values move with the copy. -/
def feqPush (s : ParamStore) (it : OwnedItem) : ParamStore × Bool :=
  if h : s.feQ.count < feQMax then ({ s with feQ := s.feQ.push it h }, true) else (s, false)

/-- The loop of `feq_push_bind`: the parameters that are stored, and whether all are. Memory is there for
`room` more values, or for any number. -/
def storeParams (w : Pqwire) : Option Nat → List PqBindParam → List PqBindParam × Bool
  | _, [] => ([], true)
  | room, ⟨format, none⟩ :: ps =>
      let r := storeParams w room ps
      (⟨format, none⟩ :: r.1, r.2)
  | room, ⟨format, some v⟩ :: ps =>
      if room = some 0 then ([], false)
      else
        match storeParam w ⟨format, some v⟩ with
        | none => ([], false)
        | some p =>
            let r := storeParams w (room.map (· - 1)) ps
            (p :: r.1, r.2)

/-- How many of the stored parameters own a value. -/
def valueCount (params : List PqBindParam) : Nat := params.countP fun p => p.value.isSome

/-- `feq_push_bind`: the item that was begun is cleared when a parameter cannot be stored; the answer of
`feq_push` is handed on. -/
def feqPushBind (w : Pqwire) (s : ParamStore) (bind : PqBind) (room : Option Nat) :
    ParamStore × Bool :=
  let (params, ok) := storeParams w room (bind.params.take w.maxBindParams)
  let it : OwnedItem :=
    ⟨.bind ⟨bind.statement.copyTo w.maxStmtName, bind.portal.copyTo w.maxPortalName, params,
      bind.resultFormats.take w.maxBindParams⟩, List.range' s.made (valueCount params)⟩
  let s := { s with made := s.made + valueCount params }
  if ok then s.feqPush it else (s.feqClearItem it, false)

/-- `feq_pop`, called by `drain_fe_queue` when it processes no item. -/
def feqPop (s : ParamStore) : ParamStore :=
  match s.taken with
  | some _ => s
  | none =>
      if h : 0 < s.feQ.count then
        { s with feQ := s.feQ.pop .zero h, taken := some (s.feQ.cells s.feQ.head) }
      else s

/-- The item that is processed goes back to the head, and the local copy is zeroed; it stays where it is
when the queue is full. -/
def putBack (s : ParamStore) : ParamStore :=
  match s.taken with
  | none => s
  | some it =>
      if h : s.feQ.count < feQMax then { s with feQ := s.feQ.putBack it h, taken := none } else s

/-- The item that was processed is cleared. -/
def finish (s : ParamStore) : ParamStore :=
  match s.taken with
  | none => s
  | some it => { s.feqClearItem it with taken := none }

end ParamStore

/-- What happens to the queue of a slot. `work` is a request without parameters; an item that was taken is
either put back or cleared, whether its pipeline was started, ran at once or failed. -/
inductive ParamOp where
  | accept
  | bind (msg : PqBind) (room : Option Nat)
  | work (it : FeqItem)
  | pop
  | putBack
  | finish
  | clearAll
  | close

open ParamStore in
/-- `alloc_conn` zeroes a slot that is free, and `close_conn` ends one whose queue is not being drained;
everything else happens to a connection. -/
def ParamOp.apply (w : Pqwire) (s : ParamStore) : ParamOp → ParamStore
  | accept => if s.inUse then s else { s with inUse := true, feQ := .empty .zero feQMax_pos }
  | bind msg room => if s.inUse then (s.feqPushBind w msg room).1 else s
  | work it => if s.inUse then (s.feqPush ⟨it, []⟩).1 else s
  | pop => if s.inUse then s.feqPop else s
  | putBack => if s.inUse then s.putBack else s
  | finish => if s.inUse then s.finish else s
  | clearAll => if s.inUse then s.feqClearAll else s
  | close => if s.inUse ∧ s.taken.isNone then { s.feqClearAll with inUse := false } else s

namespace ParamStore

/-- Every value that was made belongs to exactly one item, or was released exactly once. -/
def Balanced (s : ParamStore) : Prop := (s.owned ++ s.released).Perm (List.range s.made)

instance (s : ParamStore) : Decidable s.Balanced :=
  inferInstanceAs (Decidable (List.Perm _ _))

/-- What the code keeps whatever it is asked to do: a cell without a request has no values, and neither
has a slot without a connection. -/
structure Tidy (s : ParamStore) : Prop where
  dead : ∀ k, ¬ s.feQ.Live k → (s.feQ.cells k).values = []
  unused : s.inUse = false → s.owned = []

end ParamStore

/-- The queue has room for a Bind whose parameters were stored, unless they own no value. -/
def ParamOp.Fits (w : Pqwire) (s : ParamStore) : ParamOp → Prop
  | bind msg room => s.inUse = true →
      (ParamStore.storeParams w room (msg.params.take w.maxBindParams)).2 = true →
      ParamStore.valueCount (ParamStore.storeParams w room (msg.params.take w.maxBindParams)).1 ≠ 0 →
      s.feQ.count < feQMax
  | _ => True

namespace ParamStore

variable {w : Pqwire} {s : ParamStore}

/-- Values may be regrouped. -/
theorem Balanced.regroup {t : ParamStore} (h : s.Balanced) (hmade : t.made = s.made)
    (hcount : ∀ v, (t.owned ++ t.released).count v = (s.owned ++ s.released).count v) : t.Balanced := by
  unfold Balanced
  rw [hmade]
  exact (List.perm_iff_count.mpr hcount).trans h

/-- New values go to one place. -/
theorem Balanced.grow {t : ParamStore} (h : s.Balanced) {n : Nat} (hmade : t.made = s.made + n)
    (hcount : ∀ v, (t.owned ++ t.released).count v =
      (s.owned ++ s.released).count v + (List.range' s.made n).count v) : t.Balanced := by
  unfold Balanced
  rw [hmade, List.range_add, ← List.range'_eq_map_range]
  refine List.Perm.trans (List.perm_iff_count.mpr fun v => ?_) (h.append_right _)
  rw [hcount]
  exact List.count_append.symm

/-! ### The requests of the queue -/

/-- The requests, without the values they own. -/
def requests (s : ParamStore) : List FeqItem := s.feQ.toList.map OwnedItem.item

theorem requests_feqPush (s : ParamStore) (it : OwnedItem) :
    (s.feqPush it).1.requests = ((FeqOp.push it.item).onList s.requests).1 := by
  rw [FeqOp.onList, requests, requests, List.length_map, RingBuffer.length_toList, feqPush]
  by_cases h : s.feQ.count < feQMax
  · rw [dif_pos h, if_pos h]
    dsimp only
    rw [RingBuffer.toList_push, List.map_append, List.map_cons, List.map_nil]
  · rw [dif_neg h, if_neg h]

theorem requests_feqPop (htaken : s.taken = none) :
    s.feqPop.requests = (FeqOp.pop.onList s.requests).1 := by
  unfold feqPop requests
  rw [htaken]
  dsimp only
  by_cases h : 0 < s.feQ.count
  · rw [dif_pos h, s.feQ.toList_eq_cons h]
    dsimp only
    rw [RingBuffer.toList_pop, List.map_cons]
    rfl
  · rw [dif_neg h, s.feQ.count_eq_zero_iff.mp (Nat.eq_zero_of_not_pos h)]
    rfl

theorem requests_putBack {it : OwnedItem} (htaken : s.taken = some it) :
    s.putBack.requests = ((FeqOp.putBack it.item).onList s.requests).1 := by
  rw [FeqOp.onList, requests, requests, List.length_map, RingBuffer.length_toList, putBack, htaken]
  dsimp only
  by_cases h : s.feQ.count < feQMax
  · rw [dif_pos h, if_pos h]
    dsimp only
    rw [RingBuffer.toList_putBack, List.map_cons]
  · rw [dif_neg h, if_neg h]

/-- Without a shortage of memory the parameters are stored as the queue of a connection stores them. -/
theorem storeParams_none (w : Pqwire) (ps : List PqBindParam) : ps.mapM (storeParam w) =
    if (storeParams w none ps).2 = true then some (storeParams w none ps).1 else none := by
  induction ps with
  | nil => rfl
  | cons p ps ih =>
      obtain ⟨format, value⟩ := p
      rw [List.mapM_cons, ih]
      cases value with
      | none =>
          rw [storeParams]
          generalize storeParams w none ps = stored
          obtain ⟨params, ok⟩ := stored
          cases ok with
          | false => rfl
          | true => rfl
      | some v =>
          rw [storeParams, Option.map_none]
          generalize storeParams w none ps = stored
          obtain ⟨params, ok⟩ := stored
          cases storeParam w ⟨format, some v⟩ with
          | none => rfl
          | some q =>
              cases ok with
              | false => rfl
              | true => rfl

theorem tidy_free : free.Tidy := ⟨fun _ _ => rfl, fun _ => rfl⟩

theorem owned_feqPush (h : s.feQ.count < feQMax) (it : OwnedItem) (v : Nat) :
    ((s.feqPush it).1.owned ++ (s.feqPush it).1.released).count v =
      (s.owned ++ s.released).count v + it.values.count v := by
  unfold feqPush owned
  rw [dif_pos h]
  simp only [RingBuffer.toList_push, List.flatMap_append, List.count_append, List.flatMap_cons,
    List.flatMap_nil, List.append_nil]
  omega

theorem Tidy.of_used (huse : s.inUse = true)
    (hdead : ∀ k, ¬ s.feQ.Live k → (s.feQ.cells k).values = []) : s.Tidy :=
  ⟨hdead, fun hunused => absurd (huse.symm.trans hunused) Bool.noConfusion⟩

theorem feqPush_tidy (hs : s.Tidy) (huse : s.inUse = true) (it : OwnedItem) :
    (s.feqPush it).1.Tidy := by
  unfold feqPush
  split
  · refine .of_used huse fun k hk => ?_
    obtain ⟨hdead, hsame⟩ := RingBuffer.not_live_of_push hk
    exact (congrArg OwnedItem.values hsame).trans (hs.dead k hdead)
  · exact hs

theorem feqPush_made (s : ParamStore) (it : OwnedItem) : (s.feqPush it).1.made = s.made := by
  unfold feqPush
  split <;> rfl

/-- `feq_clear_all` releases what the requests own. -/
theorem feqClearAll_count (hs : s.Tidy) (v : Nat) :
    (s.feqClearAll.owned ++ s.feqClearAll.released).count v = (s.owned ++ s.released).count v := by
  have hperm := (s.feQ.flatMap_cells_perm OwnedItem.values hs.dead).count_eq v
  unfold feqClearAll owned
  simp only [RingBuffer.toList_empty, List.flatMap_nil, List.nil_append, List.count_append, hperm]
  omega

/-- `feq_push_bind` with room in the queue, with a parameter that cannot be stored, or without values. -/
theorem feqPushBind_balanced (h : s.Balanced) (bind : PqBind) (room : Option Nat)
    (hfits : (storeParams w room (bind.params.take w.maxBindParams)).2 = true →
      valueCount (storeParams w room (bind.params.take w.maxBindParams)).1 ≠ 0 →
      s.feQ.count < feQMax) : (s.feqPushBind w bind room).1.Balanced := by
  unfold feqPushBind
  generalize storeParams w room (bind.params.take w.maxBindParams) = stored at hfits ⊢
  obtain ⟨params, ok⟩ := stored
  dsimp only at hfits ⊢
  cases ok with
  | false =>
      apply h.grow rfl
      intro v
      unfold feqClearItem owned
      simp only [List.count_append, Bool.false_eq_true, if_false]
      omega
  | true =>
      rw [if_pos rfl]
      by_cases hroom : s.feQ.count < feQMax
      · apply h.grow (feqPush_made _ _)
        intro v
        exact owned_feqPush (s := { s with made := s.made + valueCount params }) hroom _ v
      · have hnone : valueCount params = 0 := by
          by_contra hne
          exact hroom (hfits rfl hne)
        rw [hnone]
        unfold feqPush
        rw [dif_neg hroom]
        exact h

theorem feqPop_count (s : ParamStore) (v : Nat) :
    (s.feqPop.owned ++ s.feqPop.released).count v = (s.owned ++ s.released).count v := by
  unfold feqPop
  split
  · rfl
  · rename_i htaken
    split
    · rename_i hcount
      unfold owned
      rw [htaken, s.feQ.toList_eq_cons hcount, RingBuffer.toList_pop]
      simp only [List.flatMap_cons, List.count_append, Option.toList_some, Option.toList_none,
        List.flatMap_nil, List.append_nil]
      omega
    · rfl

theorem putBack_count (s : ParamStore) (v : Nat) :
    (s.putBack.owned ++ s.putBack.released).count v = (s.owned ++ s.released).count v := by
  unfold putBack
  split
  · rfl
  · rename_i it htaken
    split
    · unfold owned
      rw [htaken, RingBuffer.toList_putBack]
      simp only [List.flatMap_cons, List.count_append, Option.toList_some, Option.toList_none,
        List.flatMap_nil, List.append_nil]
      omega
    · rfl

theorem finish_count (s : ParamStore) (v : Nat) :
    (s.finish.owned ++ s.finish.released).count v = (s.owned ++ s.released).count v := by
  unfold finish
  split
  · rfl
  · rename_i it htaken
    unfold feqClearItem owned
    rw [htaken]
    simp only [List.flatMap_cons, List.count_append, Option.toList_some, Option.toList_none,
      List.flatMap_nil, List.append_nil]
    omega

theorem feqPushBind_tidy (hs : s.Tidy) (huse : s.inUse = true) (bind : PqBind) (room : Option Nat) :
    (s.feqPushBind w bind room).1.Tidy := by
  unfold feqPushBind
  generalize storeParams w room (bind.params.take w.maxBindParams) = stored
  obtain ⟨params, ok⟩ := stored
  dsimp only
  split
  · exact feqPush_tidy (s := { s with made := s.made + valueCount params })
      (.of_used huse hs.dead) huse _
  · exact .of_used huse hs.dead

theorem feqPop_tidy (hs : s.Tidy) (huse : s.inUse = true) : s.feqPop.Tidy := by
  unfold feqPop
  split
  · exact hs
  · split
    · rename_i hcount
      refine .of_used huse fun k hk => ?_
      rcases RingBuffer.not_live_of_pop (h := hcount) hk with hzero | ⟨hdead, hsame⟩
      · exact congrArg OwnedItem.values hzero
      · exact (congrArg OwnedItem.values hsame).trans (hs.dead k hdead)
    · exact hs

theorem putBack_tidy (hs : s.Tidy) (huse : s.inUse = true) : s.putBack.Tidy := by
  unfold putBack
  split
  · exact hs
  · split
    · rename_i hcount
      refine .of_used huse fun k hk => ?_
      obtain ⟨hdead, hsame⟩ := RingBuffer.not_live_of_putBack (h := hcount) hk
      exact (congrArg OwnedItem.values hsame).trans (hs.dead k hdead)
    · exact hs

theorem finish_tidy (hs : s.Tidy) (huse : s.inUse = true) : s.finish.Tidy := by
  unfold finish
  split
  · exact hs
  · exact .of_used huse hs.dead

/-- Every operation leaves the cells without requests, and the slots without connections, empty. -/
theorem tidy_apply (hs : s.Tidy) (op : ParamOp) : (op.apply w s).Tidy := by
  cases hinUse : s.inUse with
  | false =>
      cases op with
      | accept =>
          dsimp only [ParamOp.apply]
          rw [hinUse]
          exact .of_used rfl fun _ _ => rfl
      | _ =>
          dsimp only [ParamOp.apply]
          rw [hinUse]
          exact hs
  | true =>
      cases op with
      | accept =>
          dsimp only [ParamOp.apply]
          rw [hinUse]
          exact hs
      | bind msg room =>
          dsimp only [ParamOp.apply]
          rw [hinUse]
          exact feqPushBind_tidy hs hinUse msg room
      | work it =>
          dsimp only [ParamOp.apply]
          rw [hinUse]
          exact feqPush_tidy hs hinUse _
      | pop =>
          dsimp only [ParamOp.apply]
          rw [hinUse]
          exact feqPop_tidy hs hinUse
      | putBack =>
          dsimp only [ParamOp.apply]
          rw [hinUse]
          exact putBack_tidy hs hinUse
      | finish =>
          dsimp only [ParamOp.apply]
          rw [hinUse]
          exact finish_tidy hs hinUse
      | clearAll =>
          dsimp only [ParamOp.apply]
          rw [hinUse]
          exact .of_used hinUse fun _ _ => rfl
      | close =>
          dsimp only [ParamOp.apply]
          split
          · rename_i hclose
            refine ⟨fun _ _ => rfl, fun _ => ?_⟩
            change [] ++ s.taken.toList.flatMap OwnedItem.values = []
            rw [Option.isNone_iff_eq_none.mp hclose.2]
            rfl
          · exact hs

/-! ### Runs -/

/-- A Bind with values that meets a full queue leaves values that no item owns. -/
theorem not_balanced_of_full (h : s.Balanced) (bind : PqBind) (room : Option Nat)
    (hstored : (storeParams w room (bind.params.take w.maxBindParams)).2 = true)
    (hvalues : valueCount (storeParams w room (bind.params.take w.maxBindParams)).1 ≠ 0)
    (hfull : ¬ s.feQ.count < feQMax) : ¬ (s.feqPushBind w bind room).1.Balanced := by
  intro hbalanced
  have hlength := hbalanced.length_eq
  have hbefore := h.length_eq
  rw [List.length_range, List.length_append] at hlength hbefore
  unfold feqPushBind feqPush at hlength
  simp only [hstored, if_true, dif_neg hfull] at hlength
  change s.owned.length + s.released.length = _ at hlength
  omega

/-- One operation keeps the books exactly when the queue has room for a Bind with values. -/
theorem balanced_apply_iff (hs : s.Tidy) (h : s.Balanced) (op : ParamOp) :
    (op.apply w s).Balanced ↔ op.Fits w s := by
  have hsame : ∀ {t : ParamStore} (op : ParamOp), op.Fits w s →
      (t = s ∨ t.made = s.made ∧
        ∀ v, (t.owned ++ t.released).count v = (s.owned ++ s.released).count v) →
      (t.Balanced ↔ op.Fits w s) := by
    intro t op hfits ht
    refine iff_of_true ?_ hfits
    rcases ht with rfl | ⟨hmade, hcount⟩
    · exact h
    · exact h.regroup hmade hcount
  cases op with
  | bind msg room =>
      dsimp only [ParamOp.apply, ParamOp.Fits]
      split
      · rename_i huse
        constructor
        · intro hafter _ hstored hvalues
          by_contra hfull
          exact not_balanced_of_full h msg room hstored hvalues hfull hafter
        · intro hfits
          exact feqPushBind_balanced h msg room (hfits huse)
      · rename_i hunused
        exact iff_of_true h fun huse => absurd huse hunused
  | accept =>
      apply hsame .accept trivial
      dsimp only [ParamOp.apply]
      split
      · exact Or.inl rfl
      · rename_i hunused
        have hnone := hs.unused (Bool.eq_false_iff.mpr hunused)
        refine Or.inr ⟨rfl, fun v => ?_⟩
        have htaken : s.taken.toList.flatMap OwnedItem.values = [] := (List.append_eq_nil_iff.mp hnone).2
        rw [hnone]
        unfold owned
        rw [htaken]
        rfl
  | work it =>
      apply hsame (.work it) trivial
      dsimp only [ParamOp.apply]
      split
      · by_cases hroom : s.feQ.count < feQMax
        · exact Or.inr ⟨feqPush_made s _, fun v => owned_feqPush hroom ⟨it, []⟩ v⟩
        · left
          unfold feqPush
          rw [dif_neg hroom]
      · exact Or.inl rfl
  | pop =>
      apply hsame .pop trivial
      dsimp only [ParamOp.apply]
      split
      · refine Or.inr ⟨?_, feqPop_count s⟩
        unfold feqPop
        split
        · rfl
        · split <;> rfl
      · exact Or.inl rfl
  | putBack =>
      apply hsame .putBack trivial
      dsimp only [ParamOp.apply]
      split
      · refine Or.inr ⟨?_, putBack_count s⟩
        unfold putBack
        split
        · rfl
        · split <;> rfl
      · exact Or.inl rfl
  | finish =>
      apply hsame .finish trivial
      dsimp only [ParamOp.apply]
      split
      · refine Or.inr ⟨?_, finish_count s⟩
        unfold finish
        split <;> rfl
      · exact Or.inl rfl
  | clearAll =>
      apply hsame .clearAll trivial
      dsimp only [ParamOp.apply]
      split
      · exact Or.inr ⟨rfl, feqClearAll_count hs⟩
      · exact Or.inl rfl
  | close =>
      apply hsame .close trivial
      dsimp only [ParamOp.apply]
      split
      · exact Or.inr ⟨rfl, feqClearAll_count hs⟩
      · exact Or.inl rfl

/-- Along every sequence of operations each value that was made belongs to exactly one item, queued or
being processed, or was released exactly once, as long as no Bind with values meets a full queue, and
only that long. -/
theorem balanced_iff (w : Pqwire) (ops : List ParamOp) :
    Runs.Along (ParamOp.apply w) (fun s op => (op.apply w s).Balanced) free ops ↔
      Runs.Along (ParamOp.apply w) (fun s op => op.Fits w s) free ops := by
  have hiff : ∀ (s : ParamStore) (op : ParamOp), s.Tidy ∧ s.Balanced →
      ((op.apply w s).Balanced ↔ op.Fits w s) :=
    fun s op hs => balanced_apply_iff hs.1 hs.2 op
  have hstep : ∀ (s : ParamStore) (op : ParamOp), s.Tidy ∧ s.Balanced → (op.apply w s).Balanced →
      (op.apply w s).Tidy ∧ (op.apply w s).Balanced :=
    fun s op hs hafter => ⟨tidy_apply hs.1 op, hafter⟩
  exact Runs.along_iff hiff hstep ⟨tidy_free, List.Perm.refl _⟩ ops

/-- A client that sends 32 messages and then a Bind with one parameter while a pipeline runs. -/
def leakingOps : List ParamOp :=
  .accept :: List.replicate feQMax (.work .sync) ++
    [.bind ⟨"s".toList, [], [⟨0, some (Text.bytes "x".toList)⟩], []⟩ none]

theorem not_balanced_leakingOps :
    ¬ Runs.Along (ParamOp.apply pgWire) (fun s op => (op.apply pgWire s).Balanced) free leakingOps := by
  decide +kernel

end ParamStore

section

variable {w : Pqwire}

/-- A Bind is queued, or refused, as it is by a connection that has the same requests. -/
theorem feqPushBind_refines {c : Conn} {s : ParamStore} (hc : c.feQ.toList = s.requests)
    (bind : PqBind) :
    (feqPushBind w c bind).1.feQ.toList = (s.feqPushBind w bind none).1.requests ∧
      (feqPushBind w c bind).2 = (s.feqPushBind w bind none).2 := by
  have hcount : c.feQ.count = s.feQ.count := by
    have hlength := congrArg List.length hc
    rwa [RingBuffer.length_toList, ParamStore.requests, List.length_map,
      RingBuffer.length_toList] at hlength
  rw [feqPushBind, bindItem, ParamStore.storeParams_none, ParamStore.feqPushBind]
  generalize ParamStore.storeParams w none (bind.params.take w.maxBindParams) = stored
  obtain ⟨params, ok⟩ := stored
  cases ok with
  | false => exact ⟨hc, rfl⟩
  | true =>
      simp only [↓reduceIte, Option.map_some]
      rw [ParamStore.requests_feqPush]
      refine ⟨?_, ?_⟩
      · have hpush := (FeqOp.push (.bind ⟨bind.statement.copyTo w.maxStmtName,
          bind.portal.copyTo w.maxPortalName, params,
          bind.resultFormats.take w.maxBindParams⟩)).apply_refines c
        rw [hc] at hpush
        exact congrArg Prod.fst hpush
      · rw [feqPush, ParamStore.feqPush]
        by_cases hroom : s.feQ.count < feQMax
        · rw [dif_pos (hcount ▸ hroom), dif_pos hroom]
        · rw [dif_neg (hcount ▸ hroom), dif_neg hroom]

end
