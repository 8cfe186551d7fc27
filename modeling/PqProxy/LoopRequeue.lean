import PqProxy.LoopHistory
import PqProxy.WirePg

/-! A Bind that arrives while a pipeline is in flight is copied into the request queue and rebuilt
when it is taken out. The copy of a text parameter goes through a C string. -/

/-- Equal in all that is sent to a backend. -/
structure PqBind.Agrees (a b : PqBind) : Prop where
  statement : a.statement = b.statement
  params : a.params = b.params
  resultFormats : a.resultFormats = b.resultFormats

/-- The wire library copies the text up to the first zero, and binary values as they are. -/
structure Pqwire.CopiesParams (w : Pqwire) : Prop where
  text : ∀ v rest, 0 ∉ v → w.paramSetText (v ++ 0 :: rest) = some v
  binary : ∀ v, w.paramSetBinary v = some v

/-- A decoded Bind fits the arrays of `pq_bind_t`. -/
structure PqBind.FitsWire (w : Pqwire) (bind : PqBind) : Prop where
  statement : bind.statement.length < w.maxStmtName
  params : bind.params.length ≤ w.maxBindParams
  resultFormats : bind.resultFormats.length ≤ w.maxBindParams

/-- Take `n` requests from the queue, and then one more. -/
def feqPopAfter : Nat → Conn → Option (Conn × FeqItem)
  | 0, c => feqPop c
  | n + 1, c =>
      match feqPop c with
      | none => none
      | some (c, _) => feqPopAfter n c

/-- What is taken out for a Bind that was put behind everything queued before it. -/
def throughQueue (w : Pqwire) (c : Conn) (bind : PqBind) : Option FeqItem :=
  match feqPushBind w c bind with
  | (_, false) => none
  | (c', true) => (feqPopAfter c.feQ.count c').map Prod.snd

/-- The Bind comes out of the queue as it went in, for the pipeline that is started from the queue
and for the blocking call, which leaves the portal out. -/
def KeptByQueue (w : Pqwire) (c : Conn) (bind : PqBind) : Prop :=
  ∃ it, throughQueue w c bind = some (.bind it) ∧ (it.toBind w).Agrees bind ∧
    PqBind.Agrees { it.toBind w with portal := [] } bind

/-- No text value has a zero byte. -/
def PqBind.ZeroFree (bind : PqBind) : Prop :=
  ∀ p ∈ bind.params, p.format ≠ 1 → ∀ v, p.value = some v → 0 ∉ v

/-! ### The queue -/

/-- What is at the head comes out. -/
theorem feqPop_cons {c : Conn} {it : FeqItem} {rest : List FeqItem}
    (h : c.feQ.toList = it :: rest) : ∃ c', feqPop c = some (c', it) ∧ c'.feQ.toList = rest := by
  have hcount : 0 < c.feQ.count := by
    rw [← RingBuffer.length_toList, h]
    simp
  rcases hpop : feqPop c with _ | ⟨c', it'⟩
  · rw [feqPop, dif_pos hcount] at hpop
    cases hpop
  · obtain ⟨q, hq, rfl⟩ := feqPop_some hpop
    rw [h] at hq
    obtain ⟨rfl, hrest⟩ := List.cons.inj hq
    exact ⟨_, rfl, hrest.symm⟩

theorem feqPopAfter_append {it : FeqItem} {before : List FeqItem} : ∀ {c : Conn},
    c.feQ.toList = before ++ [it] → ∃ c', feqPopAfter before.length c = some (c', it) := by
  induction before with
  | nil =>
      intro c h
      obtain ⟨c', hc', -⟩ := feqPop_cons h
      exact ⟨c', hc'⟩
  | cons first before ih =>
      intro c h
      obtain ⟨c', hc', hrest⟩ := feqPop_cons h
      obtain ⟨c'', hc''⟩ := ih hrest
      refine ⟨c'', ?_⟩
      rw [List.length_cons, feqPopAfter, hc']
      exact hc''

/-- With room in the queue, what comes out is what was stored. -/
theorem throughQueue_eq {w : Pqwire} {c : Conn} {bind : PqBind} (hroom : c.feQ.count < feQMax) :
    throughQueue w c bind = (bindItem w bind).map .bind := by
  cases h : bindItem w bind with
  | none => rw [throughQueue, feqPushBind, h, Option.map_none]
  | some it =>
      have hpush : feqPushBind w c bind =
          ({ c with feQ := c.feQ.push (.bind it) hroom }.note (.pushed (.bind it)), true) := by
        rw [feqPushBind, h]
        exact dif_pos hroom
      have hlist : (Conn.note { c with feQ := c.feQ.push (.bind it) hroom }
          (.pushed (.bind it))).feQ.toList = c.feQ.toList ++ [.bind it] :=
        RingBuffer.toList_push ..
      obtain ⟨c', hc'⟩ := feqPopAfter_append hlist
      rw [RingBuffer.length_toList] at hc'
      rw [throughQueue, hpush]
      exact congrArg (Option.map Prod.snd) hc'

/-! ### The copies -/

/-- A list is mapped to itself when every entry is. -/
theorem mapM_self_iff {α : Type} (f : α → Option α) (l : List α) :
    l.mapM f = some l ↔ ∀ x ∈ l, f x = some x := by
  induction l with
  | nil => simp
  | cons x l ih =>
      rw [List.forall_mem_cons, ← ih, List.mapM_cons]
      cases hx : f x with
      | none => simp
      | some y =>
          cases hl : l.mapM f with
          | none => simp
          | some ys => simp

/-- A parameter is stored as it is unless it is a text with a zero. -/
theorem Pqwire.CopiesParams.storeParam_iff {w : Pqwire} (hw : w.CopiesParams) (p : PqBindParam) :
    storeParam w p = some p ↔ (p.format ≠ 1 → ∀ v, p.value = some v → 0 ∉ v) := by
  rcases p with ⟨format, _ | v⟩
  · simp [storeParam]
  · by_cases hbin : format = 1
    · simp [storeParam, hbin, hw.binary]
    · have hstore : storeParam w ⟨format, some v⟩ = some ⟨format, some v⟩ ↔
          w.paramSetText (v ++ [0]) = some v := by
        simp [storeParam, hbin]
      rw [hstore]
      constructor
      · rintro htext - v' ⟨⟩ hzero
        -- the copy ends before the first zero
        obtain ⟨before, rest, rfl, hfree⟩ := List.eq_append_cons_of_mem hzero
        rw [List.append_assoc, List.cons_append, hw.text _ _ hfree] at htext
        have hlen := congrArg List.length (Option.some.inj htext)
        rw [List.length_append, List.length_cons] at hlen
        omega
      · intro hfree
        exact hw.text v [] (hfree hbin v rfl)

/-- What is stored of a Bind that fits is its fields and the copies of its parameters. -/
theorem bindItem_eq {w : Pqwire} {bind : PqBind} (hfits : bind.FitsWire w) :
    bindItem w bind = (bind.params.mapM (storeParam w)).map fun params =>
      ⟨bind.statement, bind.portal.copyTo w.maxPortalName, params, bind.resultFormats⟩ := by
  rw [bindItem, List.take_of_length_le hfits.params, List.take_of_length_le hfits.resultFormats,
    Text.copyTo, List.take_of_length_le (Nat.le_sub_one_of_lt hfits.statement)]

/-- A Bind is the same after its time in the queue exactly when none of its texts has a zero. -/
theorem keptByQueue_iff {w : Pqwire} (hw : w.CopiesParams) {bind : PqBind}
    (hfits : bind.FitsWire w) {c : Conn} (hroom : c.feQ.count < feQMax) :
    KeptByQueue w c bind ↔ bind.ZeroFree := by
  have hself : bind.ZeroFree ↔ bind.params.mapM (storeParam w) = some bind.params := by
    rw [mapM_self_iff]
    exact forall₂_congr fun p _ => (hw.storeParam_iff p).symm
  have hstatement : bind.statement.copyTo w.maxStmtName = bind.statement :=
    List.take_of_length_le (Nat.le_sub_one_of_lt hfits.statement)
  rw [hself, KeptByQueue, throughQueue_eq hroom, bindItem_eq hfits]
  constructor
  · rintro ⟨it, hit, hsame, -⟩
    cases hparams : bind.params.mapM (storeParam w) with
    | none => simp [hparams] at hit
    | some params =>
        rw [hparams, Option.map_some, Option.map_some] at hit
        cases hit
        exact congrArg some hsame.params
  · intro hparams
    refine ⟨⟨bind.statement, bind.portal.copyTo w.maxPortalName, bind.params, bind.resultFormats⟩,
      ?_, ⟨hstatement, rfl, rfl⟩, ⟨hstatement, rfl, rfl⟩⟩
    rw [hparams]
    rfl

theorem WirePg.copiesParams : pgWire.CopiesParams where
  text := by
    intro v rest hfree
    apply congrArg some
    rw [List.takeWhile_append_of_pos]
    · simp
    · intro x hx
      have : x ≠ 0 := fun h0 => hfree (h0 ▸ hx)
      simpa using this
  binary := fun _ => rfl

/-- A Bind with one text parameter. -/
def textBind (value : Bytes) : PqBind := ⟨['s'], [], [⟨0, some value⟩], []⟩

theorem keptByQueue_text : KeptByQueue pgWire (Conn.fresh 0) (textBind [97, 98]) ↔
    (textBind [97, 98]).ZeroFree :=
  keptByQueue_iff WirePg.copiesParams ⟨by decide, by decide, by decide⟩ (by decide)

/-- Of the text `a\0b` the queue keeps the first byte. -/
theorem textBind_cut : ¬ KeptByQueue pgWire (Conn.fresh 0) (textBind [97, 0, 98]) := by
  rintro ⟨it, hit, hsame, -⟩
  have hout : throughQueue pgWire (Conn.fresh 0) (textBind [97, 0, 98]) =
      some (.bind ⟨['s'], [], [⟨0, some [97]⟩], []⟩) := by decide
  rw [hout] at hit
  cases hit
  exact absurd hsame.params (by decide)
