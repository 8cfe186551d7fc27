import PqProxy.Rewrite
import PqProxy.WirePg

/-! Which parameter a Bind loses to the identity. A Parse caches the slot found in its query, a Bind
looks the statement up and takes the configured slot first; so a slot found in a query is used only
when none is configured. -/

theorem StmtCache.setSlot_self (cache : StmtCache) (i : Nat) (stmt : PreparedStmt) (slot : Int) :
    (cache.setSlot i stmt slot).slots i = ⟨{ stmt with identityParamSlot := slot }, true⟩ :=
  Function.update_self ..

theorem StmtCache.setSlot_of_ne (cache : StmtCache) {i j : Nat} (h : j ≠ i) (stmt : PreparedStmt)
    (slot : Int) : (cache.setSlot i stmt slot).slots j = cache.slots j :=
  Function.update_of_ne h ..

/-- A search that found or could place a name finds it once it is stored there. -/
theorem probeFrom_setSlot_self (cache : StmtCache) (name : Text) (i : Nat) (stmt : PreparedStmt)
    (slot : Int) (hname : stmt.name = name) (n probes : Nat)
    (h : probeFrom cache name n probes = .free i ∨ probeFrom cache name n probes = .found i) :
    probeFrom (cache.setSlot i stmt slot) name n probes = .found i := by
  induction n generalizing probes with
  | zero => rcases h with h | h <;> cases h
  | succ n ih =>
      rw [probeFrom] at h ⊢
      generalize ((stmtNameHash name).toNat + probes) % maxCachedStmts = j at h ⊢
      by_cases hj : j = i
      · subst hj
        simp [StmtCache.setSlot_self, hname]
      · simp only [StmtCache.setSlot_of_ne _ hj]
        by_cases huse : (cache.slots j).inUse = false
        · simp [huse] at h
          exact absurd h hj
        · by_cases hname' : (cache.slots j).stmt.name = name
          · simp [huse, hname'] at h
            exact absurd h hj
          · simp only [huse, hname', if_false] at h ⊢
            exact ih (probes + 1) h

/-- A name stays where it is when another one is stored elsewhere. -/
theorem probeFrom_setSlot_of_ne (cache : StmtCache) (name : Text) (i j : Nat) (stmt : PreparedStmt)
    (slot : Int) (hname : stmt.name ≠ name)
    (hi : (cache.slots i).inUse = true → (cache.slots i).stmt.name ≠ name) (n probes : Nat)
    (h : probeFrom cache name n probes = .found j) :
    probeFrom (cache.setSlot i stmt slot) name n probes = .found j := by
  induction n generalizing probes with
  | zero => cases h
  | succ n ih =>
      rw [probeFrom] at h ⊢
      generalize ((stmtNameHash name).toNat + probes) % maxCachedStmts = k at h ⊢
      by_cases huse : (cache.slots k).inUse = false
      · simp [huse] at h
      · by_cases hk : k = i
        · subst hk
          have hother := hi (by simpa using huse)
          simp only [huse, hother, if_false] at h
          simp only [StmtCache.setSlot_self, hname, if_false, Bool.true_eq_false]
          exact ih (probes + 1) h
        · rw [StmtCache.setSlot_of_ne _ hk, if_neg huse]
          rw [if_neg huse] at h
          by_cases hname' : (cache.slots k).stmt.name = name
          · rwa [if_pos hname'] at h ⊢
          · rw [if_neg hname'] at h ⊢
            exact ih (probes + 1) h

theorem probeFrom_found (cache : StmtCache) (name : Text) (i n probes : Nat)
    (h : probeFrom cache name n probes = .found i) :
    (cache.slots i).inUse = true ∧ (cache.slots i).stmt.name = name := by
  induction n generalizing probes with
  | zero => cases h
  | succ n ih =>
      rw [probeFrom] at h
      split at h
      · cases h
      · rename_i huse
        split at h
        · rename_i hname
          cases h
          exact ⟨by simpa using huse, hname⟩
        · exact ih (probes + 1) h

theorem probeFrom_free (cache : StmtCache) (name : Text) (i n probes : Nat)
    (h : probeFrom cache name n probes = .free i) : (cache.slots i).inUse = false := by
  induction n generalizing probes with
  | zero => cases h
  | succ n ih =>
      rw [probeFrom] at h
      split at h
      · rename_i huse
        cases h
        exact huse
      · split at h
        · cases h
        · exact ih (probes + 1) h

/-- What a successful put does: it stores the statement where the search for its name ended. -/
theorem stmtCachePut_cases (w : Pqwire) (cache : StmtCache) (parse : PqParse) (slot : Int)
    (h : (stmtCachePut w cache parse slot).2 = true) :
    ∃ i stmt, w.preparedFromParse parse = some stmt ∧
      (probe cache parse.statement = .free i ∨ probe cache parse.statement = .found i) ∧
      (stmtCachePut w cache parse slot).1.slots = (cache.setSlot i stmt slot).slots := by
  unfold stmtCachePut at h ⊢
  cases hp : probe cache parse.statement with
  | exhausted => simp [hp] at h
  | found i =>
      simp only [hp] at h ⊢
      cases hs : w.preparedFromParse parse with
      | none => simp [hs] at h
      | some stmt => exact ⟨i, stmt, rfl, Or.inr rfl, rfl⟩
  | free i =>
      simp only [hp] at h ⊢
      split at h
      · cases h
      · rename_i hcount
        rw [if_neg hcount]
        cases hs : w.preparedFromParse parse with
        | none => simp [hs] at h
        | some stmt => exact ⟨i, stmt, rfl, Or.inl rfl, rfl⟩

theorem stmtCachePut_failed (w : Pqwire) (cache : StmtCache) (parse : PqParse) (slot : Int)
    (h : (stmtCachePut w cache parse slot).2 = false) :
    (stmtCachePut w cache parse slot).1 = cache := by
  unfold stmtCachePut at h ⊢
  cases hp : probe cache parse.statement with
  | exhausted => rfl
  | found i =>
      simp only [hp] at h ⊢
      cases hs : w.preparedFromParse parse with
      | none => rfl
      | some stmt => simp [hs] at h
  | free i =>
      simp only [hp] at h ⊢
      split
      · rfl
      · rename_i hcount
        rw [if_neg hcount] at h
        cases hs : w.preparedFromParse parse with
        | none => rfl
        | some stmt => simp [hs] at h

theorem probeFrom_congr {a b : StmtCache} (h : a.slots = b.slots) (name : Text) (n probes : Nat) :
    probeFrom a name n probes = probeFrom b name n probes := by
  induction n generalizing probes with
  | zero => rfl
  | succ n ih => simp only [probeFrom, h, ih]

theorem stmtCacheGet_congr {a b : StmtCache} (h : a.slots = b.slots) (name : Text) :
    stmtCacheGet a name = stmtCacheGet b name := by
  simp only [stmtCacheGet, probe, probeFrom_congr h, h]

theorem stmtCacheGet_put_self {w : Pqwire} (hw : w.PreparesCopies) (cache : StmtCache)
    (parse : PqParse) (slot : Int) (h : (stmtCachePut w cache parse slot).2 = true) :
    stmtCacheGet (stmtCachePut w cache parse slot).1 parse.statement =
      some ⟨parse.statement, parse.query, parse.paramTypeOids, slot⟩ := by
  obtain ⟨i, stmt, hstmt, hprobe, hslots⟩ := stmtCachePut_cases w cache parse slot h
  obtain ⟨hname, hquery, hoids⟩ := hw.copies _ _ hstmt
  rw [stmtCacheGet_congr hslots, stmtCacheGet, probe,
    probeFrom_setSlot_self cache _ i stmt slot hname _ _ hprobe]
  simp only [StmtCache.setSlot_self, hname, hquery, hoids]

/-- Storing another statement leaves a stored one alone. -/
theorem stmtCacheGet_put_of_ne {w : Pqwire} (hw : w.PreparesCopies) (cache : StmtCache)
    (parse : PqParse) (slot : Int) {name : Text} (hne : parse.statement ≠ name)
    {stmt : PreparedStmt} (h : stmtCacheGet cache name = some stmt) :
    stmtCacheGet (stmtCachePut w cache parse slot).1 name = some stmt := by
  cases hok : (stmtCachePut w cache parse slot).2 with
  | false => rw [stmtCachePut_failed w cache parse slot hok, h]
  | true =>
      obtain ⟨i, new, hnew, hprobe, hslots⟩ := stmtCachePut_cases w cache parse slot hok
      have hname := (hw.copies _ _ hnew).1
      rw [stmtCacheGet_congr hslots]
      unfold stmtCacheGet at h ⊢
      cases hfound : probe cache name with
      | free k => simp [hfound] at h
      | exhausted => simp [hfound] at h
      | found j =>
          have hi : (cache.slots i).inUse = true → (cache.slots i).stmt.name ≠ name := by
            intro huse
            rcases hprobe with hfree | hthere
            · rw [probeFrom_free cache _ i _ _ hfree] at huse
              cases huse
            · rw [(probeFrom_found cache _ i _ _ hthere).2]
              exact hne
          have hj : j ≠ i := by
            rintro rfl
            obtain ⟨huse, hnamed⟩ := probeFrom_found cache name j _ _ hfound
            exact hi huse hnamed
          rw [probe, probeFrom_setSlot_of_ne cache name i j new slot (by rw [hname]; exact hne)
            hi _ _ hfound]
          simp only [hfound] at h
          simp only [StmtCache.setSlot_of_ne _ hj]
          exact h

/-! ### A history of Parse events -/

/-- The slot argument the event loop passes with a Parse. -/
def parseIdentitySlot (id : Identity) (cfgSlot : Int) : Int :=
  if 0 ≤ id.identitySlot then id.identitySlot else cfgSlot

/-- The cache after a history of Parse events on a connection. -/
def cacheAfter (w : Pqwire) (id : Identity) (cfgSlot : Int) (paramName : Option Text)
    (cache : StmtCache) (history : List PqParse) : StmtCache :=
  history.foldl (fun cache parse => (onParseEx w [] cache parse (parseIdentitySlot id cfgSlot)
    paramName).2.1) cache

theorem onParseEx_cache (w : Pqwire) (frontend : Bytes) (cache : StmtCache) (parse : PqParse)
    (slot : Int) (paramName : Option Text) :
    (onParseEx w frontend cache parse slot paramName).2.1 =
      (stmtCachePut w cache parse (parseSlot parse.query slot paramName)).1 := by
  unfold onParseEx
  dsimp only
  split <;> rfl

theorem stmtCacheGet_cacheAfter {w : Pqwire} (hw : w.PreparesCopies) (id : Identity) (cfgSlot : Int)
    (paramName : Option Text) (history : List PqParse) (cache : StmtCache) {name : Text}
    (hne : ∀ q ∈ history, q.statement ≠ name) {stmt : PreparedStmt}
    (h : stmtCacheGet cache name = some stmt) :
    stmtCacheGet (cacheAfter w id cfgSlot paramName cache history) name = some stmt := by
  induction history generalizing cache with
  | nil => exact h
  | cons q history ih =>
      apply ih
      · exact fun r hr => hne r (List.mem_cons_of_mem _ hr)
      · dsimp only
        rw [onParseEx_cache]
        exact stmtCacheGet_put_of_ne hw cache q _ (hne q List.mem_cons_self) h

/-- The latest accepted Parse of a statement decides what its Binds find. -/
theorem stmtCacheGet_latest {w : Pqwire} (hw : w.PreparesCopies) (id : Identity) (cfgSlot : Int)
    (paramName : Option Text) (before after : List PqParse) (parse : PqParse)
    (hlatest : ∀ q ∈ after, q.statement ≠ parse.statement)
    (hok : (stmtCachePut w (cacheAfter w id cfgSlot paramName stmtCacheInit before) parse
      (parseSlot parse.query (parseIdentitySlot id cfgSlot) paramName)).2 = true) :
    stmtCacheGet (cacheAfter w id cfgSlot paramName stmtCacheInit (before ++ parse :: after))
        parse.statement =
      some ⟨parse.statement, parse.query, parse.paramTypeOids,
        parseSlot parse.query (parseIdentitySlot id cfgSlot) paramName⟩ := by
  have happend : cacheAfter w id cfgSlot paramName stmtCacheInit (before ++ parse :: after) =
      cacheAfter w id cfgSlot paramName (stmtCachePut w
        (cacheAfter w id cfgSlot paramName stmtCacheInit before) parse
        (parseSlot parse.query (parseIdentitySlot id cfgSlot) paramName)).1 after := by
    simp only [cacheAfter, List.foldl_append, List.foldl_cons, onParseEx_cache]
  rw [happend]
  exact stmtCacheGet_cacheAfter hw id cfgSlot paramName after _ hlatest
    (stmtCacheGet_put_self hw _ parse _ hok)

/-- The parameter a Bind loses to the identity, when it gets as far as the rewrite. -/
def overwrittenSlot (cache : StmtCache) (bind : PqBind) (id : Identity) : Option Nat :=
  match stmtCacheGet cache bind.statement with
  | none => none
  | some prep =>
      if bind.params.length ≤ bindSlot id prep then none else some (bindSlot id prep)

theorem Outbox.send_sent {w : Pqwire} {o o' : Outbox} {m : ClientMsg} (h : o.send w m = some o') :
    o'.sent = o.sent ++ [m] := by
  rw [Outbox.send] at h
  split at h
  · cases h
    rfl
  · cases h

theorem sendBind_sent {w : Pqwire} (hw : w.ReplacesSlot) {o o' : Outbox} {bind : PqBind}
    {slot : Nat} {id : Identity} (h : sendBind w o bind slot id = some o') :
    o'.sent = o.sent ++
      [.bind [] [] (bind.params.set slot ⟨0, some id.routerId.bytes⟩) bind.resultFormats] := by
  unfold sendBind at h
  split at h
  · rename_i o₁ hrewrite
    cases h
    obtain ⟨ps, hps, hsend⟩ := Option.bind_eq_some_iff.mp hrewrite
    rw [Outbox.send_sent hsend, hw.rewrites _ _ _ _ hps]
  · obtain ⟨ps, hps, hsend⟩ := Option.bind_eq_some_iff.mp h
    rw [Outbox.send_sent hsend, hw.injects _ _ _ _ hps]

/-- A successful Bind sends exactly one unnamed pipeline, with the overwritten parameter replaced by
the identity and the client's other parameters. -/
theorem onBind_sent {w : Pqwire} (hw : w.ReplacesSlot) {o o' : Outbox} {cache : StmtCache}
    {bind : PqBind} {id : Identity} (h : onBind w o cache bind id = (o', true)) :
    ∃ slot prep, overwrittenSlot cache bind id = some slot ∧
      stmtCacheGet cache bind.statement = some prep ∧
      o'.sent = o.sent ++ [.parse [] prep.query prep.paramTypeOids,
        .bind [] [] (bind.params.set slot ⟨0, some id.routerId.bytes⟩) bind.resultFormats,
        .execute [] 0, .sync] := by
  unfold onBind at h
  cases hget : stmtCacheGet cache bind.statement with
  | none => simp [hget] at h
  | some prep =>
      simp only [hget] at h
      split at h
      · simp at h
      · rename_i hrange
        refine ⟨bindSlot id prep, prep, ?_, rfl, ?_⟩
        · rw [overwrittenSlot, hget]
          exact if_neg (by omega)
        · cases h1 : o.send w (.parse [] prep.query prep.paramTypeOids) with
          | none => simp [h1] at h
          | some o₁ =>
              simp only [h1] at h
              cases h2 : sendBind w o₁ bind (bindSlot id prep) id with
              | none => simp [h2] at h
              | some o₂ =>
                  simp only [h2] at h
                  cases h3 : o₂.send w (.execute [] 0) with
                  | none => simp [h3] at h
                  | some o₃ =>
                      simp only [h3] at h
                      cases h4 : o₃.send w .sync with
                      | none => simp [h4] at h
                      | some o₄ =>
                          simp only [h4, Prod.mk.injEq, and_true] at h
                          subst h
                          rw [Outbox.send_sent h4, Outbox.send_sent h3, sendBind_sent hw h2,
                            Outbox.send_sent h1]
                          simp

/-- A Bind overwrites the slot that its statement's query was resolved to exactly when no slot is
configured, or the configured slot is that one. -/
theorem overwrittenSlot_resolved_iff {w : Pqwire} (hw : w.PreparesCopies) (cfgSlot : Int)
    (paramName : Text) (hname : paramName ≠ []) (id : Identity) (hid : id.identitySlot = cfgSlot)
    (before after : List PqParse) (parse : PqParse)
    (hlatest : ∀ q ∈ after, q.statement ≠ parse.statement)
    (hok : (stmtCachePut w (cacheAfter w id cfgSlot (some paramName) stmtCacheInit before) parse
      (parseSlot parse.query (parseIdentitySlot id cfgSlot) (some paramName))).2 = true)
    (k : Nat) (hk : resolveIdentitySlot parse.query (some paramName)
      (parseIdentitySlot id cfgSlot) = k)
    (bind : PqBind) (hstmt : bind.statement = parse.statement) (hlt : k < bind.params.length) :
    overwrittenSlot (cacheAfter w id cfgSlot (some paramName) stmtCacheInit
        (before ++ parse :: after)) bind id = some k ↔ cfgSlot < 0 ∨ cfgSlot = k := by
  have hget := stmtCacheGet_latest hw id cfgSlot (some paramName) before after parse hlatest hok
  have hparse : parseSlot parse.query (parseIdentitySlot id cfgSlot) (some paramName) = k := by
    simp [parseSlot, hname, hk]
  rw [overwrittenSlot, hstmt, hget, hparse]
  simp only [bindSlot, hid]
  by_cases hcfg : 0 ≤ cfgSlot
  · simp only [hcfg, if_true]
    split
    · constructor
      · intro h
        cases h
      · omega
    · rw [Option.some.injEq]
      omega
  · simp only [hcfg, if_false, Int.toNat_natCast]
    rw [if_neg (by omega)]
    exact iff_of_true rfl (Or.inl (by omega))

/-! A connection as the event loop sets it up, with the default configured slot. -/

def routerIdentity : Identity := ⟨"router-7".toList, "region_east".toList, 0⟩

def insertParse : PqParse where
  statement := "ins".toList
  query := "INSERT INTO t (payload, router_id) VALUES ($1, $2)".toList
  paramTypeOids := []

def forgedBind : PqBind where
  statement := "ins".toList
  portal := []
  params := [⟨0, some [120]⟩, ⟨0, some [121]⟩]
  resultFormats := []

/-- With the default slot 0 the identity lands in the payload and the client's value stays in the
identity column, although the query was resolved to slot 1. -/
theorem overwrittenSlot_configured_first :
    resolveIdentitySlot insertParse.query (some "router_id".toList) 0 = 1 ∧
      overwrittenSlot (cacheAfter pgWire routerIdentity 0 (some "router_id".toList) stmtCacheInit
        [insertParse]) forgedBind routerIdentity = some 0 := by
  decide +kernel

theorem overwrittenSlot_without_configured :
    overwrittenSlot (cacheAfter pgWire { routerIdentity with identitySlot := -1 } (-1)
      (some "router_id".toList) stmtCacheInit [insertParse]) forgedBind
      { routerIdentity with identitySlot := -1 } = some 1 :=
  (overwrittenSlot_resolved_iff WirePg.preparesCopies (-1) "router_id".toList (by decide)
    { routerIdentity with identitySlot := -1 } rfl [] [] insertParse (by simp) (by decide +kernel) 1
    (by decide +kernel) forgedBind rfl (by decide)).mpr (Or.inl (by decide))
