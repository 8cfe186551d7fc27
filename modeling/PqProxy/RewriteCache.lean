import PqProxy.LinearProbing
import PqProxy.RewriteSlot
import Mathlib

/-! The statement cache against a bounded map: what a search finds is what was stored last, and
removing a statement, which stores all others anew, loses none of them. -/

/-- A slot that was zeroed. -/
def StmtSlot.zero : StmtSlot := ⟨⟨[], [], [], 0⟩, false⟩

/-- Zero slot `i`. -/
def StmtCache.clearSlot (cache : StmtCache) (i : Nat) : StmtCache :=
  { slots := Function.update cache.slots i .zero, count := cache.count - 1 }

/-- The Parse that is made up for a stored statement. -/
def PreparedStmt.toParse (w : Pqwire) (stmt : PreparedStmt) : PqParse :=
  ⟨stmt.name.copyTo w.maxStmtName, stmt.query.copyTo w.maxQueryLen, stmt.paramTypeOids⟩

/-- Store the statements of the slots `js` again. -/
def rehash (w : Pqwire) (old : Nat → StmtSlot) : List Nat → StmtCache → StmtCache × Bool
  | [], cache => (cache, true)
  | j :: js, cache =>
      if (old j).inUse then
        match stmtCachePut w cache ((old j).stmt.toParse w) (old j).stmt.identityParamSlot with
        | (cache, false) => (cache, false)
        | (cache, true) => rehash w old js cache
      else rehash w old js cache

/-- `pqproxy_stmt_cache_remove`. -/
def stmtCacheRemove (w : Pqwire) (cache : StmtCache) (name : Text) : StmtCache × Bool :=
  match probe cache name with
  | .found i =>
      rehash w (cache.clearSlot i).slots (List.range maxCachedStmts)
        { slots := fun _ => .zero, count := 0 }
  | _ => (cache, false)

/-- What is stored under a name. -/
structure CachedStmt where
  query : Text
  paramTypeOids : List Nat
  identitySlot : Int
  deriving DecidableEq

abbrev StmtMap := Finmap fun _ : Text => CachedStmt

def CachedStmt.named (v : CachedStmt) (name : Text) : PreparedStmt :=
  ⟨name, v.query, v.paramTypeOids, v.identitySlot⟩

/-- A call on the cache. -/
inductive CacheCall where
  | put (parse : PqParse) (identitySlot : Int)
  | remove (name : Text)

/-- The call on the cache, and whether it succeeded. -/
def CacheCall.run (w : Pqwire) (cache : StmtCache) : CacheCall → StmtCache × Bool
  | .put parse identitySlot => stmtCachePut w cache parse identitySlot
  | .remove name => stmtCacheRemove w cache name

/-- The call on a map: there is always room for a name that is present. -/
def CacheCall.runMap (m : StmtMap) : CacheCall → StmtMap × Bool
  | .put parse identitySlot =>
      if parse.statement ∈ m ∨ m.keys.card < maxCachedStmts then
        (m.insert parse.statement ⟨parse.query, parse.paramTypeOids, identitySlot⟩, true)
      else (m, false)
  | .remove name => if name ∈ m then (m.erase name, true) else (m, false)

/-- Name and query are held in the arrays of `pq_parse_t`, with their terminating zeros. -/
structure FitsStmt (w : Pqwire) (name query : Text) : Prop where
  name : name.length < w.maxStmtName
  query : query.length < w.maxQueryLen

/-- The Parse of a put fits its arrays. -/
def CacheCall.Fits (w : Pqwire) : CacheCall → Prop
  | .put parse _ => FitsStmt w parse.statement parse.query
  | .remove _ => True

/-- The entries of the slots in use. -/
def StmtCache.cells (cache : StmtCache) (i : Nat) : Option PreparedStmt :=
  if (cache.slots i).inUse then some (cache.slots i).stmt else none

namespace StmtCache

open LinearProbing

/-- Where the search for a name starts. -/
def home (name : Text) : Nat := (stmtNameHash name).toNat

/-- The cache holds what the map holds, where a search finds it. -/
structure Refines (w : Pqwire) (cache : StmtCache) (m : StmtMap) : Prop where
  placed : Placed PreparedStmt.name home maxCachedStmts cache.cells
  holds : ∀ name v, m.lookup name = some v ↔
    Holds PreparedStmt.name maxCachedStmts cache.cells name (v.named name)
  occupied : (occupied maxCachedStmts cache.cells).card = cache.count
  count : cache.count = m.keys.card
  fits : ∀ i stmt, cache.cells i = some stmt → FitsStmt w stmt.name stmt.query

theorem cells_of_inUse {cache : StmtCache} {i : Nat} (h : (cache.slots i).inUse = true) :
    cache.cells i = some (cache.slots i).stmt := if_pos h

theorem cells_setSlot (cache : StmtCache) (i : Nat) (stmt : PreparedStmt) (slot : Int) :
    (cache.setSlot i stmt slot).cells =
      Function.update cache.cells i (some { stmt with identityParamSlot := slot }) := by
  funext j
  by_cases hj : j = i
  · subst hj
    rw [Function.update_self, cells, cache.setSlot_self j stmt slot]
    rfl
  · rw [Function.update_of_ne hj, cells, cache.setSlot_of_ne hj]
    rfl

theorem cells_clearSlot (cache : StmtCache) (i : Nat) :
    (cache.clearSlot i).cells = Function.update cache.cells i none := by
  funext j
  by_cases hj : j = i
  · subst hj
    simp [cells, clearSlot, StmtSlot.zero]
  · simp [cells, clearSlot, hj]

/-- What the end of a search says of the table. -/
def Located (cache : StmtCache) (name : Text) : Probe → Prop
  | .found i => ∃ d, Ends PreparedStmt.name home maxCachedStmts cache.cells name d ∧
      i = cell home maxCachedStmts name d ∧ cache.cells i = some (cache.slots i).stmt ∧
      (cache.slots i).stmt.name = name
  | .free i => ∃ d, Ends PreparedStmt.name home maxCachedStmts cache.cells name d ∧
      i = cell home maxCachedStmts name d ∧ cache.cells i = none
  | .exhausted => Passes PreparedStmt.name home maxCachedStmts cache.cells name maxCachedStmts

theorem probeFrom_located (cache : StmtCache) (name : Text) (rounds probes : Nat)
    (hrounds : probes + rounds = maxCachedStmts)
    (hpasses : Passes PreparedStmt.name home maxCachedStmts cache.cells name probes) :
    cache.Located name (probeFrom cache name rounds probes) := by
  induction rounds generalizing probes with
  | zero =>
      rw [Nat.add_zero] at hrounds
      exact hrounds ▸ hpasses
  | succ rounds ih =>
      have hlt : probes < maxCachedStmts := by omega
      have hindex : ((stmtNameHash name).toNat + probes) % maxCachedStmts =
          cell home maxCachedStmts name probes := rfl
      simp only [probeFrom, hindex]
      by_cases huse : (cache.slots (cell home maxCachedStmts name probes)).inUse = false
      · have hfree : cache.cells (cell home maxCachedStmts name probes) = none := by
          rw [cells, huse]
          rfl
        rw [if_pos huse]
        exact ⟨probes, ⟨hlt, hpasses, by simp [hfree]⟩, rfl, hfree⟩
      · have hcell := cells_of_inUse (Bool.eq_true_of_not_eq_false huse)
        rw [if_neg huse]
        by_cases hname : (cache.slots (cell home maxCachedStmts name probes)).stmt.name = name
        · rw [if_pos hname]
          refine ⟨probes, ⟨hlt, hpasses, ?_⟩, rfl, hcell, hname⟩
          intro e he
          rw [hcell] at he
          exact Option.some.inj he ▸ hname
        · rw [if_neg hname]
          exact ih (probes + 1) (by omega) (hpasses.succ hcell hname)

theorem probe_located (cache : StmtCache) (name : Text) :
    cache.Located name (probe cache name) :=
  probeFrom_located cache name maxCachedStmts 0 (by omega) nofun

/-! ### Refinement -/

theorem keys_insert (m : StmtMap) (name : Text) (v : CachedStmt) :
    (m.insert name v).keys = insert name m.keys := by
  ext other
  simp [Finmap.mem_keys]

theorem refines_init (w : Pqwire) : Refines w { slots := fun _ => .zero, count := 0 } ∅ where
  placed := placed_empty
  holds := by
    intro name v
    rw [Finmap.lookup_empty]
    exact ⟨nofun, fun ⟨_, _, h, _⟩ => nomatch h⟩
  occupied := rfl
  count := rfl
  fits := nofun

namespace Refines

variable {w : Pqwire} {cache : StmtCache} {m : StmtMap} (h : Refines w cache m)
include h

/-- A name that a search finds has its entry in the map. -/
theorem lookup_of_holds {name : Text} {stmt : PreparedStmt}
    (hstmt : Holds PreparedStmt.name maxCachedStmts cache.cells name stmt) :
    m.lookup name = some ⟨stmt.query, stmt.paramTypeOids, stmt.identityParamSlot⟩ := by
  rw [h.holds]
  obtain ⟨i, hi, hcell, rfl⟩ := hstmt
  exact ⟨i, hi, hcell, rfl⟩

theorem lookup_of_not_holds {name : Text}
    (hnone : ∀ stmt, ¬ Holds PreparedStmt.name maxCachedStmts cache.cells name stmt) :
    m.lookup name = none := by
  rw [Option.eq_none_iff_forall_ne_some]
  intro v hv
  exact hnone _ ((h.holds name v).mp hv)

/-- A search returns what the map has. -/
theorem get (name : Text) :
    stmtCacheGet cache name = (m.lookup name).map fun v => v.named name := by
  have hprobe := cache.probe_located name
  rw [stmtCacheGet]
  cases hfound : probe cache name with
  | found i =>
      rw [hfound] at hprobe
      obtain ⟨d, hends, rfl, hcell, hname⟩ := hprobe
      have hlt : cell home maxCachedStmts name d < maxCachedStmts := cell_lt (by decide) name d
      rw [h.lookup_of_holds ⟨_, hlt, hcell, hname⟩]
      dsimp only
      generalize (cache.slots (cell home maxCachedStmts name d)).stmt = stmt at hname ⊢
      subst hname
      rfl
  | free i =>
      rw [hfound] at hprobe
      obtain ⟨d, hends, rfl, hfree⟩ := hprobe
      rw [h.lookup_of_not_holds (h.placed.not_holds_of_free hends.passes hends.lt hfree)]
      rfl
  | exhausted =>
      rw [hfound] at hprobe
      rw [h.lookup_of_not_holds (h.placed.not_holds_of_passes hprobe)]
      rfl

/-- Storing a statement where the search for its name ends. -/
theorem store {parse : PqParse} {slot : Int} {d : Nat} {stmt : PreparedStmt}
    (hends : Ends PreparedStmt.name home maxCachedStmts cache.cells parse.statement d)
    (hstmt : stmt.name = parse.statement ∧ stmt.query = parse.query ∧
      stmt.paramTypeOids = parse.paramTypeOids)
    (hfits : FitsStmt w parse.statement parse.query) {count : Nat}
    (hcount : (LinearProbing.occupied maxCachedStmts (cache.setSlot
      (cell home maxCachedStmts parse.statement d) stmt slot).cells).card = count)
    (hkeys : count = (m.insert parse.statement
      ⟨parse.query, parse.paramTypeOids, slot⟩).keys.card) :
    Refines w { cache.setSlot (cell home maxCachedStmts parse.statement d) stmt slot with
      count := count } (m.insert parse.statement ⟨parse.query, parse.paramTypeOids, slot⟩) := by
  obtain ⟨hname, hquery, hoids⟩ := hstmt
  have hcells : StmtCache.cells { cache.setSlot
      (cell home maxCachedStmts parse.statement d) stmt slot with count := count } =
      Function.update cache.cells (cell home maxCachedStmts parse.statement d)
        (some { stmt with identityParamSlot := slot }) := cells_setSlot ..
  have hkey : ({ stmt with identityParamSlot := slot } : PreparedStmt).name = parse.statement :=
    hname
  constructor
  case placed =>
    rw [hcells]
    exact h.placed.store hends hkey
  case holds =>
    intro name v
    rw [hcells]
    by_cases hsame : name = parse.statement
    · subst hsame
      rw [Finmap.lookup_insert, h.placed.holds_store_self hends hkey, Option.some.injEq,
        CachedStmt.named]
      rcases v with ⟨query, oids, identitySlot⟩
      simp only [hname, hquery, hoids, CachedStmt.mk.injEq, PreparedStmt.mk.injEq, true_and]
      exact ⟨fun ⟨h1, h2, h3⟩ => ⟨h1.symm, h2.symm, h3.symm⟩,
        fun ⟨h1, h2, h3⟩ => ⟨h1.symm, h2.symm, h3.symm⟩⟩
    · rw [Finmap.lookup_insert_of_ne _ hsame, holds_store_of_ne hends hkey hsame]
      exact h.holds name v
  case occupied => exact hcount
  case count => exact hkeys
  case fits =>
    intro i stmt' hcell
    rw [hcells] at hcell
    by_cases hi : i = cell home maxCachedStmts parse.statement d
    · subst hi
      rw [Function.update_self] at hcell
      cases hcell
      rw [← hname, ← hquery] at hfits
      exact hfits
    · rw [Function.update_of_ne hi] at hcell
      exact h.fits i stmt' hcell

/-- A name in the map is found, and another one is not. -/
theorem mem_of_holds {name : Text} {stmt : PreparedStmt}
    (hstmt : Holds PreparedStmt.name maxCachedStmts cache.cells name stmt) : name ∈ m :=
  Finmap.mem_of_lookup_eq_some (h.lookup_of_holds hstmt)

theorem not_mem_of_not_holds {name : Text}
    (hnone : ∀ stmt, ¬ Holds PreparedStmt.name maxCachedStmts cache.cells name stmt) : name ∉ m :=
  Finmap.lookup_eq_none.mp (h.lookup_of_not_holds hnone)

/-- A put stores, or refuses, as the map does. -/
theorem put (hw : w.PreparesCopies) (hprepares : ∀ p, ∃ stmt, w.preparedFromParse p = some stmt)
    (parse : PqParse) (hfits : FitsStmt w parse.statement parse.query) (slot : Int) :
    Refines w (stmtCachePut w cache parse slot).1 ((CacheCall.put parse slot).runMap m).1 ∧
      (stmtCachePut w cache parse slot).2 = ((CacheCall.put parse slot).runMap m).2 := by
  have hprobe := cache.probe_located parse.statement
  obtain ⟨stmt, hstmt⟩ := hprepares parse
  have hcell : ∀ d, cell home maxCachedStmts parse.statement d < maxCachedStmts :=
    cell_lt (by decide) parse.statement
  rw [stmtCachePut, CacheCall.runMap]
  cases hend : probe cache parse.statement with
  | found i =>
      rw [hend] at hprobe
      obtain ⟨d, hends, rfl, hfound, hname⟩ := hprobe
      have hmem := h.mem_of_holds ⟨_, hcell d, hfound, hname⟩
      rw [if_pos (Or.inl hmem)]
      simp only [hstmt]
      refine ⟨h.store hends (hw.copies _ _ hstmt) hfits ?_ ?_, trivial⟩
      · rw [cells_setSlot, occupied_store (hcell d), Finset.insert_eq_of_mem]
        · exact h.occupied
        · rw [LinearProbing.occupied, Finset.mem_filter, Finset.mem_range, hfound]
          exact ⟨hcell d, rfl⟩
      · rw [keys_insert, Finset.insert_eq_of_mem (Finmap.mem_keys.mpr hmem)]
        exact h.count
  | free i =>
      rw [hend] at hprobe
      obtain ⟨d, hends, rfl, hfree⟩ := hprobe
      have hmem := h.not_mem_of_not_holds
        (h.placed.not_holds_of_free hends.passes hends.lt hfree)
      dsimp only
      by_cases hfull : maxCachedStmts ≤ cache.count
      · rw [if_pos hfull, if_neg]
        · exact ⟨h, rfl⟩
        · rw [← h.count]
          rintro (hin | hroom)
          · exact hmem hin
          · omega
      · rw [if_neg hfull, if_pos (Or.inr (by rw [← h.count]; omega))]
        simp only [hstmt]
        refine ⟨h.store hends (hw.copies _ _ hstmt) hfits ?_ ?_, trivial⟩
        · rw [cells_setSlot, occupied_store (hcell d), Finset.card_insert_of_notMem, h.occupied]
          rw [LinearProbing.occupied, Finset.mem_filter, hfree]
          exact fun hin => by cases hin.2
        · rw [keys_insert, Finset.card_insert_of_notMem (fun hin => hmem (Finmap.mem_keys.mp hin)),
            h.count]
  | exhausted =>
      rw [hend] at hprobe
      have hmem := h.not_mem_of_not_holds (h.placed.not_holds_of_passes hprobe)
      have hcard := h.occupied
      rw [hprobe.occupied, Finset.card_range, h.count] at hcard
      rw [if_neg]
      · exact ⟨h, rfl⟩
      · rintro (hin | hroom)
        · exact hmem hin
        · omega

end Refines

/-! ### Rehashing -/

section Rehash

variable {w : Pqwire} (hw : w.PreparesCopies)
  (hprepares : ∀ p, ∃ stmt, w.preparedFromParse p = some stmt) {old : StmtCache}
  (hfits : ∀ i stmt, old.cells i = some stmt → FitsStmt w stmt.name stmt.query)
  (huniq : ∀ i < maxCachedStmts, ∀ j < maxCachedStmts, ∀ stmt stmt',
    old.cells i = some stmt → old.cells j = some stmt' → stmt.name = stmt'.name → i = j)
include hw hprepares hfits huniq

omit hw hprepares hfits huniq in
/-- The Parse made up for a stored statement that fits is the one it was stored from. -/
theorem toParse_eq {stmt : PreparedStmt} (h : FitsStmt w stmt.name stmt.query) :
    stmt.toParse w = ⟨stmt.name, stmt.query, stmt.paramTypeOids⟩ := by
  rw [PreparedStmt.toParse, Text.copyTo, Text.copyTo,
    List.take_of_length_le (Nat.le_sub_one_of_lt h.name),
    List.take_of_length_le (Nat.le_sub_one_of_lt h.query)]

/-- Storing the statements of some slots after those of others: none is refused, and the map has the
statements of both. -/
theorem rehash_refines (js : List Nat) : ∀ (done : List Nat) (cache : StmtCache) (m : StmtMap),
    done ++ js = List.range maxCachedStmts → Refines w cache m → m.keys.card ≤ done.length →
    (∀ name v, m.lookup name = some v ↔ ∃ j ∈ done, old.cells j = some (v.named name)) →
    ∃ m', (rehash w old.slots js cache).2 = true ∧
      Refines w (rehash w old.slots js cache).1 m' ∧
      ∀ name v, m'.lookup name = some v ↔ ∃ j < maxCachedStmts, old.cells j = some (v.named name) := by
  induction js with
  | nil =>
      intro done cache m hall h _ hm
      rw [List.append_nil] at hall
      refine ⟨m, rfl, h, ?_⟩
      intro name v
      rw [hm, hall]
      simp only [List.mem_range]
  | cons j js ih =>
      intro done cache m hall h hcard hm
      have hmem : ∀ i, i ∈ done → i < maxCachedStmts := fun i hi =>
        List.mem_range.mp (hall ▸ List.mem_append_left _ hi)
      have hj : j < maxCachedStmts :=
        List.mem_range.mp (hall ▸ List.mem_append_right _ List.mem_cons_self)
      have hlen : done.length + (js.length + 1) = maxCachedStmts := by
        have := congrArg List.length hall
        rwa [List.length_append, List.length_cons, List.length_range] at this
      have hnext : (done ++ [j]) ++ js = List.range maxCachedStmts := by
        rw [List.append_assoc]
        exact hall
      rw [rehash]
      by_cases huse : (old.slots j).inUse = true
      · have hcell := cells_of_inUse huse
        have hfit := hfits _ _ hcell
        generalize hstmt : (old.slots j).stmt = stmt at hcell hfit
        have hroom : stmt.name ∈ m ∨ m.keys.card < maxCachedStmts := Or.inr (by omega)
        obtain ⟨hrefines, hok⟩ := h.put hw hprepares
          ⟨stmt.name, stmt.query, stmt.paramTypeOids⟩ hfit stmt.identityParamSlot
        rw [CacheCall.runMap, if_pos hroom] at hrefines hok
        rw [if_pos huse, toParse_eq hfit]
        generalize stmtCachePut w cache ⟨stmt.name, stmt.query, stmt.paramTypeOids⟩
          stmt.identityParamSlot = r at hrefines hok
        obtain ⟨cache', ok⟩ := r
        obtain rfl : ok = true := hok
        apply ih (done ++ [j]) cache' _ hnext hrefines
        · rw [keys_insert, List.length_append]
          have := Finset.card_insert_le stmt.name m.keys
          exact this.trans (Nat.succ_le_succ hcard)
        · intro name v
          by_cases hname : name = stmt.name
          · subst hname
            rw [Finmap.lookup_insert]
            constructor
            · rintro ⟨⟩
              exact ⟨j, by simp, hcell⟩
            · -- an earlier slot with this name would be the same slot
              rintro ⟨i, hi, hentry⟩
              have hlt : i < maxCachedStmts := by
                rcases List.mem_append.mp hi with hi | hi
                · exact hmem i hi
                · exact List.mem_singleton.mp hi ▸ hj
              obtain rfl := huniq i hlt j hj _ _ hentry hcell rfl
              rw [hcell] at hentry
              exact congrArg (fun e : PreparedStmt =>
                some (CachedStmt.mk e.query e.paramTypeOids e.identityParamSlot))
                (Option.some.inj hentry)
          · rw [Finmap.lookup_insert_of_ne _ hname, hm]
            constructor
            · rintro ⟨i, hi, hentry⟩
              exact ⟨i, List.mem_append_left _ hi, hentry⟩
            · rintro ⟨i, hi, hentry⟩
              rcases List.mem_append.mp hi with hi | hi
              · exact ⟨i, hi, hentry⟩
              · rw [List.mem_singleton.mp hi, hcell] at hentry
                exact absurd (congrArg PreparedStmt.name (Option.some.inj hentry)).symm hname
      · rw [if_neg huse]
        have hcell : old.cells j = none := by
          rw [cells, if_neg huse]
        apply ih (done ++ [j]) cache m hnext h
        · rw [List.length_append]
          omega
        · intro name v
          rw [hm]
          simp [hcell]

end Rehash

namespace Refines

variable {w : Pqwire} {cache : StmtCache} {m : StmtMap} (h : Refines w cache m)
  (hw : w.PreparesCopies) (hprepares : ∀ p, ∃ stmt, w.preparedFromParse p = some stmt)
include h hw hprepares

/-- A remove finds its name, or not, as the map does, and stores all others again. -/
theorem remove (name : Text) :
    Refines w (stmtCacheRemove w cache name).1 ((CacheCall.remove name).runMap m).1 ∧
      (stmtCacheRemove w cache name).2 = ((CacheCall.remove name).runMap m).2 := by
  have hprobe := cache.probe_located name
  rw [stmtCacheRemove, CacheCall.runMap]
  cases hend : probe cache name with
  | found i =>
      rw [hend] at hprobe
      obtain ⟨d, hends, rfl, hfound, hname⟩ := hprobe
      have hlt : cell home maxCachedStmts name d < maxCachedStmts := cell_lt (by decide) name d
      generalize cell home maxCachedStmts name d = i at hfound hname hlt
      -- the other slots keep their entries
      have hcleared : ∀ j stmt, (cache.clearSlot i).cells j = some stmt ↔
          j ≠ i ∧ cache.cells j = some stmt := by
        intro j stmt
        rw [cells_clearSlot]
        by_cases hj : j = i
        · simp [hj]
        · simp [hj]
      have hle : ∀ j stmt, (cache.clearSlot i).cells j = some stmt → cache.cells j = some stmt :=
        fun j stmt hj => ((hcleared j stmt).mp hj).2
      obtain ⟨m', hok, hrefines, hm'⟩ := rehash_refines hw hprepares
        (fun j stmt hj => h.fits j stmt (hle j stmt hj))
        (fun j hj k hk stmt stmt' hs hs' => h.placed.cell_inj hj hk (hle _ _ hs) (hle _ _ hs'))
        (List.range maxCachedStmts) [] _ ∅ rfl (refines_init w) (Nat.zero_le _)
        (fun name v => by rw [Finmap.lookup_empty]; simp)
      have herase : m' = m.erase name := by
        apply Finmap.ext_lookup
        intro other
        apply Option.ext
        intro v
        by_cases hother : other = name
        · subst hother
          rw [Finmap.lookup_erase, hm']
          constructor
          · rintro ⟨j, hj, hentry⟩
            obtain ⟨hji, hcell⟩ := (hcleared j _).mp hentry
            exact absurd (h.placed.cell_inj hj hlt hcell hfound hname.symm) hji
          · exact nofun
        · rw [Finmap.lookup_erase_ne hother, hm', h.holds]
          constructor
          · rintro ⟨j, hj, hentry⟩
            exact ⟨j, hj, hle j _ hentry, rfl⟩
          · rintro ⟨j, hj, hentry, -⟩
            refine ⟨j, hj, (hcleared j _).mpr ⟨?_, hentry⟩⟩
            rintro rfl
            rw [hfound] at hentry
            exact hother (hname ▸ congrArg PreparedStmt.name (Option.some.inj hentry).symm)
      rw [if_pos (h.mem_of_holds ⟨_, hlt, hfound, hname⟩)]
      exact ⟨herase ▸ hrefines, hok⟩
  | free i =>
      rw [hend] at hprobe
      obtain ⟨d, hends, rfl, hfree⟩ := hprobe
      rw [if_neg (h.not_mem_of_not_holds (h.placed.not_holds_of_free hends.passes hends.lt hfree))]
      exact ⟨h, rfl⟩
  | exhausted =>
      rw [hend] at hprobe
      rw [if_neg (h.not_mem_of_not_holds (h.placed.not_holds_of_passes hprobe))]
      exact ⟨h, rfl⟩

/-- Every call on the cache does what it does on the map. -/
theorem run {call : CacheCall} (hfits : call.Fits w) :
    Refines w (call.run w cache).1 (call.runMap m).1 ∧
      (call.run w cache).2 = (call.runMap m).2 := by
  cases call with
  | put parse slot => exact h.put hw hprepares parse hfits slot
  | remove name => exact h.remove hw hprepares name

end Refines

end StmtCache

/-- The cache and the map after some calls. -/
def cacheAfterCalls (w : Pqwire) (calls : List CacheCall) : StmtCache :=
  calls.foldl (fun cache call => (call.run w cache).1) stmtCacheInit

def mapAfterCalls (calls : List CacheCall) : StmtMap :=
  calls.foldl (fun m call => (call.runMap m).1) ∅

theorem refines_afterCalls {w : Pqwire} (hw : w.PreparesCopies)
    (hprepares : ∀ p, ∃ stmt, w.preparedFromParse p = some stmt) {calls : List CacheCall}
    (hfits : ∀ call ∈ calls, call.Fits w) :
    (cacheAfterCalls w calls).Refines w (mapAfterCalls calls) := by
  induction calls using List.reverseRecOn with
  | nil => exact StmtCache.refines_init w
  | append_singleton calls call ih =>
      rw [cacheAfterCalls, mapAfterCalls, List.foldl_concat, List.foldl_concat]
      have hbefore := ih fun c hc => hfits c (List.mem_append_left _ hc)
      exact (hbefore.run hw hprepares (hfits call (by simp))).1

/-- After any calls the cache is a map of at most 64 statements: a search returns what was put last
under the name, the count is the number of names, and every further call succeeds exactly when it
does on the map; a refused put changes nothing. -/
theorem cache_refines_map {w : Pqwire} (hw : w.PreparesCopies)
    (hprepares : ∀ p, ∃ stmt, w.preparedFromParse p = some stmt) (calls : List CacheCall)
    (hfits : ∀ call ∈ calls, call.Fits w) :
    (∀ name, stmtCacheGet (cacheAfterCalls w calls) name =
        ((mapAfterCalls calls).lookup name).map fun v => v.named name) ∧
      (cacheAfterCalls w calls).count = (mapAfterCalls calls).keys.card ∧
      (∀ call : CacheCall, call.Fits w →
        (call.run w (cacheAfterCalls w calls)).2 = (call.runMap (mapAfterCalls calls)).2) ∧
      (∀ parse slot, (stmtCachePut w (cacheAfterCalls w calls) parse slot).2 = false →
        (stmtCachePut w (cacheAfterCalls w calls) parse slot).1 = cacheAfterCalls w calls) := by
  have h := refines_afterCalls hw hprepares hfits
  refine ⟨h.get, h.count, ?_, ?_⟩
  · intro call hcall
    exact (h.run hw hprepares hcall).2
  · intro parse slot
    exact stmtCachePut_failed w _ parse slot

/-- Put, put again, remove, and put another one. -/
def someCalls : List CacheCall :=
  [.put ⟨['a'], ['q'], []⟩ 0, .put ⟨['a'], ['r'], []⟩ 1, .remove ['a'], .put ⟨['b'], ['s'], []⟩ 2]

theorem cache_refines_someCalls : (cacheAfterCalls pgWire someCalls).count =
    (mapAfterCalls someCalls).keys.card :=
  (cache_refines_map WirePg.preparesCopies WirePg.succeeds.prepares someCalls (by
    simp only [someCalls, List.forall_mem_cons, List.not_mem_nil, IsEmpty.forall_iff, implies_true,
      and_true]
    exact ⟨⟨by decide, by decide⟩, ⟨by decide, by decide⟩, trivial, ⟨by decide, by decide⟩⟩)).2.1
