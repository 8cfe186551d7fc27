import PqProxy.PoolNames

/-! How large a new pool is, and how its slots are shared out among the groups: in consecutive blocks
of equal size, the first blocks one slot longer. The number of slots is a machine word, and the
reserve for lazy logins is added to it before anything is capped. -/

/-- The number of connections that are asked for, at least one for each group. -/
def wantedConns (cfg : BackendConfig) : Nat :=
  let n := if cfg.poolSize = 0 then 4 else cfg.poolSize
  if cfg.useGroupAsUser = true ∧ parseGroups cfg.groups ≠ [] then
    max n (parseGroups cfg.groups).length
  else n

/-- `max_conns` of a new pool. -/
def newMaxConns (cfg : BackendConfig) : Nat :=
  min ((wantedConns cfg + if cfg.lazyGroupConnect then 16 else 0) % 18446744073709551616) 64

/-- `n` of a new pool. -/
def newConns (cfg : BackendConfig) : Nat := min (wantedConns cfg) (newMaxConns cfg)

/-- The user of a new pool. -/
def newUser (cfg : BackendConfig) : Text :=
  Text.copyTo (if cfg.user = [] then "postgres".toList else cfg.user) 128

/-- The logins of a new pool, in their order. -/
def newPlan (cfg : BackendConfig) : List (Nat × Text) :=
  warmPlan (parseGroups cfg.groups) cfg.useGroupAsUser (newUser cfg) (newConns cfg)

/-- A pool before its warm-up. -/
def newPool (cfg : BackendConfig) : Pool where
  cfg := cfg
  user := newUser cfg
  groups := parseGroups cfg.groups
  useGroupAsUser := cfg.useGroupAsUser
  lazyConnect := cfg.lazyGroupConnect
  maxConns := newMaxConns cfg
  conns := BackendConn.fresh
  n := newConns cfg
  rrCursor := 0
  clock := 0
  sessions := 0
  written := []

theorem poolCreate_eq (env : Env) (cfg : BackendConfig) :
    poolCreate env cfg =
      match warmSlots env (newPlan cfg) (newPool cfg) 0 with
      | (_, 0) => none
      | (p, _ + 1) => some p := rfl

/-! ### Shares -/

/-- The names are the groups in blocks, none of them empty and none longer than another by more than
one. -/
def FairShares (groups names : List Text) : Prop :=
  ∃ counts : List Nat, counts.length = groups.length ∧
    names = (groups.zip counts).flatMap (fun x => List.replicate x.2 x.1) ∧
    (∀ count ∈ counts, 1 ≤ count) ∧ ∀ count ∈ counts, ∀ count' ∈ counts, count ≤ count' + 1

/-- The share of the group with this index, of `n` slots for `k` groups. -/
def share (n k g : Nat) : Nat := n / k + if g < n % k then 1 else 0

/-- All slots are shared out: what is left by the division goes to the first groups. -/
theorem sum_share (n k : Nat) {len : Nat} :
    ((List.range len).map (share n k)).sum = len * (n / k) + min len (n % k) := by
  induction len with
  | zero => simp
  | succ len ih =>
      rw [List.range_succ, List.map_append, List.sum_append, ih, List.map_singleton,
        List.sum_singleton, share]
      split
      · rw [Nat.succ_mul]
        omega
      · rw [Nat.succ_mul]
        omega

theorem sum_share_all {n k : Nat} (hk : 0 < k) : ((List.range k).map (share n k)).sum = n := by
  have hlt := Nat.mod_lt n hk
  have hdiv := Nat.div_add_mod n k
  rw [sum_share, Nat.min_eq_right (Nat.le_of_lt hlt)]
  exact hdiv

/-- The blocks of the plan, before it is cut to the number of slots. -/
theorem blocks_eq (groups : List Text) (count : Nat → Nat) :
    (groups.zipIdx.flatMap fun (name, g) => List.replicate (count g) name) =
      (groups.zip ((List.range groups.length).map count)).flatMap
        (fun x => List.replicate x.2 x.1) := by
  rw [List.zip_map_right, List.flatMap_map, List.zipIdx_eq_zip_range', ← List.range_eq_range']
  rfl

theorem length_blocks_eq (groups : List Text) (count : Nat → Nat) :
    (groups.zipIdx.flatMap fun (name, g) => List.replicate (count g) name).length =
      ((List.range groups.length).map count).sum := by
  rw [List.length_flatMap, List.zipIdx_eq_zip_range', ← List.range_eq_range']
  congr 1
  have hcount : (fun x : Text × Nat => (List.replicate (count x.2) x.1).length) = count ∘ Prod.snd := by
    funext x
    exact List.length_replicate
  calc
    _ = (groups.zip (List.range groups.length)).map (count ∘ Prod.snd) := by rw [← hcount]
    _ = ((groups.zip (List.range groups.length)).map Prod.snd).map count := List.map_map.symm
    _ = _ := by rw [List.map_snd_zip (Nat.le_of_eq List.length_range)]

/-- The plan names every slot once, and shares the slots out fairly. -/
theorem warmPlan_fair {groups : List Text} (user : Text) {n : Nat} (hgroups : groups ≠ [])
    (hn : groups.length ≤ n) :
    (warmPlan groups true user n).map Prod.fst = List.range n ∧
      FairShares groups ((warmPlan groups true user n).map Prod.snd) := by
  have hpos := List.length_pos_of_ne_nil hgroups
  have hone : 1 ≤ n / groups.length := (Nat.one_le_div_iff hpos).mpr hn
  have hmax : max (n / groups.length) 1 = n / groups.length := Nat.max_eq_left hone
  have hlen := length_blocks_eq groups (share n groups.length)
  rw [sum_share_all hpos] at hlen
  have hplan : warmPlan groups true user n =
      (groups.zipIdx.flatMap fun (name, g) =>
        List.replicate (share n groups.length g) name).zipIdx.map fun (name, b) => (b, name) := by
    unfold warmPlan
    rw [if_pos ⟨rfl, hgroups⟩, hmax]
    dsimp only
    rw [List.take_of_length_le]
    · rfl
    · exact Nat.le_of_eq hlen
  rw [hplan, List.map_map, List.map_map]
  constructor
  · calc
      _ = (List.zipIdx _).map Prod.snd := List.map_congr_left fun _ _ => rfl
      _ = List.range' 0 _ := List.zipIdx_map_snd 0 _
      _ = List.range n := by rw [hlen, List.range_eq_range']
  · refine ⟨(List.range groups.length).map (share n groups.length), by simp, ?_, ?_, ?_⟩
    · calc
        _ = (List.zipIdx _).map Prod.fst := List.map_congr_left fun _ _ => rfl
        _ = _ := List.zipIdx_map_fst 0 _
        _ = _ := blocks_eq groups (share n groups.length)
    · intro count hcount
      obtain ⟨g, -, rfl⟩ := List.mem_map.mp hcount
      unfold share
      omega
    · intro count hcount count' hcount'
      obtain ⟨g, -, rfl⟩ := List.mem_map.mp hcount
      obtain ⟨g', -, rfl⟩ := List.mem_map.mp hcount'
      unfold share
      split
      · omega
      · omega

theorem length_parseGroupsFrom (fuel : Nat) (csv : Text) (n : Nat) :
    (parseGroupsFrom fuel csv n).length ≤ maxBackendGroups - n := by
  induction fuel generalizing csv n with
  | zero => exact Nat.zero_le _
  | succ fuel ih =>
      rw [parseGroupsFrom]
      split
      · exact Nat.zero_le _
      · rename_i hroom
        rw [not_or, Nat.not_le] at hroom
        dsimp only
        split
        · have := ih ((csv.dropWhile (· != ',')).drop 1) (n + 1)
          rw [List.length_cons]
          omega
        · exact ih _ n

/-! ### The size of a pool -/

theorem warmOne_sizes (env : Env) (p : Pool) (b : Nat) (user : Text) :
    (warmOne env p b user).1.n = p.n ∧ (warmOne env p b user).1.maxConns = p.maxConns := by
  unfold warmOne
  dsimp only [Pool.setConn, Pool.tick, Pool.newSession]
  split
  · exact ⟨rfl, rfl⟩
  · split
    · exact ⟨rfl, rfl⟩
    · split
      · exact ⟨rfl, rfl⟩
      · exact ⟨rfl, rfl⟩

theorem warmSlots_sizes (env : Env) (plan : List (Nat × Text)) (p : Pool) (ok : Nat) :
    (warmSlots env plan p ok).1.n = p.n ∧ (warmSlots env plan p ok).1.maxConns = p.maxConns := by
  induction plan generalizing p ok with
  | nil => exact ⟨rfl, rfl⟩
  | cons x plan ih =>
      obtain ⟨hn, hmax⟩ := warmOne_sizes env p x.1 x.2
      obtain ⟨hn', hmax'⟩ := ih (warmOne env p x.1 x.2).1
        (if (warmOne env p x.1 x.2).2 then ok + 1 else ok)
      exact ⟨hn'.trans hn, hmax'.trans hmax⟩

theorem poolCreate_sizes {env : Env} {cfg : BackendConfig} {p : Pool}
    (h : poolCreate env cfg = some p) : p.n = newConns cfg ∧ p.maxConns = newMaxConns cfg := by
  rw [poolCreate_eq] at h
  split at h
  · cases h
  · rename_i q ok heq
    cases h
    have hsizes := warmSlots_sizes env (newPlan cfg) (newPool cfg) 0
    rw [heq] at hsizes
    exact hsizes

/-- The numbers of a new pool fit each other, and its logins are one for each slot, fairly shared out
among the groups. -/
structure WellSized (cfg : BackendConfig) : Prop where
  created : ∀ env p, poolCreate env cfg = some p → p.n = newConns cfg ∧ p.maxConns = newMaxConns cfg
  groups_le : (parseGroups cfg.groups).length ≤ newConns cfg
  conns_le : newConns cfg ≤ newMaxConns cfg
  max_le : newMaxConns cfg ≤ 64
  slots : (newPlan cfg).map Prod.fst = List.range (newConns cfg)
  shares : FairShares (parseGroups cfg.groups) ((newPlan cfg).map Prod.snd)

/-- In a pool that logs in by group the sizes are right unless the reserve wraps the number of slots
around to less than the number of groups. -/
theorem wellSized_iff (cfg : BackendConfig) (hsize : cfg.poolSize < 18446744073709551616)
    (hby : cfg.useGroupAsUser = true) (hgroups : parseGroups cfg.groups ≠ []) :
    WellSized cfg ↔ cfg.lazyGroupConnect = false ∨ cfg.poolSize + 16 < 18446744073709551616 ∨
      (parseGroups cfg.groups).length + 18446744073709551616 ≤ cfg.poolSize + 16 := by
  have hfew : (parseGroups cfg.groups).length ≤ 16 := length_parseGroupsFrom _ _ 0
  have hwanted : wantedConns cfg =
      max (if cfg.poolSize = 0 then 4 else cfg.poolSize) (parseGroups cfg.groups).length := by
    unfold wantedConns
    exact if_pos ⟨hby, hgroups⟩
  have hsizes : (parseGroups cfg.groups).length ≤ newConns cfg ↔ cfg.lazyGroupConnect = false ∨
      cfg.poolSize + 16 < 18446744073709551616 ∨
        (parseGroups cfg.groups).length + 18446744073709551616 ≤ cfg.poolSize + 16 := by
    obtain ⟨n, hn⟩ : ∃ n, (if cfg.poolSize = 0 then 4 else cfg.poolSize) = n := ⟨_, rfl⟩
    have hcases : cfg.poolSize = 0 ∧ n = 4 ∨ n = cfg.poolSize := by
      split at hn
      · exact .inl ⟨by assumption, hn.symm⟩
      · exact .inr hn.symm
    unfold newConns newMaxConns
    rw [hwanted, hn]
    cases cfg.lazyGroupConnect with
    | false =>
        simp only [Bool.false_eq_true, if_false, Nat.add_zero, true_or, iff_true]
        omega
    | true =>
        simp only [if_true, Bool.true_eq_false, false_or]
        omega
  rw [← hsizes]
  constructor
  · exact WellSized.groups_le
  · intro hle
    obtain ⟨hslots, hshares⟩ := warmPlan_fair (newUser cfg) hgroups hle
    refine ⟨fun _ _ => poolCreate_sizes, hle, Nat.min_le_right _ _, Nat.min_le_right _ _, ?_, ?_⟩
    · rw [newPlan, hby]
      exact hslots
    · rw [newPlan, hby]
      exact hshares

/-- Five connections for two groups, with a reserve. -/
def fiveConfig : BackendConfig :=
  { lazyConfig with groups := "east, west".toList, poolSize := 5 }

theorem wellSized_five : WellSized fiveConfig :=
  (wellSized_iff fiveConfig (by decide) rfl (by decide +kernel)).mpr (.inr (.inl (by decide)))

/-- A pool size of -16 on the command line: with the reserve there is no slot at all. -/
def negativeConfig : BackendConfig :=
  { lazyConfig with groups := "east".toList, poolSize := 18446744073709551600 }

theorem not_wellSized : negativeConfig.useGroupAsUser = true ∧
    (parseGroups negativeConfig.groups).length = 1 ∧ newMaxConns negativeConfig = 0 ∧
      ¬ WellSized negativeConfig := by
  refine ⟨rfl, by decide +kernel, by decide +kernel, fun h => ?_⟩
  have hle := h.groups_le
  revert hle
  decide +kernel
