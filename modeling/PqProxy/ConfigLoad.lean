import PqProxy.ConfigFields

/-! The loader of the configuration file: the file is read into a buffer that grows, the YAML library makes a
tree of it, and the paths of the settings are looked up one after the other, so that the last one decides. -/

namespace ConfigYaml

open Assignments

inductive YamlEvent where
  | error (message : String)
  | other

/-- What the YAML library makes of a text: whether it takes it, the events it tells of it, and the tree it has
then: the scalar of a path, and the items of `backend.groups`. -/
structure Yaml where
  created : Bool
  fed : Nat
  events : List YamlEvent
  scalar : String → Option Text
  groups : List (Option Text)

/-- What the program gets from outside: the pieces in which a file is read, whether a buffer can grow to a size,
for which path there is no memory to keep a text, and the YAML library. -/
structure Surroundings where
  file : String → Option (List Bytes)
  realloc : Nat → Bool
  oom : String → Bool
  yaml : Bytes → Yaml

/-- `g_paths`. -/
def gPaths : List String :=
  ["listen", "listen.host", "listen.port", "listen_host", "listen_port", "tls.plain", "tls.require_mtls",
    "tls.cert", "tls.key", "tls.ca", "tls.ktls_prefer", "plain", "require_mtls", "cert", "key", "ca",
    "ktls_prefer", "identity.slot", "identity.param", "identity.param_name", "identity_slot",
    "identity_param", "msg_zerocopy", "zerocopy", "backend", "backend.host", "backend.port", "backend.user",
    "backend.password", "backend.database", "backend.pool_size", "backend.group_login", "backend.groups",
    "backend.lazy_group", "backend_host", "backend_port", "backend_user", "backend_password",
    "backend_database", "backend_pool", "backend_group_login", "backend_groups", "lazy_group",
    "metrics.log_ms", "metrics.http_host", "metrics.http_port", "metrics.http", "metrics_ms", "metrics_http",
    "maintain_ms", "quiet", "fair_schedule", "fair", "reject_simple_query", "extended_only",
    "allow_simple_query", "log_json", "structured_log"]

/-- `lookup`. -/
def lookup (y : Yaml) (path : String) : Option Text := ((y.scalar path).filter (· ≠ [])).map cText

section

variable (sys : Surroundings) (y : Yaml)

/-- One turn of the loop over the paths. -/
def applyPath (b : Bundle) (path : String) : Except String Bundle :=
  match lookup y path with
  | none => .ok b
  | some val => applyScalar (sys.oom path) b path val

/-- The message of the first error that the library tells of. -/
def firstError : List YamlEvent → Option String
  | [] => none
  | .error message :: _ => some message
  | .other :: events => firstError events

/-- `load_from_ctx`. -/
def loadFromCtx (b : Bundle) : Except String Bundle :=
  match firstError y.events with
  | some message => .error ("yaml parse: " ++ if message = "" then "error" else message)
  | none =>
      match gPaths.foldlM (applyPath sys y) b with
      | .error e => .error e
      | .ok b =>
          if b.cfg.backendGroups.isSome then .ok b
          else
            match joinGroupsSequence (sys.oom "backend.groups") b y.groups with
            | none => .error "backend.groups sequence too long"
            | some b => .ok b

/-- `pqproxy_config_load_yaml_buf`. -/
def loadYamlBuf (buf : Bytes) : Except String Bundle :=
  let y := sys.yaml buf
  if y.created = false then .error "yaml_create failed"
  else if y.fed = 0 ∧ buf ≠ [] then .error "yaml_feed_input consumed 0"
  else loadFromCtx sys y bundleInit

/-- The buffer a file is read into, and its capacity. -/
structure Growing where
  bytes : Bytes
  cap : Nat

/-- The capacity is doubled until it is enough, which needs no more than `fuel` rounds. -/
def doubled (need : Nat) : Nat → Nat → Nat
  | 0, ncap => ncap
  | fuel + 1, ncap => if ncap < need then doubled need fuel (ncap * 2) else ncap

/-- One turn of the loop that reads the file. -/
def readChunk (g : Growing) (chunk : Bytes) : Except String Growing :=
  let need := g.bytes.length + chunk.length + 1
  if g.cap < need then
    let ncap := doubled need need (if g.cap ≠ 0 then g.cap * 2 else 8192)
    if sys.realloc ncap then .ok ⟨g.bytes ++ chunk, ncap⟩ else .error "oom reading config"
  else .ok ⟨g.bytes ++ chunk, g.cap⟩

/-- The loop ends with the first piece that is empty. -/
def readFile (chunks : List Bytes) : Except String Growing :=
  (chunks.takeWhile (· ≠ [])).foldlM (readChunk sys) ⟨[], 0⟩

/-- `pqproxy_config_load_yaml`. -/
def loadYaml (path : String) : Except String Bundle :=
  match sys.file path with
  | none => .error ("cannot open " ++ path)
  | some chunks =>
      match readFile sys chunks with
      | .error e => .error e
      | .ok g => if g.cap = 0 then .ok bundleInit else loadYamlBuf sys g.bytes

/-! ### What a file tells -/

/-- What the scalar of a path assigns. -/
def Yaml.toldAt (path : String) : List Assignment :=
  match lookup y path, settingOf path with
  | some val, some s => s.told val
  | _, _ => []

/-- What the sequence of groups assigns. -/
def Yaml.toldGroups : List Assignment :=
  match joinGroupsFrom [] y.groups with
  | none | some [] => []
  | some (c :: buf) => [⟨.backendGroups, some (cText (c :: buf))⟩]

/-- What a tree assigns: its scalars in the order of the paths, and its sequence of groups when there is no
scalar for them. -/
def Yaml.told : List Assignment :=
  let scalars := gPaths.flatMap y.toldAt
  scalars ++ if ((decided scalars .backendGroups).getD none).isSome then [] else y.toldGroups

/-- What the file of a path assigns; an empty file assigns nothing. -/
def Surroundings.told (path : String) : List Assignment :=
  match sys.file path with
  | none => []
  | some chunks =>
      match (chunks.takeWhile (· ≠ [])).flatten with
      | [] => []
      | buf => (sys.yaml buf).told

end

section

variable {sys : Surroundings} {y : Yaml} {b b' : Bundle}

theorem applyScalar_get {oom : Bool} {path : String} {val : Text} (h : applyScalar oom b path val = .ok b') :
    b'.cfg.get = assignAll b.cfg.get (match settingOf path with | none => [] | some s => s.told val) := by
  unfold applyScalar at h
  cases hset : settingOf path with
  | none =>
      rw [hset] at h
      cases h
      rfl
  | some s =>
      rw [hset] at h
      dsimp only at h
      split at h
      · cases h
      · rename_i b₁ happly
        cases h
        exact applySetting_get happly

theorem applyPath_get {path : String} (h : applyPath sys y b path = .ok b') :
    b'.cfg.get = assignAll b.cfg.get (y.toldAt path) := by
  unfold applyPath at h
  unfold Yaml.toldAt
  cases hval : lookup y path with
  | none =>
      rw [hval] at h
      cases h
      rfl
  | some val =>
      rw [hval] at h
      rw [applyScalar_get h]
      cases settingOf path <;> rfl

theorem joinGroupsSequence_get {oom : Bool} (h : joinGroupsSequence oom b y.groups = some b') :
    b'.cfg.get = assignAll b.cfg.get y.toldGroups := by
  unfold joinGroupsSequence at h
  unfold Yaml.toldGroups
  split at h
  · rename_i hnone
    cases h
    rw [hnone]
    rfl
  · split at h
    · cases h
    · rename_i hjoin
      cases h
      rw [hjoin]
      rfl
    · rename_i buf hbuf hjoin
      obtain ⟨b₁, hdup, hsame⟩ := Option.map_eq_some_iff.mp h
      rw [hjoin]
      cases buf with
      | nil => exact absurd rfl hbuf
      | cons c buf =>
          rw [← hsame, ← bundleStrdup_cfg hdup]
          exact b₁.cfg.get_set ⟨.backendGroups, some (cText (c :: buf))⟩

/-- What the loader reads is what the tree tells, over the defaults. -/
theorem loadFromCtx_get (h : loadFromCtx sys y bundleInit = .ok b) :
    b.cfg.get = assignAll configDefaults.get y.told := by
  unfold loadFromCtx at h
  split at h
  · cases h
  · split at h
    · cases h
    · rename_i b₁ hpaths
      have hscalars : b₁.cfg.get = assignAll configDefaults.get (gPaths.flatMap y.toldAt) :=
        get_foldlM (fun b : Bundle => b.cfg.get) (fun _ _ _ happly => applyPath_get happly) hpaths
      have hgroups : b₁.cfg.backendGroups = (decided (gPaths.flatMap y.toldAt) .backendGroups).getD none := by
        have hfield := congrFun hscalars .backendGroups
        rwa [assignAll_apply] at hfield
      unfold Yaml.told
      dsimp only
      rw [assignAll_append, ← hscalars, ← hgroups]
      split at h
      · rename_i hsome
        cases h
        rw [if_pos hsome]
        rfl
      · rename_i hnone
        rw [if_neg hnone]
        split at h
        · cases h
        · rename_i hjoin
          cases h
          exact joinGroupsSequence_get hjoin

theorem le_doubled {need : Nat} : ∀ fuel {ncap : Nat}, 0 < ncap → need ≤ fuel + ncap →
    need ≤ doubled need fuel ncap := by
  intro fuel
  induction fuel with
  | zero =>
      intro ncap _ hneed
      rwa [Nat.zero_add] at hneed
  | succ fuel ih =>
      intro ncap hpos hneed
      unfold doubled
      split
      · exact ih (by omega) (by omega)
      · rename_i henough
        exact Nat.not_lt.mp henough

/-- Everything that was read is in the buffer, and there is room for the byte that ends it. -/
def Growing.Holds (g : Growing) (bytes : Bytes) : Prop :=
  g.bytes = bytes ∧ (g.cap = 0 ↔ bytes = []) ∧ (bytes ≠ [] → bytes.length < g.cap)

theorem readChunk_holds {g g' : Growing} {bytes chunk : Bytes} (hg : g.Holds bytes) (hchunk : chunk ≠ [])
    (h : readChunk sys g chunk = .ok g') : g'.Holds (bytes ++ chunk) := by
  obtain ⟨rfl, -, -⟩ := hg
  have hne : g.bytes ++ chunk ≠ [] := List.append_ne_nil_of_right_ne_nil _ hchunk
  have hlength : (g.bytes ++ chunk).length = g.bytes.length + chunk.length := List.length_append
  have hroom : g'.bytes = g.bytes ++ chunk ∧ g.bytes.length + chunk.length + 1 ≤ g'.cap := by
    unfold readChunk at h
    dsimp only at h
    split at h
    · have hpos : 0 < if g.cap ≠ 0 then g.cap * 2 else 8192 := by
        split
        · omega
        · decide
      have hdoubled := le_doubled (g.bytes.length + chunk.length + 1) hpos (Nat.le_add_right _ _)
      generalize doubled _ _ _ = ncap at h hdoubled
      split at h
      · cases h
        exact ⟨rfl, hdoubled⟩
      · cases h
    · rename_i henough
      cases h
      exact ⟨rfl, Nat.not_lt.mp henough⟩
  refine ⟨hroom.1, iff_of_false ?_ hne, fun _ => ?_⟩
  · omega
  · omega

theorem readChunks_holds {pieces : List Bytes} (hne : ∀ piece ∈ pieces, piece ≠ []) {g g' : Growing}
    {bytes : Bytes} (hg : g.Holds bytes) (h : pieces.foldlM (readChunk sys) g = .ok g') :
    g'.Holds (bytes ++ pieces.flatten) := by
  induction pieces generalizing g bytes with
  | nil =>
      cases h
      rwa [List.flatten_nil, List.append_nil]
  | cons piece pieces ih =>
      rw [List.foldlM_cons] at h
      cases hread : readChunk sys g piece with
      | error e =>
          rw [hread] at h
          cases h
      | ok g₁ =>
          rw [hread] at h
          rw [List.flatten_cons, ← List.append_assoc]
          exact ih (fun x hx => hne x (List.mem_cons_of_mem _ hx))
            (readChunk_holds hg (hne piece List.mem_cons_self) hread) h

/-- However a file comes in pieces, its buffer holds them all. -/
theorem readFile_holds {chunks : List Bytes} {g : Growing} (h : readFile sys chunks = .ok g) :
    g.Holds (chunks.takeWhile (· ≠ [])).flatten := by
  have hne : ∀ piece ∈ chunks.takeWhile (· ≠ []), piece ≠ [] := by
    intro piece hpiece
    exact of_decide_eq_true (List.mem_takeWhile_imp (p := fun x : Bytes => decide (x ≠ [])) hpiece)
  exact readChunks_holds hne ⟨rfl, iff_of_true rfl rfl, fun h => absurd rfl h⟩ h

/-- A configuration that was loaded is what its file tells, over the defaults. -/
theorem loadYaml_get {path : String} (h : loadYaml sys path = .ok b) :
    b.cfg.get = assignAll configDefaults.get (sys.told path) := by
  unfold loadYaml at h
  unfold Surroundings.told
  split at h
  · cases h
  · rename_i chunks hfile
    split at h
    · cases h
    · rename_i g hread
      obtain ⟨hbytes, hempty, -⟩ := readFile_holds hread
      rw [hbytes] at h
      cases hflat : (chunks.takeWhile (· ≠ [])).flatten with
      | nil =>
          rw [if_pos (hempty.mpr hflat)] at h
          cases h
          rfl
      | cons c buf =>
          rw [if_neg fun hzero => List.cons_ne_nil c buf (hflat.symm.trans (hempty.mp hzero)), hflat] at h
          unfold loadYamlBuf at h
          dsimp only at h
          split at h
          · cases h
          · split at h
            · cases h
            · exact loadFromCtx_get h

end

end ConfigYaml
