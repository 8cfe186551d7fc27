import PqProxy.ConfigLoad

/-! The command line. A first pass over the arguments looks for the configuration file, which is loaded before
any other option; a second pass applies the options in order, over what the file told. -/

open ConfigYaml Assignments

/-- The options of `main`. -/
inductive Opt where
  | h | help | config | plain | noMtls | quiet | fair | noFair | rejectSimpleQuery | allowSimpleQuery | logJson
  | listen | cert | key | ca | identitySlot | identityParam | msgZerocopy
  | backend | backendUser | backendPassword | backendDatabase | backendPool | backendGroupLogin | backendGroups
  | noLazyGroup | ktlsPrefer | noKtlsPrefer | maintainMs | metricsMs
  | noMetricsHttp | metricsHttpPort | metricsHttp
  deriving DecidableEq

def Opt.name : Opt → String
  | .h => "-h"
  | .help => "--help"
  | .config => "--config"
  | .plain => "--plain"
  | .noMtls => "--no-mtls"
  | .quiet => "--quiet"
  | .fair => "--fair"
  | .noFair => "--no-fair"
  | .rejectSimpleQuery => "--reject-simple-query"
  | .allowSimpleQuery => "--allow-simple-query"
  | .logJson => "--log-json"
  | .listen => "--listen"
  | .cert => "--cert"
  | .key => "--key"
  | .ca => "--ca"
  | .identitySlot => "--identity-slot"
  | .identityParam => "--identity-param"
  | .msgZerocopy => "--msg-zerocopy"
  | .backend => "--backend"
  | .backendUser => "--backend-user"
  | .backendPassword => "--backend-password"
  | .backendDatabase => "--backend-database"
  | .backendPool => "--backend-pool"
  | .backendGroupLogin => "--backend-group-login"
  | .backendGroups => "--backend-groups"
  | .noLazyGroup => "--no-lazy-group"
  | .ktlsPrefer => "--ktls-prefer"
  | .noKtlsPrefer => "--no-ktls-prefer"
  | .maintainMs => "--maintain-ms"
  | .metricsMs => "--metrics-ms"
  | .noMetricsHttp => "--no-metrics-http"
  | .metricsHttpPort => "--metrics-http-port"
  | .metricsHttp => "--metrics-http"

def Opt.all : List Opt :=
  [.h, .help, .config, .plain, .noMtls, .quiet, .fair, .noFair, .rejectSimpleQuery, .allowSimpleQuery, .logJson,
    .listen, .cert, .key, .ca, .identitySlot, .identityParam, .msgZerocopy, .backend, .backendUser,
    .backendPassword, .backendDatabase, .backendPool, .backendGroupLogin, .backendGroups, .noLazyGroup,
    .ktlsPrefer, .noKtlsPrefer, .maintainMs, .metricsMs, .noMetricsHttp, .metricsHttpPort, .metricsHttp]

/-- The option an argument names. -/
def optOf (arg : String) : Option Opt := Opt.all.find? fun o => o.name = arg

/-- Whether an option takes the argument behind it. -/
def Opt.takesValue : Opt → Bool
  | .config | .listen | .cert | .key | .ca | .identitySlot | .identityParam => true
  | .backend | .backendUser | .backendPassword | .backendDatabase | .backendPool | .backendGroups => true
  | .maintainMs | .metricsMs | .metricsHttpPort | .metricsHttp => true
  | _ => false

/-- Why the program exits before it serves anyone. -/
inductive Complaint where
  | usage
  | config (message : String)
  | invalidListen
  | invalidMetricsHttpPort
  | unknownArgument (arg : String)
  | noCertificate
  | noCa

/-- An exit with its code. -/
structure Exit where
  code : Nat
  said : Complaint

/-- `parse_listen`. -/
def parseListen (oom : Bool) (b : Bundle) (s : Text) : Option Bundle :=
  if ':' ∉ s ∨ hostPart s = [] then none
  else if 256 ≤ (hostPart s).length then none
  else
    let port := atoi (portPart s) % 4294967296
    if port = 0 ∨ 65535 < port then none
    else if oom then none
    else some {
      cfg := { b.cfg with listenHost := hostPart s, listenPort := port.toNat },
      owned := if b.owned.length < cfgOwnedMax then b.owned ++ [hostPart s] else b.owned }

/-- Whether a text starts with a digit. -/
def startsWithDigit (s : Text) : Bool :=
  match s with
  | [] => false
  | c :: _ => c.isDigit

section

variable (sys : Surroundings)

/-- One turn of the loop of `main` over an option with its value. -/
def applyOption (b : Bundle) (v : Text) : Opt → Except Exit Bundle
  | .h | .help => .error ⟨0, .usage⟩
  | .config => .ok b
  | .plain => .ok { b with cfg := { b.cfg with plain := true, requireMtls := false } }
  | .noMtls => .ok { b with cfg := { b.cfg with requireMtls := false } }
  | .quiet => .ok { b with cfg := { b.cfg with quiet := true } }
  | .fair => .ok { b with cfg := { b.cfg with fairSchedule := true } }
  | .noFair => .ok { b with cfg := { b.cfg with fairSchedule := false } }
  | .rejectSimpleQuery => .ok { b with cfg := { b.cfg with rejectSimpleQuery := true } }
  | .allowSimpleQuery => .ok { b with cfg := { b.cfg with rejectSimpleQuery := false } }
  | .logJson => .ok { b with cfg := { b.cfg with logJson := true } }
  | .listen =>
      match parseListen (sys.oom "--listen") b v with
      | none => .error ⟨2, .invalidListen⟩
      | some b => .ok b
  | .cert => .ok { b with cfg := { b.cfg with certFile := some v } }
  | .key => .ok { b with cfg := { b.cfg with keyFile := some v } }
  | .ca => .ok { b with cfg := { b.cfg with caFile := some v } }
  | .identitySlot => .ok { b with cfg := { b.cfg with identitySlot := toInt16 (atoi v) } }
  | .identityParam => .ok { b with cfg := { b.cfg with identityParamName := some v } }
  | .msgZerocopy => .ok { b with cfg := { b.cfg with msgZerocopy := true } }
  | .backend =>
      if ':' ∈ v then .ok { b with cfg := { b.cfg with
        backendHost := some (hostPart v), backendPort := (atoi (portPart v) % 65536).toNat } }
      else .ok { b with cfg := { b.cfg with backendHost := some v, backendPort := 5432 } }
  | .backendUser => .ok { b with cfg := { b.cfg with backendUser := some v } }
  | .backendPassword => .ok { b with cfg := { b.cfg with backendPassword := some v } }
  | .backendDatabase => .ok { b with cfg := { b.cfg with backendDatabase := some v } }
  | .backendPool => .ok { b with cfg := { b.cfg with backendPoolSize := (atoi v % 2 ^ 64).toNat } }
  | .backendGroupLogin => .ok { b with cfg := { b.cfg with backendUseGroupAsUser := true } }
  | .backendGroups => .ok { b with cfg := { b.cfg with backendGroups := some v } }
  | .noLazyGroup => .ok { b with cfg := { b.cfg with backendLazyGroup := false } }
  | .ktlsPrefer => .ok { b with cfg := { b.cfg with preferTls12Ktls := true } }
  | .noKtlsPrefer => .ok { b with cfg := { b.cfg with preferTls12Ktls := false } }
  | .maintainMs => .ok { b with cfg := { b.cfg with maintainIntervalMs := atoi v } }
  | .metricsMs => .ok { b with cfg := { b.cfg with metricsLogIntervalMs := atoi v } }
  | .noMetricsHttp => .ok { b with cfg := { b.cfg with metricsHttpPort := 0 } }
  | .metricsHttpPort =>
      if atoi v < 0 ∨ 65535 < atoi v then .error ⟨2, .invalidMetricsHttpPort⟩
      else .ok { b with cfg := { b.cfg with metricsHttpPort := (atoi v).toNat } }
  | .metricsHttp =>
      if ':' ∈ v ∧ hostPart v ≠ [] then .ok { b with cfg := { b.cfg with
        metricsHttpHost := hostPart v, metricsHttpPort := (atoi (portPart v) % 65536).toNat } }
      else if 0 < atoi v ∧ atoi v ≤ 65535 ∧ startsWithDigit v then
        .ok { b with cfg := { b.cfg with metricsHttpPort := (atoi v).toNat } }
      else .ok { b with cfg := { b.cfg with metricsHttpHost := v } }

/-- The second pass over the arguments. An option that lacks its value is not known. -/
def parseArgs : List String → Bundle → Except Exit Bundle
  | [], b => .ok b
  | arg :: args, b =>
      match optOf arg with
      | none => .error ⟨2, .unknownArgument arg⟩
      | some o =>
          if o.takesValue then
            match args with
            | [] => .error ⟨2, .unknownArgument arg⟩
            | v :: args =>
                match applyOption sys b v.toList o with
                | .error e => .error e
                | .ok b => parseArgs args b
          else
            match applyOption sys b [] o with
            | .error e => .error e
            | .ok b => parseArgs args b

/-- The first pass over the arguments; `found` is the path that was found so far. -/
def configPath (found : Option String) : List String → Option String
  | [] => found
  | [_] => found
  | arg :: v :: args =>
      if arg = "--config" then configPath (some v) args else configPath found (v :: args)

/-- `main` behind its first pass. -/
def serveWith (b : Bundle) (args : List String) : Except Exit ConfigYaml.Config :=
  match parseArgs sys args b with
  | .error e => .error e
  | .ok b =>
      if b.cfg.plain = false ∧ (b.cfg.certFile = none ∨ b.cfg.keyFile = none) then
        .error ⟨2, .noCertificate⟩
      else if b.cfg.plain = false ∧ b.cfg.requireMtls = true ∧ b.cfg.caFile = none then .error ⟨2, .noCa⟩
      else .ok b.cfg

/-- `main` with its arguments: the configuration that `pqproxy_run` gets, or an exit before. -/
def runMain (args : List String) : Except Exit ConfigYaml.Config :=
  match configPath none args with
  | none => serveWith sys bundleInit args
  | some path =>
      match loadYaml sys path with
      | .error message => .error ⟨2, .config message⟩
      | .ok b => serveWith sys b args

end

/-! ### What the arguments tell -/

/-- What an option with its value assigns. -/
def Opt.told (v : Text) : Opt → List Assignment
  | .h | .help | .config => []
  | .plain => [⟨.plain, true⟩, ⟨.requireMtls, false⟩]
  | .noMtls => [⟨.requireMtls, false⟩]
  | .quiet => [⟨.quiet, true⟩]
  | .fair => [⟨.fairSchedule, true⟩]
  | .noFair => [⟨.fairSchedule, false⟩]
  | .rejectSimpleQuery => [⟨.rejectSimpleQuery, true⟩]
  | .allowSimpleQuery => [⟨.rejectSimpleQuery, false⟩]
  | .logJson => [⟨.logJson, true⟩]
  | .listen => [⟨.listenHost, hostPart v⟩, ⟨.listenPort, (atoi (portPart v) % 4294967296).toNat⟩]
  | .cert => [⟨.certFile, some v⟩]
  | .key => [⟨.keyFile, some v⟩]
  | .ca => [⟨.caFile, some v⟩]
  | .identitySlot => [⟨.identitySlot, toInt16 (atoi v)⟩]
  | .identityParam => [⟨.identityParamName, some v⟩]
  | .msgZerocopy => [⟨.msgZerocopy, true⟩]
  | .backend =>
      if ':' ∈ v then [⟨.backendHost, some (hostPart v)⟩, ⟨.backendPort, (atoi (portPart v) % 65536).toNat⟩]
      else [⟨.backendHost, some v⟩, ⟨.backendPort, (5432 : Nat)⟩]
  | .backendUser => [⟨.backendUser, some v⟩]
  | .backendPassword => [⟨.backendPassword, some v⟩]
  | .backendDatabase => [⟨.backendDatabase, some v⟩]
  | .backendPool => [⟨.backendPoolSize, (atoi v % 2 ^ 64).toNat⟩]
  | .backendGroupLogin => [⟨.backendUseGroupAsUser, true⟩]
  | .backendGroups => [⟨.backendGroups, some v⟩]
  | .noLazyGroup => [⟨.backendLazyGroup, false⟩]
  | .ktlsPrefer => [⟨.preferTls12Ktls, true⟩]
  | .noKtlsPrefer => [⟨.preferTls12Ktls, false⟩]
  | .maintainMs => [⟨.maintainIntervalMs, atoi v⟩]
  | .metricsMs => [⟨.metricsLogIntervalMs, atoi v⟩]
  | .noMetricsHttp => [⟨.metricsHttpPort, (0 : Nat)⟩]
  | .metricsHttpPort => [⟨.metricsHttpPort, (atoi v).toNat⟩]
  | .metricsHttp =>
      if ':' ∈ v ∧ hostPart v ≠ [] then
        [⟨.metricsHttpHost, hostPart v⟩, ⟨.metricsHttpPort, (atoi (portPart v) % 65536).toNat⟩]
      else if 0 < atoi v ∧ atoi v ≤ 65535 ∧ startsWithDigit v then [⟨.metricsHttpPort, (atoi v).toNat⟩]
      else [⟨.metricsHttpHost, v⟩]

/-- The options of a command line with their values. -/
def words : List String → Option (List (Opt × String))
  | [] => some []
  | arg :: args =>
      match optOf arg with
      | none => none
      | some o =>
          if o.takesValue then
            match args with
            | [] => none
            | v :: args => (words args).map ((o, v) :: ·)
          else (words args).map ((o, "") :: ·)

/-- What the options of a command line assign, in order. -/
def toldBy (ws : List (Opt × String)) : List Assignment := ws.flatMap fun x => x.1.told x.2.toList

def toldByOptions (args : List String) : List Assignment := ((words args).map toldBy).getD []

/-- What the configuration file of a command line assigns. -/
def toldByFile (sys : Surroundings) (args : List String) : List Assignment :=
  ((configPath none args).map sys.told).getD []

section

variable {sys : Surroundings} {b b' : Bundle}

theorem foldl_set_get (c : ConfigYaml.Config) (as : List Assignment) :
    (as.foldl Config.set c).get = assignAll c.get as := by
  induction as generalizing c with
  | nil => rfl
  | cons a as ih =>
      rw [List.foldl_cons, ih, Config.get_set]
      rfl

theorem parseListen_cfg {oom : Bool} {v : Text} (h : parseListen oom b v = some b') :
    b'.cfg = { b.cfg with listenHost := hostPart v, listenPort := (atoi (portPart v) % 4294967296).toNat } := by
  unfold parseListen at h
  split at h
  · cases h
  · split at h
    · cases h
    · dsimp only at h
      split at h
      · cases h
      · split at h
        · cases h
        · cases h
          rfl

/-- An option assigns what it is told. -/
theorem applyOption_get {o : Opt} {v : Text} (h : applyOption sys b v o = .ok b') :
    b'.cfg.get = assignAll b.cfg.get (o.told v) := by
  rw [← foldl_set_get]
  refine congrArg Config.get ?_
  unfold applyOption at h
  unfold Opt.told
  cases o <;> dsimp only at h ⊢
  case h | help => cases h
  case listen =>
    split at h
    · cases h
    · rename_i hlisten
      cases h
      exact parseListen_cfg hlisten
  case backend =>
    split at h
    · rename_i hcolon
      cases h
      rw [if_pos hcolon]
      rfl
    · rename_i hcolon
      cases h
      rw [if_neg hcolon]
      rfl
  case metricsHttpPort =>
    split at h
    · cases h
    · cases h
      rfl
  case metricsHttp =>
    split at h
    · rename_i hcolon
      cases h
      rw [if_pos hcolon]
      rfl
    · rename_i hcolon
      rw [if_neg hcolon]
      split at h
      · rename_i hport
        cases h
        rw [if_pos hport]
        rfl
      · rename_i hport
        cases h
        rw [if_neg hport]
        rfl
  all_goals
    cases h
    rfl

theorem words_value {arg : String} {o : Opt} (hopt : optOf arg = some o) (hvalue : o.takesValue = true)
    (v : String) (args : List String) : words (arg :: v :: args) = (words args).map ((o, v) :: ·) := by
  rw [words, hopt]
  exact if_pos hvalue

theorem words_flag {arg : String} {o : Opt} (hopt : optOf arg = some o) (hvalue : ¬ o.takesValue = true)
    (args : List String) : words (arg :: args) = (words args).map ((o, "") :: ·) := by
  rw [words, hopt]
  exact if_neg hvalue

/-- The second pass takes an option with its value, and goes on. -/
theorem parseArgs_value {arg : String} {o : Opt} (hopt : optOf arg = some o) (hvalue : o.takesValue = true)
    (v : String) (args : List String) :
    parseArgs sys (arg :: v :: args) b = (applyOption sys b v.toList o).bind (parseArgs sys args) := by
  have hstep : parseArgs sys (arg :: v :: args) b =
      match applyOption sys b v.toList o with
      | .error e => .error e
      | .ok b => parseArgs sys args b := by
    rw [parseArgs, hopt]
    exact if_pos hvalue
  rw [hstep]
  cases applyOption sys b v.toList o <;> rfl

theorem parseArgs_flag {arg : String} {o : Opt} (hopt : optOf arg = some o) (hvalue : ¬ o.takesValue = true)
    (args : List String) :
    parseArgs sys (arg :: args) b = (applyOption sys b [] o).bind (parseArgs sys args) := by
  have hstep : parseArgs sys (arg :: args) b =
      match applyOption sys b [] o with
      | .error e => .error e
      | .ok b => parseArgs sys args b := by
    rw [parseArgs, hopt]
    exact if_neg hvalue
  rw [hstep]
  cases applyOption sys b [] o <;> rfl

/-- What one option assigns, and then the options behind it. -/
theorem bind_parseArgs_get {o : Opt} (v : String) {args : List String}
    (ih : ∀ {b : Bundle}, parseArgs sys args b = .ok b' →
      ∃ ws, words args = some ws ∧ b'.cfg.get = assignAll b.cfg.get (toldBy ws))
    (h : (applyOption sys b v.toList o).bind (parseArgs sys args) = .ok b') :
    ∃ ws, words args = some ws ∧ b'.cfg.get = assignAll b.cfg.get (toldBy ((o, v) :: ws)) := by
  cases happly : applyOption sys b v.toList o with
  | error e =>
      rw [happly] at h
      cases h
  | ok b₁ =>
      rw [happly] at h
      obtain ⟨ws, hws, hget⟩ := ih h
      refine ⟨ws, hws, ?_⟩
      calc
        b'.cfg.get = assignAll b₁.cfg.get (toldBy ws) := hget
        _ = assignAll (assignAll b.cfg.get (o.told v.toList)) (toldBy ws) := by rw [applyOption_get happly]
        _ = assignAll b.cfg.get (toldBy ((o, v) :: ws)) := (assignAll_append ..).symm

theorem parseArgs_get {args : List String} (h : parseArgs sys args b = .ok b') :
    ∃ ws, words args = some ws ∧ b'.cfg.get = assignAll b.cfg.get (toldBy ws) := by
  induction args using words.induct generalizing b with
  | case1 =>
      cases h
      exact ⟨[], rfl, rfl⟩
  | case2 arg args hopt =>
      rw [parseArgs, hopt] at h
      cases h
  | case3 arg o hopt hvalue =>
      rw [parseArgs, hopt] at h
      cases (if_pos hvalue).symm.trans h
  | case4 arg o hopt hvalue v args ih =>
      rw [parseArgs_value hopt hvalue] at h
      obtain ⟨ws, hws, hget⟩ := bind_parseArgs_get v ih h
      refine ⟨(o, v) :: ws, ?_, hget⟩
      rw [words_value hopt hvalue, hws]
      rfl
  | case5 arg args o hopt hvalue ih =>
      rw [parseArgs_flag hopt hvalue] at h
      obtain ⟨ws, hws, hget⟩ := bind_parseArgs_get "" ih h
      refine ⟨(o, "") :: ws, ?_, hget⟩
      rw [words_flag hopt hvalue, hws]
      rfl

/-- A configuration that is good enough to start with. -/
def Startable (cfg : ConfigYaml.Config) : Prop :=
  cfg.plain = true ∨
    cfg.certFile.isSome ∧ cfg.keyFile.isSome ∧ (cfg.requireMtls = true → cfg.caFile.isSome)

theorem serveWith_get {args : List String} {cfg : ConfigYaml.Config} (h : serveWith sys b args = .ok cfg) :
    cfg.get = assignAll b.cfg.get (toldByOptions args) ∧ Startable cfg := by
  unfold serveWith at h
  split at h
  · cases h
  · rename_i b₁ hparse
    obtain ⟨ws, hws, hget⟩ := parseArgs_get hparse
    have htold : toldByOptions args = toldBy ws := by
      unfold toldByOptions
      rw [hws]
      rfl
    split at h
    · cases h
    · rename_i hcert
      split at h
      · cases h
      · rename_i hca
        cases h
        refine ⟨hget.trans (congrArg _ htold.symm), ?_⟩
        unfold Startable
        cases hplain : b₁.cfg.plain with
        | true => exact Or.inl rfl
        | false =>
            refine Or.inr ⟨?_, ?_, fun hmtls => ?_⟩
            · exact Option.isSome_iff_ne_none.mpr fun hnone => hcert ⟨hplain, Or.inl hnone⟩
            · exact Option.isSome_iff_ne_none.mpr fun hnone => hcert ⟨hplain, Or.inr hnone⟩
            · exact Option.isSome_iff_ne_none.mpr fun hnone => hca ⟨hplain, hmtls, hnone⟩

theorem runMain_get {args : List String} {cfg : ConfigYaml.Config} (h : runMain sys args = .ok cfg) :
    cfg.get = assignAll configDefaults.get (toldByFile sys args ++ toldByOptions args) ∧ Startable cfg := by
  rw [assignAll_append]
  unfold runMain at h
  unfold toldByFile
  split at h
  · rename_i hpath
    rw [hpath]
    exact serveWith_get h
  · rename_i path hpath
    rw [hpath]
    split at h
    · cases h
    · rename_i b₁ hload
      obtain ⟨hget, hstart⟩ := serveWith_get h
      exact ⟨hget.trans (congrArg (assignAll · _) (loadYaml_get hload)), hstart⟩

/-- Whatever the arguments and the file are that the program starts with: every member of its configuration is
what the last option says that concerns it, else what the last path of the file says, else the default. And
it is enough to start with. -/
theorem config_decided {args : List String} {cfg : ConfigYaml.Config} (h : runMain sys args = .ok cfg) :
    (∀ f, cfg.get f = ((decided (toldByOptions args) f).or (decided (toldByFile sys args) f)).getD
      (configDefaults.get f)) ∧ Startable cfg := by
  obtain ⟨hget, hstart⟩ := runMain_get h
  refine ⟨fun f => ?_, hstart⟩
  rw [hget, assignAll_apply, decided_append]

end

/-- A tree that names the parameter of the identity and the backend's user. -/
def twoScalars : Yaml where
  created := true
  fed := 1
  events := [.other]
  scalar := fun p =>
    if p = "identity.param" then some ['a'] else if p = "backend.user" then some ['u'] else none
  groups := []

/-- One file, which is read in two pieces. -/
def oneFile (y : Yaml) : Surroundings where
  file := fun path => if path = "f" then some [[1], [2]] else none
  realloc := fun _ => true
  oom := fun _ => false
  yaml := fun _ => y

/-- The option wins over the file, and where there is no option the file counts. -/
theorem config_decided_file :
    let sys := oneFile twoScalars
    let args := ["--plain", "--config", "f", "--identity-param", "b"]
    ∃ cfg, runMain sys args = .ok cfg ∧ (∀ f, cfg.get f = ((decided (toldByOptions args) f).or
      (decided (toldByFile sys args) f)).getD (configDefaults.get f)) ∧
      cfg.plain = true ∧ cfg.identityParamName = some "b".toList ∧ cfg.backendUser = some ['u'] :=
  ⟨_, rfl, (config_decided rfl).1, rfl, rfl, rfl⟩

/-! ### The place of the file among the options -/

/-- The arguments of an option. -/
def argsOf (x : Opt × String) : List String := if x.1.takesValue then [x.1.name, x.2] else [x.1.name]

theorem optOf_name (o : Opt) : optOf o.name = some o := by
  have hall : ∀ o ∈ Opt.all, optOf o.name = some o := by decide +kernel
  exact hall o (by cases o <;> decide)

theorem name_of_optOf {arg : String} {o : Opt} (h : optOf arg = some o) : o.name = arg :=
  of_decide_eq_true (List.find?_some (p := fun o : Opt => decide (o.name = arg)) h)

/-- The options of a command line are its arguments. -/
theorem argsOf_words {args : List String} {ws : List (Opt × String)} (h : words args = some ws) :
    ws.flatMap argsOf = args := by
  induction args using words.induct generalizing ws with
  | case1 =>
      cases h
      rfl
  | case2 arg args hopt =>
      rw [words, hopt] at h
      cases h
  | case3 arg o hopt hvalue =>
      rw [words, hopt] at h
      cases (if_pos hvalue).symm.trans h
  | case4 arg o hopt hvalue v args ih =>
      rw [words_value hopt hvalue] at h
      obtain ⟨rest, hrest, rfl⟩ := Option.map_eq_some_iff.mp h
      rw [List.flatMap_cons, ih hrest, argsOf, if_pos hvalue, name_of_optOf hopt]
      rfl
  | case5 arg args o hopt hvalue ih =>
      rw [words_flag hopt hvalue] at h
      obtain ⟨rest, hrest, rfl⟩ := Option.map_eq_some_iff.mp h
      rw [List.flatMap_cons, ih hrest, argsOf, if_neg hvalue, name_of_optOf hopt]
      rfl

/-- No option but the one for the file has its name as its value, which the first pass would take for it. -/
def Clear (ws : List (Opt × String)) : Prop :=
  ∀ x ∈ ws, x.1 ≠ .config → x.1.takesValue = true → x.2 ≠ Opt.config.name

/-- Where it is the value of another option, the first pass takes what follows for a file. -/
example : configPath none ["--cert", "--config", "--key", "k"] = some "--key" := by decide

/-- The file that the options ask for. -/
def fileOf (found : Option String) (ws : List (Opt × String)) : Option String :=
  ws.foldl (fun found x => if x.1 = .config then some x.2 else found) found

theorem configPath_skip {arg : String} (harg : arg ≠ Opt.config.name) (found : Option String)
    (args : List String) : configPath found (arg :: args) = configPath found args := by
  cases args with
  | nil => rfl
  | cons v args => exact if_neg harg

/-- The first pass finds the last of the files. -/
theorem configPath_argsOf {ws : List (Opt × String)} (hclear : Clear ws) (found : Option String) :
    configPath found (ws.flatMap argsOf) = fileOf found ws := by
  induction ws generalizing found with
  | nil => rfl
  | cons x ws ih =>
      obtain ⟨o, v⟩ := x
      have hrest := ih fun y hy => hclear y (List.mem_cons_of_mem _ hy)
      unfold fileOf at hrest ⊢
      rw [List.flatMap_cons, List.foldl_cons]
      by_cases hconfig : o = .config
      · subst hconfig
        exact hrest (some v)
      · have hname : o.name ≠ Opt.config.name := fun hsame =>
          hconfig (Option.some.inj ((optOf_name o).symm.trans (hsame ▸ optOf_name .config)))
        rw [if_neg hconfig, ← hrest found]
        unfold argsOf
        split
        · rename_i hvalue
          exact (configPath_skip hname found _).trans
            (configPath_skip (hclear (o, v) List.mem_cons_self hconfig hvalue) found _)
        · exact configPath_skip hname found _

/-- The second pass takes an option, and leaves the rest. -/
theorem parseArgs_argsOf (sys : Surroundings) (x : Opt × String) (args : List String) (b : Bundle) :
    parseArgs sys (argsOf x ++ args) b =
      (applyOption sys b (if x.1.takesValue then x.2.toList else []) x.1).bind (parseArgs sys args) := by
  unfold argsOf
  split
  · rename_i hvalue
    exact parseArgs_value (optOf_name x.1) hvalue x.2 args
  · rename_i hvalue
    exact parseArgs_flag (optOf_name x.1) hvalue args

/-- Options for the file do nothing in the second pass. -/
theorem parseArgs_filter (sys : Surroundings) (ws : List (Opt × String)) (args : List String) (b : Bundle) :
    parseArgs sys (ws.flatMap argsOf ++ args) b =
      parseArgs sys ((ws.filter fun x => x.1 ≠ .config).flatMap argsOf ++ args) b := by
  induction ws generalizing b with
  | nil => rfl
  | cons x ws ih =>
      rw [List.flatMap_cons, List.append_assoc, parseArgs_argsOf]
      by_cases hconfig : x.1 = .config
      · have hout : (x :: ws).filter (fun x => x.1 ≠ .config) = ws.filter fun x => x.1 ≠ .config :=
          List.filter_cons_of_neg (by simpa using hconfig)
        rw [hout, ← ih b, hconfig]
        rfl
      · have hin : (x :: ws).filter (fun x => x.1 ≠ .config) = x :: ws.filter fun x => x.1 ≠ .config :=
          List.filter_cons_of_pos (by simpa using hconfig)
        rw [hin, List.flatMap_cons, List.append_assoc, parseArgs_argsOf]
        exact congrArg _ (funext ih)

/-- The options for the file first, the others behind them. -/
def fileFirst (ws : List (Opt × String)) : List (Opt × String) :=
  (ws.filter fun x => x.1 = .config) ++ ws.filter fun x => x.1 ≠ .config

/-- Other options ask for no file. -/
theorem fileOf_others {ws : List (Opt × String)} (h : ∀ x ∈ ws, x.1 ≠ .config) (found : Option String) :
    fileOf found ws = found := by
  unfold fileOf
  induction ws with
  | nil => rfl
  | cons x ws ih =>
      rw [List.foldl_cons, if_neg (h x List.mem_cons_self)]
      exact ih fun y hy => h y (List.mem_cons_of_mem _ hy)

theorem fileOf_files (found : Option String) (ws : List (Opt × String)) :
    fileOf found (ws.filter fun x => x.1 = .config) = fileOf found ws := by
  unfold fileOf
  induction ws generalizing found with
  | nil => rfl
  | cons x ws ih =>
      rw [List.filter_cons, List.foldl_cons]
      split
      · exact ih _
      · rename_i hconfig
        rw [if_neg (by simpa using hconfig)]
        exact ih _

theorem fileOf_fileFirst (found : Option String) (ws : List (Opt × String)) :
    fileOf found (fileFirst ws) = fileOf found ws := by
  calc
    fileOf found (fileFirst ws) =
        fileOf (fileOf found (ws.filter fun x => x.1 = .config)) (ws.filter fun x => x.1 ≠ .config) :=
      List.foldl_append
    _ = fileOf found (ws.filter fun x => x.1 = .config) :=
      fileOf_others (fun x hx => of_decide_eq_true (List.mem_filter.mp hx).2) _
    _ = fileOf found ws := fileOf_files found ws

/-- The place of the file among the options makes no difference, as long as no other option has its name as a
value: the program exits with the same complaint, or starts with the same configuration. -/
theorem file_anywhere (sys : Surroundings) {args : List String} {ws : List (Opt × String)}
    (hwords : words args = some ws) (hclear : Clear ws) :
    runMain sys args = runMain sys ((fileFirst ws).flatMap argsOf) := by
  have hclear' : Clear (fileFirst ws) := by
    intro x hx
    refine hclear x ?_
    rcases List.mem_append.mp hx with hx | hx
    · exact (List.mem_filter.mp hx).1
    · exact (List.mem_filter.mp hx).1
  have hpath : configPath none args = configPath none ((fileFirst ws).flatMap argsOf) := by
    rw [← argsOf_words hwords, configPath_argsOf hclear, configPath_argsOf hclear', fileOf_fileFirst]
  have hserve : ∀ b, serveWith sys b args = serveWith sys b ((fileFirst ws).flatMap argsOf) := by
    intro b
    have hparse := parseArgs_filter sys ws [] b
    have hparse' := parseArgs_filter sys (fileFirst ws) [] b
    have hsame : (fileFirst ws).filter (fun x => x.1 ≠ .config) = ws.filter fun x => x.1 ≠ .config := by
      unfold fileFirst
      rw [List.filter_append, List.filter_filter, List.filter_filter]
      simp
    rw [List.append_nil, List.append_nil] at hparse hparse'
    rw [hsame] at hparse'
    unfold serveWith
    rw [← argsOf_words hwords, hparse, hparse']
  unfold runMain
  rw [← hpath]
  split
  · exact hserve bundleInit
  · split
    · rfl
    · exact hserve _

/-- The file may stand between two options. -/
theorem file_anywhere_between :
    let sys := oneFile twoScalars
    runMain sys ["--plain", "--config", "f", "--fair"] = runMain sys ["--config", "f", "--plain", "--fair"] :=
  @file_anywhere (oneFile twoScalars) ["--plain", "--config", "f", "--fair"]
    [(.plain, ""), (.config, "f"), (.fair, "")] rfl (by unfold Clear; decide)
