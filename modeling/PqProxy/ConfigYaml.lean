import PqProxy.Pool

/-! The configuration file. Its values arrive as texts, one for each key; numbers are read by
`strtol`, and texts are copied into the bundle that owns them. -/

namespace ConfigYaml

/-- `pqproxy_config_t`. -/
structure Config where
  listenHost : Text
  listenPort : Nat
  certFile : Option Text
  keyFile : Option Text
  caFile : Option Text
  plain : Bool
  requireMtls : Bool
  identitySlot : Int
  identityParamName : Option Text
  quiet : Bool
  msgZerocopy : Bool
  backendHost : Option Text
  backendPort : Nat
  backendUser : Option Text
  backendPassword : Option Text
  backendDatabase : Option Text
  backendUseGroupAsUser : Bool
  backendGroups : Option Text
  backendLazyGroup : Bool
  backendPoolSize : Nat
  preferTls12Ktls : Bool
  maintainIntervalMs : Int
  metricsLogIntervalMs : Int
  metricsHttpHost : Text
  metricsHttpPort : Nat
  fairSchedule : Bool
  rejectSimpleQuery : Bool
  logJson : Bool

/-- `pqproxy_config_defaults`. -/
def configDefaults : Config where
  listenHost := "0.0.0.0".toList
  listenPort := 6432
  certFile := none
  keyFile := none
  caFile := none
  plain := false
  requireMtls := true
  identitySlot := 0
  identityParamName := none
  quiet := false
  msgZerocopy := false
  backendHost := none
  backendPort := 5432
  backendUser := none
  backendPassword := none
  backendDatabase := none
  backendUseGroupAsUser := false
  backendGroups := none
  backendLazyGroup := true
  backendPoolSize := 4
  preferTls12Ktls := true
  maintainIntervalMs := 5000
  metricsLogIntervalMs := 30000
  metricsHttpHost := "127.0.0.1".toList
  metricsHttpPort := 9108
  fairSchedule := true
  rejectSimpleQuery := true
  logJson := false

/-- `pqproxy_config_bundle_t`: a configuration and the texts it owns. -/
structure Bundle where
  cfg : Config
  owned : List Text

def cfgOwnedMax : Nat := 32

/-- `pqproxy_config_bundle_init`. -/
def bundleInit : Bundle := ⟨configDefaults, []⟩

/-- `bundle_strdup` of the text `s`; `oom` says that there is no memory for it. -/
def bundleStrdup (oom : Bool) (b : Bundle) (s : Text) : Option Bundle :=
  if cfgOwnedMax ≤ b.owned.length ∨ oom = true then none
  else some { b with owned := b.owned ++ [s] }

/-! ### Values -/

/-- `parse_bool`. -/
def parseBool (s : Text) : Option Bool :=
  if s ∈ ["1".toList, "true".toList, "True".toList, "yes".toList, "on".toList] then some true
  else if s ∈ ["0".toList, "false".toList, "False".toList, "no".toList, "off".toList] then some false
  else none

/-- Whether a number has a minus sign, and what stands behind its sign. -/
def signed : Text → Bool × Text
  | '-' :: s => (true, s)
  | '+' :: s => (false, s)
  | s => (false, s)

/-- The number a text starts with, behind white space, and what follows it. -/
def leadingNumber (s : Text) : Option (Int × Text) :=
  let (minus, body) := signed (s.dropWhile fun c => c == ' ' || ('\t' ≤ c && c ≤ '\r'))
  let value : Int := digitsValue 0 body
  if body.takeWhile Char.isDigit = [] then none
  else some (if minus then -value else value, body.dropWhile Char.isDigit)

/-- What a `long` holds of a number. -/
def clampLong (v : Int) : Int := max (-9223372036854775808) (min v 9223372036854775807)

/-- `strtol` in base ten; nothing when no number was read. -/
def strtol (s : Text) : Option Int := (leadingNumber s).map fun r => clampLong r.1

/-- `parse_u16`. -/
def parseU16 (s : Text) : Option Nat :=
  match strtol s with
  | none => none
  | some v => if v < 0 ∨ 65535 < v then none else some v.toNat

/-- `parse_int`, with the conversion of the `long` to `int`. -/
def parseInt (s : Text) : Option Int :=
  match strtol s with
  | none => none
  | some v => some (v.bmod 4294967296)

/-- `parse_size`. -/
def parseSize (s : Text) : Option Nat :=
  match strtol s with
  | none => none
  | some v => if v < 0 then none else some v.toNat

/-- What stands before and behind the last colon of a text. -/
def hostPart (s : Text) : Text := ((s.reverse.dropWhile (· ≠ ':')).drop 1).reverse

def portPart (s : Text) : Text := (s.reverse.takeWhile (· ≠ ':')).reverse

/-- `set_hostport`: the host, and the port where the text has one. -/
def setHostport (oom : Bool) (b : Bundle) (s : Text) : Option (Bundle × Text × Option Nat) :=
  if ':' ∉ s ∨ hostPart s = [] then (bundleStrdup oom b s).map fun b => (b, s, none)
  else if 256 ≤ (hostPart s).length then none
  else
    -- the `int` that `atoi` returns, as `unsigned`
    let port := atoi (portPart s) % 4294967296
    if port = 0 ∨ 65535 < port then none
    else (bundleStrdup oom b (hostPart s)).map fun b => (b, hostPart s, some port.toNat)

/-- The settings, in the order in which `apply_scalar` compares their names. -/
inductive Setting where
  | listenHost | listenPort | listen
  | plain | requireMtls | cert | key | ca | ktlsPrefer
  | identitySlot | identityParam | msgZerocopy
  | backendHost | backendPort | backend | backendUser | backendPassword | backendDatabase
  | backendPoolSize | backendGroupLogin | backendGroups | backendLazyGroup
  | metricsLogMs | metricsHttpHost | metricsHttpPort | metricsHttp
  | maintainMs | quiet | fairSchedule | rejectSimpleQuery | allowSimpleQuery | logJson
  deriving DecidableEq

/-- The names of a setting. -/
def Setting.names : Setting → List String
  | .listenHost => ["listen.host", "listen_host"]
  | .listenPort => ["listen.port", "listen_port"]
  | .listen => ["listen"]
  | .plain => ["tls.plain", "plain"]
  | .requireMtls => ["tls.require_mtls", "require_mtls"]
  | .cert => ["tls.cert", "cert"]
  | .key => ["tls.key", "key"]
  | .ca => ["tls.ca", "ca"]
  | .ktlsPrefer => ["tls.ktls_prefer", "ktls_prefer"]
  | .identitySlot => ["identity.slot", "identity_slot"]
  | .identityParam => ["identity.param", "identity.param_name", "identity_param"]
  | .msgZerocopy => ["msg_zerocopy", "zerocopy"]
  | .backendHost => ["backend.host", "backend_host"]
  | .backendPort => ["backend.port", "backend_port"]
  | .backend => ["backend"]
  | .backendUser => ["backend.user", "backend_user"]
  | .backendPassword => ["backend.password", "backend_password"]
  | .backendDatabase => ["backend.database", "backend_database"]
  | .backendPoolSize => ["backend.pool_size", "backend_pool"]
  | .backendGroupLogin => ["backend.group_login", "backend_group_login"]
  | .backendGroups => ["backend.groups", "backend_groups"]
  | .backendLazyGroup => ["backend.lazy_group", "lazy_group"]
  | .metricsLogMs => ["metrics.log_ms", "metrics_ms"]
  | .metricsHttpHost => ["metrics.http_host"]
  | .metricsHttpPort => ["metrics.http_port"]
  | .metricsHttp => ["metrics.http", "metrics_http"]
  | .maintainMs => ["maintain_ms"]
  | .quiet => ["quiet"]
  | .fairSchedule => ["fair_schedule", "fair"]
  | .rejectSimpleQuery => ["reject_simple_query", "extended_only"]
  | .allowSimpleQuery => ["allow_simple_query"]
  | .logJson => ["log_json", "structured_log"]

def Setting.all : List Setting :=
  [.listenHost, .listenPort, .listen, .plain, .requireMtls, .cert, .key, .ca, .ktlsPrefer,
    .identitySlot, .identityParam, .msgZerocopy, .backendHost, .backendPort, .backend, .backendUser,
    .backendPassword, .backendDatabase, .backendPoolSize, .backendGroupLogin, .backendGroups,
    .backendLazyGroup, .metricsLogMs, .metricsHttpHost, .metricsHttpPort, .metricsHttp, .maintainMs,
    .quiet, .fairSchedule, .rejectSimpleQuery, .allowSimpleQuery, .logJson]

/-- The setting of a key. -/
def settingOf (key : String) : Option Setting := Setting.all.find? fun s => key ∈ s.names
/-- Every name leads to its setting. -/
theorem settingOf_name {s : Setting} {name : String} (h : name ∈ s.names) : settingOf name = some s := by
  have hall : ∀ s ∈ Setting.all, ∀ name ∈ s.names, settingOf name = some s := by decide +kernel
  exact hall s (by cases s <;> decide) name h

/-! ### `apply_scalar` -/

/-- A text that the bundle is to own. -/
def setText (oom : Bool) (b : Bundle) (val : Text) (f : Text → Config → Config) :
    Except String Bundle :=
  match bundleStrdup oom b val with
  | none => .error "oom"
  | some b => .ok { b with cfg := f val b.cfg }

/-- A value that was read, or the complaint that it could not be. -/
def setValue {α : Type} (b : Bundle) (value : Option α) (complaint : String)
    (f : α → Config → Config) : Except String Bundle :=
  match value with
  | none => .error complaint
  | some v => .ok { b with cfg := f v b.cfg }

def setBool (b : Bundle) (val : Text) (f : Bool → Config → Config) : Except String Bundle :=
  setValue b (parseBool val) "invalid bool" f

/-- A host and, where the text has one, a port. -/
def setAddress (oom : Bool) (b : Bundle) (val : Text) (host : Text → Config → Config)
    (port : Nat → Config → Config) : Except String Bundle :=
  match setHostport oom b val with
  | none => .error "invalid HOST:PORT"
  | some (b, h, none) => .ok { b with cfg := host h b.cfg }
  | some (b, h, some p) => .ok { b with cfg := port p (host h b.cfg) }

/-- The branch of `apply_scalar` for a setting. -/
def applySetting (oom : Bool) (b : Bundle) (val : Text) : Setting → Except String Bundle
  | .listenHost => setText oom b val fun t c => { c with listenHost := t }
  | .listenPort => setValue b ((parseU16 val).filter (· ≠ 0)) "invalid port" fun v c =>
      { c with listenPort := v }
  | .listen => setAddress oom b val (fun t c => { c with listenHost := t })
      fun v c => { c with listenPort := v }
  | .plain => setBool b val fun v c =>
      { c with plain := v, requireMtls := if v then false else c.requireMtls }
  | .requireMtls => setBool b val fun v c => { c with requireMtls := v }
  | .cert => setText oom b val fun t c => { c with certFile := some t }
  | .key => setText oom b val fun t c => { c with keyFile := some t }
  | .ca => setText oom b val fun t c => { c with caFile := some t }
  | .ktlsPrefer => setBool b val fun v c => { c with preferTls12Ktls := v }
  | .identitySlot =>
      setValue b ((parseInt val).filter fun v => -1 ≤ v ∧ v ≤ 32767) "invalid slot" fun v c =>
        { c with identitySlot := toInt16 v }
  | .identityParam => setText oom b val fun t c => { c with identityParamName := some t }
  | .msgZerocopy => setBool b val fun v c => { c with msgZerocopy := v }
  | .backendHost => setText oom b val fun t c => { c with backendHost := some t }
  | .backendPort => setValue b (parseU16 val) "invalid port" fun v c => { c with backendPort := v }
  | .backend => setAddress oom b val (fun t c => { c with backendHost := some t })
      fun v c => { c with backendPort := v }
  | .backendUser => setText oom b val fun t c => { c with backendUser := some t }
  | .backendPassword => setText oom b val fun t c => { c with backendPassword := some t }
  | .backendDatabase => setText oom b val fun t c => { c with backendDatabase := some t }
  | .backendPoolSize => setValue b (parseSize val) "invalid size" fun v c =>
      { c with backendPoolSize := v }
  | .backendGroupLogin => setBool b val fun v c => { c with backendUseGroupAsUser := v }
  | .backendGroups => setText oom b val fun t c => { c with backendGroups := some t }
  | .backendLazyGroup => setBool b val fun v c => { c with backendLazyGroup := v }
  | .metricsLogMs => setValue b ((parseInt val).filter (0 ≤ ·)) "invalid ms" fun v c =>
      { c with metricsLogIntervalMs := v }
  | .metricsHttpHost => setText oom b val fun t c => { c with metricsHttpHost := t }
  | .metricsHttpPort => setValue b (parseU16 val) "invalid port" fun v c =>
      { c with metricsHttpPort := v }
  | .metricsHttp =>
      if val ∈ ["off".toList, "false".toList, "0".toList] then
        .ok { b with cfg := { b.cfg with metricsHttpPort := 0 } }
      else setAddress oom b val (fun t c => { c with metricsHttpHost := t })
        fun v c => { c with metricsHttpPort := v }
  | .maintainMs => setValue b ((parseInt val).filter (0 ≤ ·)) "invalid ms" fun v c =>
      { c with maintainIntervalMs := v }
  | .quiet => setBool b val fun v c => { c with quiet := v }
  | .fairSchedule => setBool b val fun v c => { c with fairSchedule := v }
  | .rejectSimpleQuery => setBool b val fun v c => { c with rejectSimpleQuery := v }
  | .allowSimpleQuery => setBool b val fun v c => { c with rejectSimpleQuery := !v }
  | .logJson => setBool b val fun v c => { c with logJson := v }

/-- `apply_scalar`: the complaint names the key, and a key that is not known changes nothing. -/
def applyScalar (oom : Bool) (b : Bundle) (key : String) (val : Text) : Except String Bundle :=
  match settingOf key with
  | none => .ok b
  | some s =>
      match applySetting oom b val s with
      | .error complaint => .error (key ++ ": " ++ complaint)
      | .ok b => .ok b

def joinCap : Nat := 512

/-- The loop of `join_groups_sequence` over the items of the sequence; `buf` is what is written so
far. -/
def joinGroupsFrom (buf : Text) : List (Option Text) → Option Text
  | [] => some buf
  | none :: items | some [] :: items => joinGroupsFrom buf items
  | some val :: items =>
      if buf ≠ [] ∧ joinCap ≤ buf.length + 1 then none
      else
        let buf := if buf ≠ [] then buf ++ [','] else buf
        if joinCap ≤ buf.length + val.length then none else joinGroupsFrom (buf ++ val) items

/-- The C string at the start of a buffer. -/
def cText (buf : Text) : Text := buf.takeWhile (· ≠ '\x00')

/-- `join_groups_sequence`, with what the YAML library has for the items of the sequence. -/
def joinGroupsSequence (oom : Bool) (b : Bundle) (items : List (Option Text)) : Option Bundle :=
  if items = [] then some b
  else
    match joinGroupsFrom [] items with
    | none => none
    | some [] => some b
    | some buf => (bundleStrdup oom b (cText buf)).map fun b' =>
        { b' with cfg := { b'.cfg with backendGroups := some (cText buf) } }

end ConfigYaml
