import PqProxy.Wire
import Mathlib

/-! The statement cache of a frontend, the search for the identity column in a query, and the two
handlers built on them: a Parse is answered locally, a Bind becomes an unnamed pipeline on a backend
with one parameter replaced by the verified identity. -/

/-- `pqproxy_identity_t`. -/
structure Identity where
  routerId : Text
  group : Text
  identitySlot : Int
  deriving DecidableEq

/-- `pqproxy_identity_clear`. -/
def identityClear : Identity := ⟨[], [], -1⟩

/-- Conversion to `int16_t`. -/
def toInt16 (v : Int) : Int := v.bmod 65536

def maxCachedStmts : Nat := 64

/-- `pqproxy_stmt_slot_t`. -/
structure StmtSlot where
  stmt : PreparedStmt
  inUse : Bool

/-- `pqproxy_stmt_cache_t`. -/
structure StmtCache where
  slots : Nat → StmtSlot
  count : Nat

/-- `pqproxy_stmt_cache_init`. -/
def stmtCacheInit : StmtCache where
  slots := fun _ => ⟨⟨[], [], [], 0⟩, false⟩
  count := 0

/-- FNV-1a, 32 bits. -/
def stmtNameHash (name : Text) : UInt32 :=
  name.foldl (fun h c => (h ^^^ UInt32.ofNat (c.toNat % 256)) * 16777619) 2166136261

/-- Where the probing for a name ends. -/
inductive Probe where
  | found (i : Nat)
  | free (i : Nat)
  | exhausted

/-- Probe `n` slots from the `probes`-th one on; the first slot not in use ends the search. -/
def probeFrom (cache : StmtCache) (name : Text) : Nat → Nat → Probe
  | 0, _ => .exhausted
  | n + 1, probes =>
      let i := ((stmtNameHash name).toNat + probes) % maxCachedStmts
      if (cache.slots i).inUse = false then .free i
      else if (cache.slots i).stmt.name = name then .found i
      else probeFrom cache name n (probes + 1)

def probe (cache : StmtCache) (name : Text) : Probe := probeFrom cache name maxCachedStmts 0

/-- Store `stmt` with its identity slot in slot `i`. -/
def StmtCache.setSlot (cache : StmtCache) (i : Nat) (stmt : PreparedStmt) (identitySlot : Int) :
    StmtCache :=
  { cache with
    slots := Function.update cache.slots i ⟨{ stmt with identityParamSlot := identitySlot }, true⟩ }

/-- `pqproxy_stmt_cache_put`. -/
def stmtCachePut (w : Pqwire) (cache : StmtCache) (parse : PqParse) (identitySlot : Int) :
    StmtCache × Bool :=
  match probe cache parse.statement with
  | .found i =>
      match w.preparedFromParse parse with
      | none => (cache, false)
      | some stmt => (cache.setSlot i stmt identitySlot, true)
  | .exhausted => (cache, false)
  | .free i =>
      if maxCachedStmts ≤ cache.count then (cache, false)
      else
        match w.preparedFromParse parse with
        | none => (cache, false)
        | some stmt => ({ cache.setSlot i stmt identitySlot with count := cache.count + 1 }, true)

/-- `pqproxy_stmt_cache_get`. -/
def stmtCacheGet (cache : StmtCache) (name : Text) : Option PreparedStmt :=
  match probe cache name with
  | .found i => some (cache.slots i).stmt
  | _ => none

/-! ### The identity column -/

def isIdentChar (c : Char) : Bool :=
  ('a' ≤ c && c ≤ 'z') || ('A' ≤ c && c ≤ 'Z') || ('0' ≤ c && c ≤ '9') || c == '_' || c == '"'

/-- ASCII lower case. -/
def lowerAscii (c : Char) : Char :=
  if 'A' ≤ c && c ≤ 'Z' then Char.ofNat (c.toNat - 65 + 97) else c

def nameEqCi (a b : Text) : Bool := a.map lowerAscii == b.map lowerAscii

/-- The value of leading decimal digits. -/
def digitsValue : Nat → Text → Nat
  | acc, c :: s => if c.isDigit then digitsValue (acc * 10 + (c.toNat - 48)) s else acc
  | acc, [] => acc

/-- `atoi`: `strtol` in base ten, truncated to `int`. -/
def atoi (s : Text) : Int :=
  let s := s.dropWhile fun c => c == ' ' || ('\t' ≤ c && c ≤ '\r')
  let value : Int :=
    match s with
    | '-' :: s => max (-(digitsValue 0 s : Int)) (-9223372036854775808)
    | '+' :: s => min (digitsValue 0 s : Int) 9223372036854775807
    | s => min (digitsValue 0 s : Int) 9223372036854775807
  value.bmod 4294967296

/-- The word VALUES in any letter case, not continued by an identifier character. -/
def atValues : Text → Bool
  | v :: a :: l :: u :: e :: s :: rest =>
      (v == 'v' || v == 'V') && (a == 'a' || a == 'A') && (l == 'l' || l == 'L') &&
        (u == 'u' || u == 'U') && (e == 'e' || e == 'E') && (s == 's' || s == 'S') &&
        !(match rest with
          | c :: _ => isIdentChar c
          | [] => false)
  | _ => false

/-- What stands between the last opening parenthesis before VALUES and VALUES. The second argument
is the text since the last parenthesis seen so far. -/
def columnList : Text → Option Text → Option Text
  | [], cols => cols
  | c :: p, cols =>
      if atValues (c :: p) then cols
      else columnList p (if c = '(' then some [] else cols.map (· ++ [c]))

def isBlank (c : Char) : Bool := c == ' ' || c == '\t' || c == '\n' || c == '\r'

/-- One name of the column list, as far as `namebuf` holds it, and what follows it. -/
def columnName (q : Text) : Text × Text :=
  match q with
  | '"' :: q =>
      let name := (q.takeWhile (· != '"')).take 63
      let q := q.drop name.length
      match q with
      | '"' :: q => (name, q)
      | q => (name, q)
  | q =>
      let name := (q.takeWhile fun c => isIdentChar c && c != '"').take 63
      (name, q.drop name.length)

/-- The position of the column `paramName` in a column list, counted from `idx`. Each round eats a
comma, so the length of the list bounds their number. -/
def findColumn (paramName : Text) : Nat → Text → Int → Option Int
  | 0, _, _ => none
  | rounds + 1, q, idx =>
      let q := q.dropWhile isBlank
      match q with
      | [] => none
      | ')' :: _ => none
      | q =>
          let (name, q) := columnName q
          if name ≠ [] ∧ nameEqCi name paramName then some (toInt16 idx)
          else
            match q.dropWhile fun c => c != ',' && c != ')' with
            | ',' :: q => findColumn paramName rounds q (idx + 1)
            | _ => none

/-- `pqproxy_resolve_identity_slot`. -/
def resolveIdentitySlot (query : Text) (paramName : Option Text) (fallback : Int) : Int :=
  match paramName with
  | none | some [] => fallback
  | some ('$' :: s) => toInt16 (toInt16 (atoi s) - 1)
  | some name =>
      if name.all Char.isDigit then toInt16 (atoi name)
      else
        match columnList query none with
        | none => fallback
        | some cols => (findColumn name (cols.length + 1) cols 0).getD fallback

/-! ### Parse and Bind -/

/-- The slot `pqproxy_on_parse_ex` caches for a query. -/
def parseSlot (query : Text) (identitySlot : Int) (paramName : Option Text) : Int :=
  if paramName.getD [] = [] then identitySlot
  else if 0 ≤ resolveIdentitySlot query paramName identitySlot then
    resolveIdentitySlot query paramName identitySlot
  else identitySlot

/-- `pqproxy_on_parse_ex` on the output of the frontend context. -/
def onParseEx (w : Pqwire) (frontend : Bytes) (cache : StmtCache) (parse : PqParse)
    (identitySlot : Int) (paramName : Option Text) : Bytes × StmtCache × Bool :=
  let slot := parseSlot parse.query identitySlot paramName
  let (cache, ok) := stmtCachePut w cache parse slot
  if ok then
    let (frontend, sent) := w.send frontend .parseComplete
    (frontend, cache, sent)
  else (frontend, cache, false)

/-- The output of a backend context together with the messages it was made of. -/
structure Outbox where
  out : Bytes
  sent : List ClientMsg

/-- `pqwire_send_*` of the client role. -/
def Outbox.send (w : Pqwire) (o : Outbox) (m : ClientMsg) : Option Outbox :=
  if w.acceptsClient o.out m then some ⟨o.out ++ w.encodeClient m, o.sent ++ [m]⟩ else none

/-- The parameter `pqproxy_on_bind` overwrites. -/
def bindSlot (id : Identity) (prep : PreparedStmt) : Nat :=
  (if 0 ≤ id.identitySlot then id.identitySlot else prep.identityParamSlot).toNat

/-- The Bind of the pipeline: rewritten in place or, when that fails, rebuilt around the identity. -/
def sendBind (w : Pqwire) (o : Outbox) (bind : PqBind) (slot : Nat) (id : Identity) :
    Option Outbox :=
  match (w.rewriteIdentity bind slot id.routerId).bind fun params =>
      o.send w (.bind [] [] params bind.resultFormats) with
  | some o => some o
  | none =>
      (w.injectIdentity bind slot id.routerId).bind fun params =>
        o.send w (.bind [] [] params bind.resultFormats)

/-- `pqproxy_on_bind`: the outbox holds what was sent also when a later send fails. -/
def onBind (w : Pqwire) (o : Outbox) (cache : StmtCache) (bind : PqBind) (id : Identity) :
    Outbox × Bool :=
  match stmtCacheGet cache bind.statement with
  | none => (o, false)
  | some prep =>
      let slot := bindSlot id prep
      if bind.params.length = 0 ∨ bind.params.length ≤ slot then (o, false)
      else
        match o.send w (.parse [] prep.query prep.paramTypeOids) with
        | none => (o, false)
        | some o =>
            match sendBind w o bind slot id with
            | none => (o, false)
            | some o =>
                match o.send w (.execute [] 0) with
                | none => (o, false)
                | some o =>
                    match o.send w .sync with
                    | none => (o, false)
                    | some o => (o, true)
