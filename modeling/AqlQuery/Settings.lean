import AqlQuery.Json.Decode
import AqlQuery.Toml.Reader

/-!
# Connection settings

Settings start from defaults and are read from TOML text, from a JSON value or from the
environment. TOML and JSON share one reading: a field that is missing keeps its default, an
unknown one is ignored, and a field of the wrong type refuses the whole.
-/

namespace AqlQuery

/-- How often a request is repeated, and how long to wait before that. -/
structure RetrySettings where
  maxRetries : UInt32 := 3
  initialBackoffMs : UInt64 := 100
  maxBackoffMs : UInt64 := 5000
  deriving DecidableEq, Inhabited

/-- No request is repeated. -/
def RetrySettings.disabled : RetrySettings := { maxRetries := 0 }

structure Settings where
  endpoint : String := "http://127.0.0.1:8529"
  database : String := "_system"
  username : String := "root"
  password : String := ""
  timeoutSecs : UInt64 := 3
  batchSize : UInt32 := 1000
  retry : RetrySettings := {}
  deriving DecidableEq, Inhabited

inductive SettingsError where
  | emptyEndpoint
  | emptyDatabase
  | zeroBatchSize
  | timeoutNotNumber (text : String)
  | other (text : String)
  deriving DecidableEq

def SettingsError.message : SettingsError → String
  | .emptyEndpoint => "endpoint must not be empty"
  | .emptyDatabase => "database must not be empty"
  | .zeroBatchSize => "batch_size must be positive"
  | .timeoutNotNumber text => "ARANGO_TIMEOUT_SECS is not a number: " ++ text
  | .other text => text

namespace Settings

/-- The settings that nobody has changed. -/
def default : Settings := {}

/-- Refuses a blank endpoint, a blank database and an empty batch, in this order. -/
def validate (s : Settings) : Except SettingsError Settings :=
  if Text.trim s.endpoint = "" then .error .emptyEndpoint
  else if Text.trim s.database = "" then .error .emptyDatabase
  else if s.batchSize = 0 then .error .zeroBatchSize
  else .ok s

/-- The endpoint as an address without a slash at its end; `tcp` and `ssl` are other names of `http`
and `https`. -/
def baseUrl (s : Settings) : String :=
  let endpoint := Text.stripEnd (· == '/') (Text.trim s.endpoint)
  match Text.dropStart? "tcp://" endpoint, Text.dropStart? "ssl://" endpoint with
  | some rest, _ => "http://" ++ rest
  | none, some rest => "https://" ++ rest
  | none, none => endpoint

/-! ## Reading -/

/-- How values of a format are read. -/
structure Format (α : Type) where
  string? : α → Option String
  natBelow? : Nat → α → Option Nat
  /-- The fields of a record, by name. -/
  fields? : List String → α → Option (Fields α)

variable {α : Type}

def retryFields : List String := ["max_retries", "initial_backoff_ms", "max_backoff_ms"]

def readRetry (format : Format α) (value : α) : Option RetrySettings := do
  let fields ← format.fields? retryFields value
  let base : RetrySettings := {}
  let word64 (v : α) : Option UInt64 := (format.natBelow? UInt64.size v).map UInt64.ofNat
  let maxRetries ← fields.getOr "max_retries" base.maxRetries fun v =>
    (format.natBelow? UInt32.size v).map UInt32.ofNat
  let initialBackoffMs ← fields.getOr "initial_backoff_ms" base.initialBackoffMs word64
  let maxBackoffMs ← fields.getOr "max_backoff_ms" base.maxBackoffMs word64
  some { maxRetries, initialBackoffMs, maxBackoffMs }

def settingsFields : List String :=
  ["endpoint", "database", "username", "password", "timeout_secs", "batch_size", "retry"]

def read (format : Format α) (value : α) : Option Settings := do
  let fields ← format.fields? settingsFields value
  let endpoint ← fields.getOr "endpoint" default.endpoint format.string?
  let database ← fields.getOr "database" default.database format.string?
  let username ← fields.getOr "username" default.username format.string?
  let password ← fields.getOr "password" default.password format.string?
  let timeoutSecs ← fields.getOr "timeout_secs" default.timeoutSecs fun v =>
    (format.natBelow? UInt64.size v).map UInt64.ofNat
  let batchSize ← fields.getOr "batch_size" default.batchSize fun v =>
    (format.natBelow? UInt32.size v).map UInt32.ofNat
  let retry ← fields.getOr "retry" default.retry (readRetry format)
  some { endpoint, database, username, password, timeoutSecs, batchSize, retry }

def jsonFormat : Format Json where
  string? := Json.string?
  natBelow? := Json.natBelow?
  fields? := Json.partialRecord?

/-- A field that is not known is passed over, but has to be readable. A date has none of the fields
of a record, and an array may list more than them. -/
def tomlFields? (names : List String) : Toml.Value → Option (Fields Toml.Value)
  | .table entries =>
    if entries.all fun entry => names.contains entry.1 || entry.2.isReadable then
      some (.ofPairs entries)
    else none
  | .array items => some (.ofPairs (names.zip items))
  | .datetime _ => some (.ofPairs [])
  | _ => none

def tomlFormat : Format Toml.Value where
  string?
    | .string s => some s
    | _ => none
  natBelow? bound
    | .integer (.ofNat n) => if n < bound then some n else none
    | _ => none
  fields? := tomlFields?

def ofJson? (value : Json) : Option Settings := read jsonFormat value

/-- Settings of a TOML document, not yet validated. -/
def ofToml? (text : String) : Option Settings := do
  let entries ← Toml.parse? text
  read tomlFormat (.table entries)

/-! ## Environment -/

/-- Digits, after at most one plus sign, of a number below `2 ^ 64`. -/
def word64? (s : String) : Option UInt64 :=
  let ds := match s.toList with
    | '+' :: rest => rest
    | cs => cs
  if ds.isEmpty || !ds.all Char.isDigit then none
  else
    let n := Json.Reader.digitsValue ds
    if n < UInt64.size then some (UInt64.ofNat n) else none

/-- Settings overridden by the variables that `lookup` knows, and validated. -/
def override (lookup : String → Option String) (s : Settings) : Except SettingsError Settings := do
  let s := { s with
    endpoint := (lookup "ARANGO_ENDPOINT").getD s.endpoint
    database := (lookup "ARANGO_DATABASE").getD s.database
    username := (lookup "ARANGO_USERNAME").getD s.username
    password := (lookup "ARANGO_PASSWORD").getD s.password }
  match lookup "ARANGO_TIMEOUT_SECS" with
  | none => s.validate
  | some text =>
    match word64? (Text.trim text) with
    | none => .error (.timeoutNotNumber text)
    | some seconds => validate { s with timeoutSecs := seconds }

end Settings

end AqlQuery
