import TopicRelay.Config.Validation
import TopicRelay.Toml.Document

/-!
# Reading configurations

A configuration is a TOML document with one table per section. A missing section or setting keeps
its default and an unknown one is ignored, but a known one must have the right type.

A section can be written as a table, or as an array of its settings in their order, of which later
ones may be missing. A date and time in place of a section is a table with no known setting.
-/

namespace TopicRelay

namespace Toml.Value

/-- The text of a string. -/
def string? : Value → Option String
  | .string s => some s
  | _ => none

/-- A truth value. -/
def boolean? : Value → Option Bool
  | .boolean b => some b
  | _ => none

/-- A natural number below `bound`. -/
def natural? (bound : Nat) : Value → Option Nat
  | .integer i => if 0 ≤ i ∧ i < bound then some i.toNat else none
  | _ => none

/-- A port. -/
def port? (v : Value) : Option Port := (v.natural? Numeral.portBound).map UInt16.ofNat

/-- Whether a value is a table or an array without contents. -/
def isEmptyContainer : Value → Bool
  | .table _ es => es.isEmpty
  | .array vs => vs.isEmpty
  | .tables ts => ts.isEmpty
  | _ => false

/-- The settings of a section: what stands at a position or under a name. -/
def section? : Value → Option (Nat → String → Option Value)
  | .table _ es => some fun _ name => es.lookup name
  | .array vs => some fun i _ => vs[i]?
  | .tables ts => some fun i _ => ts[i]?.map (.table .header)
  | .dateTime _ => some fun _ _ => none
  | _ => none

end Toml.Value

/-- What a setting says, or its default if it is missing. -/
def Toml.readOr (read? : Toml.Value → Option α) (default : α) : Option Toml.Value → Option α
  | none => some default
  | some v => read? v

open Toml (readOr)

/-- The log format of a given name. -/
def LogFormat.ofName? : String → Option LogFormat
  | "pretty" => some .pretty
  | "json" => some .json
  | _ => none

/-- A log format: its name, or a table whose one key is the name. -/
def LogFormat.ofToml? : Toml.Value → Option LogFormat
  | .string s => ofName? s
  | .table _ [(name, v)] => if v.isEmptyContainer then ofName? name else none
  | _ => none

/-- The backend settings of a section. -/
def BackendConfig.ofToml? (v : Toml.Value) : Option BackendConfig := do
  let get ← v.section?
  let d : BackendConfig := {}
  return {
    host := ← readOr Toml.Value.string? d.host (get 0 "host")
    defaultPort := ← readOr Toml.Value.port? d.defaultPort (get 1 "default_port") }

/-- The times of a section. -/
def TimeoutConfig.ofToml? (v : Toml.Value) : Option TimeoutConfig := do
  let get ← v.section?
  let d : TimeoutConfig := {}
  let time := Toml.Value.natural? Numeral.wordBound
  return {
    connect := ← readOr time d.connect (get 0 "connect_ms")
    deadline := ← readOr time d.deadline (get 1 "deadline_ms")
    pollInterval := ← readOr time d.pollInterval (get 2 "poll_interval_ms") }

/-- The limits of a section. -/
def ExchangeConfig.ofToml? (v : Toml.Value) : Option ExchangeConfig := do
  let get ← v.section?
  let d : ExchangeConfig := {}
  let size := Toml.Value.natural? Numeral.wordBound
  return {
    readChunkSize := ← readOr size d.readChunkSize (get 0 "read_chunk_size")
    maxHeaderBytes := ← readOr size d.maxHeaderBytes (get 1 "max_header_bytes")
    maxConcurrent := ← readOr size d.maxConcurrent (get 2 "max_concurrent") }

/-- The reporting settings of a section. -/
def ObservabilityConfig.ofToml? (v : Toml.Value) : Option ObservabilityConfig := do
  let get ← v.section?
  let d : ObservabilityConfig := {}
  return {
    logLevel := ← readOr Toml.Value.string? d.logLevel (get 0 "log_level")
    logFormat := ← readOr LogFormat.ofToml? d.logFormat (get 1 "log_format")
    metricsEnabled := ← readOr Toml.Value.boolean? d.metricsEnabled (get 2 "metrics_enabled")
    metricsAddress := ← readOr Toml.Value.string? d.metricsAddress (get 3 "metrics_address") }

/-- The stopping settings of a section. -/
def LifecycleConfig.ofToml? (v : Toml.Value) : Option LifecycleConfig := do
  let get ← v.section?
  let d : LifecycleConfig := {}
  let time := Toml.Value.natural? Numeral.wordBound
  return { drainTimeout := ← readOr time d.drainTimeout (get 0 "drain_timeout_ms") }

/-- The routes of a table from topics to ports. -/
def PortMap.ofToml? : Toml.Value → Option PortMap
  | .table _ es => do
    let routes ← es.mapM fun e => do return (e.1, ← Toml.Value.port? e.2)
    return PortMap.ofList routes
  | _ => none

/-- Why a configuration is not available. -/
inductive ConfigError where
  /-- The file cannot be read as text. -/
  | unreadable (reason : String)
  /-- The text is no TOML document, or a setting has the wrong type. -/
  | malformed
  | invalid (violations : List Violation)
deriving DecidableEq, Repr

/-- What is said about a configuration that is not available. -/
def ConfigError.message : ConfigError → String
  | .unreadable reason => "IO error: " ++ reason
  | .malformed => "Parse error: the configuration cannot be read"
  | .invalid violations =>
    "Validation failed: " ++ String.intercalate ", " (violations.map Violation.message)

namespace Config

/-- The configuration that the entries of a document spell. -/
def ofToml? (es : Toml.Entries) : Option Config := do
  let d : Config := {}
  return {
    backend := ← readOr BackendConfig.ofToml? d.backend (es.lookup "backend")
    routes := ← readOr PortMap.ofToml? d.routes (es.lookup "routes")
    timeouts := ← readOr TimeoutConfig.ofToml? d.timeouts (es.lookup "timeouts")
    exchange := ← readOr ExchangeConfig.ofToml? d.exchange (es.lookup "exchange")
    observability :=
      ← readOr ObservabilityConfig.ofToml? d.observability (es.lookup "observability")
    lifecycle := ← readOr LifecycleConfig.ofToml? d.lifecycle (es.lookup "lifecycle") }

/-- Reads a configuration without checking the rules, so that settings can still be replaced. -/
def read (document : String) : Except ConfigError Config :=
  match (Toml.read? document).bind ofToml? with
  | none => .error .malformed
  | some c => .ok c

/-- The configuration if it is valid. -/
def check (c : Config) : Except ConfigError Config :=
  match c.validate with
  | .ok c => .ok c
  | .error violations => .error (.invalid violations)

/-- Reads a configuration and checks the rules. -/
def parse (document : String) : Except ConfigError Config := read document >>= check

/-- The contents of a file: its bytes, or why it cannot be read. -/
abbrev File := Except String Bytes

/-- The text in a file. -/
def textOf : File → Except ConfigError String
  | .error reason => .error (.unreadable reason)
  | .ok content =>
    match Bytes.text? content with
    | none => .error (.unreadable "stream did not contain valid UTF-8")
    | some document => .ok document

/-- Reads a configuration file without checking the rules. -/
def ofFile (file : File) : Except ConfigError Config := textOf file >>= read

/-- Reads a configuration file and checks the rules. -/
def loadFile (file : File) : Except ConfigError Config := textOf file >>= parse

end Config

end TopicRelay
