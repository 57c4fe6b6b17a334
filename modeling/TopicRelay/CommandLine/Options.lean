import TopicRelay.Numeral
import TopicRelay.PortMap
import TopicRelay.Text.Blank

/-!
# Command line options

The options of the program and how they are read. An option has a long name after two hyphens and
most have a short one after a single hyphen. Its value is the next argument, unless it is attached:
`--name=value`, `-nvalue` or `-n=value`. An argument that starts with a hyphen is never the value of
the option before it, except for the hyphen alone.

A value given as an argument of its own is looked at when the next option or the end is reached, so
an unknown argument after it is reported first.
-/

namespace TopicRelay

namespace CommandLine

/-! ### Routes -/

/-- Why a text is no route. -/
inductive RouteFault where
  /-- There is no equals sign. -/
  | noPort (text : String)
  /-- What follows the equals sign is no port. -/
  | badPort (text : String) (fault : Numeral.Fault)
deriving DecidableEq, Repr

/-- What is said about a text that is no route. -/
def RouteFault.message : RouteFault → String
  | .noPort text => "expected TOPIC=PORT, got '" ++ text ++ "'"
  | .badPort text fault => "invalid port in '" ++ text ++ "': " ++ fault.message

/-- Reads a route: a topic and a port with the first equals sign between them, and white space
around either. -/
def readRoute (text : String) : Except RouteFault (String × Port) :=
  let s := text.toList
  match s.dropWhile (· ≠ '=') with
  | [] => .error (.noPort text)
  | _ :: port =>
    let digits := Bytes.ofString (Text.trim (String.ofList port))
    match Numeral.read 10 Numeral.portBound digits with
    | .error fault => .error (.badPort text fault)
    | .ok n => .ok (Text.trim (String.ofList (s.takeWhile (· ≠ '='))), UInt16.ofNat n)

/-! ### Ports -/

/-- Reads a port: an integer with an optional sign, so that even zero may have a minus. -/
def readPort? (text : String) : Option Port :=
  let read (digits : Bytes) : Option Nat := (Numeral.read 10 Numeral.portBound digits).toOption
  match Bytes.ofString text with
  | 45 :: digits =>
    if digits.head? = some 43 then none
    else (read digits).bind fun n => if n = 0 then some 0 else none
  | digits => (read digits).map UInt16.ofNat

/-! ### Options -/

/-- The options that take a value. -/
inductive ValueOption where
  | config
  | logLevel
  | defaultPort
  | route
deriving DecidableEq, Repr

/-- The options. -/
inductive Flag where
  | value (o : ValueOption)
  | check
  | help
deriving DecidableEq, Repr

/-- The long name of an option that takes a value. -/
def ValueOption.name : ValueOption → String
  | .config => "config"
  | .logLevel => "log-level"
  | .defaultPort => "default-port"
  | .route => "route"

/-- The long name of an option. -/
def Flag.name : Flag → String
  | .value o => o.name
  | .check => "check"
  | .help => "help"

/-- All options. -/
def Flag.all : List Flag :=
  [.value .config, .value .logLevel, .value .defaultPort, .value .route, .check, .help]

/-- The option with a long name. -/
def Flag.ofLong? (name : String) : Option Flag := all.find? (·.name = name)

/-- The option with a short name. -/
def Flag.ofShort? : Char → Option Flag
  | 'c' => some (.value .config)
  | 'l' => some (.value .logLevel)
  | 'r' => some (.value .route)
  | 'h' => some .help
  | _ => none

/-- What was asked for. -/
structure Options where
  /-- The path of the configuration file. -/
  config : Option String := none
  logLevel : Option String := none
  defaultPort : Option Port := none
  /-- The routes, in the order in which they were given. -/
  routes : List (String × Port) := []
  /-- Whether the configuration is only to be checked. -/
  check : Bool := false
deriving DecidableEq, Repr

/-- Why the arguments cannot be understood. -/
inductive UsageError where
  | unknownArgument (argument : String)
  | missingValue (o : ValueOption)
  | unexpectedValue (f : Flag)
  | repeated (f : Flag)
  | badValue (o : ValueOption) (value : String)
  | badRoute (fault : RouteFault)
deriving DecidableEq, Repr

/-- What is said about arguments that cannot be understood. -/
def UsageError.message : UsageError → String
  | .unknownArgument argument => "unexpected argument '" ++ argument ++ "'"
  | .missingValue o => "a value is required for '--" ++ o.name ++ "'"
  | .unexpectedValue f => "unexpected value for '--" ++ f.name ++ "'"
  | .repeated f => "'--" ++ f.name ++ "' cannot be used multiple times"
  | .badValue o value => "invalid value '" ++ value ++ "' for '--" ++ o.name ++ "'"
  | .badRoute fault => "invalid value for '--route': " ++ fault.message

/-- What the arguments ask for. -/
inductive Request where
  | help
  | run (o : Options)
deriving DecidableEq, Repr

namespace Options

/-- Takes the value of an option. Only routes may be given more than once. -/
def set (o : Options) (name : ValueOption) (value : String) : Except UsageError Options :=
  match name with
  | .config =>
    if o.config.isSome then .error (.repeated (.value .config))
    else if value = "" then .error (.badValue .config value)
    else .ok { o with config := some value }
  | .logLevel =>
    if o.logLevel.isSome then .error (.repeated (.value .logLevel))
    else .ok { o with logLevel := some value }
  | .defaultPort =>
    if o.defaultPort.isSome then .error (.repeated (.value .defaultPort))
    else match readPort? value with
      | none => .error (.badValue .defaultPort value)
      | some port => .ok { o with defaultPort := some port }
  | .route =>
    match readRoute value with
    | .error fault => .error (.badRoute fault)
    | .ok route => .ok { o with routes := o.routes ++ [route] }

/-- Takes the option that asks for a check. -/
def setCheck (o : Options) : Except UsageError Options :=
  if o.check then .error (.repeated .check) else .ok { o with check := true }

end Options

/-! ### Arguments -/

/-- An option whose value is not settled: the value, once it has been seen. -/
structure Pending where
  option : ValueOption
  value : Option String := none
deriving DecidableEq, Repr

/-- Settles the option that is pending. -/
def settle (o : Options) : Option Pending → Except UsageError Options
  | none => .ok o
  | some ⟨option, none⟩ => .error (.missingValue option)
  | some ⟨option, some value⟩ => o.set option value

/-- The form of an argument. -/
inductive Argument where
  /-- Two hyphens and nothing else. -/
  | separator
  /-- A long name, and the value that is attached to it. -/
  | long (name : String) (value : Option String)
  /-- A short name, and the value that is attached to it. -/
  | short (name : Char) (value : Option String)
  /-- No option. -/
  | plain
deriving DecidableEq, Repr

/-- The form of an argument. -/
def Argument.of (s : String) : Argument :=
  match s.toList with
  | ['-', '-'] => .separator
  | '-' :: '-' :: rest =>
    let value := match rest.dropWhile (· ≠ '=') with
      | [] => none
      | _ :: value => some (String.ofList value)
    .long (String.ofList (rest.takeWhile (· ≠ '='))) value
  | '-' :: name :: rest =>
    let value := match rest with
      | [] => none
      | '=' :: value => some (String.ofList value)
      | value => some (String.ofList value)
    .short name value
  | _ => .plain

/-- Reads arguments from left to right. -/
def readFrom : (pending : Option Pending) → Options → List String → Except UsageError Request
  | pending, o, [] => (settle o pending).map .run
  | pending, o, argument :: rest =>
    match Argument.of argument with
    | .separator =>
      match rest with
      | [] => (settle o pending).map .run
      | next :: _ => .error (.unknownArgument next)
    | .long name value =>
      match Flag.ofLong? name, value with
      | none, _ => .error (.unknownArgument argument)
      | some (.value option), some value => do
        readFrom none (← (← settle o pending).set option value) rest
      | some (.value option), none => do readFrom (some { option }) (← settle o pending) rest
      | some f, some _ => .error (.unexpectedValue f)
      | some .check, none => do readFrom none (← (← settle o pending).setCheck) rest
      | some .help, none => do
        let _ ← settle o pending
        return .help
    | .short name value =>
      match Flag.ofShort? name, value with
      | some (.value option), some value => do
        readFrom none (← (← settle o pending).set option value) rest
      | some (.value option), none => do readFrom (some { option }) (← settle o pending) rest
      | some .help, _ => do
        let _ ← settle o pending
        return .help
      | _, _ => .error (.unknownArgument argument)
    | .plain =>
      match pending with
      | some ⟨option, none⟩ => readFrom (some ⟨option, some argument⟩) o rest
      | _ => .error (.unknownArgument argument)

/-- Reads the arguments of the program. -/
def read (arguments : List String) : Except UsageError Request := readFrom none {} arguments

/-- The lines of the help text. -/
def helpLines : List String := [
  "Bridge pub/sub request topics to backend TCP services",
  "",
  "Usage: topic-proxy [OPTIONS]",
  "",
  "Options:",
  "  -c, --config <CONFIG>              TOML config file; defaults apply when omitted",
  "  -l, --log-level <LOG_LEVEL>        Override the log level (RUST_LOG still wins)",
  "      --default-port <DEFAULT_PORT>  Override the port used for unrouted topics",
  "  -r, --route <ROUTES>               Add or replace a route, e.g. `--route svc-a=3001`",
  "      --check                        Validate the configuration, print the route table, and exit",
  "  -h, --help                         Print help"]

end CommandLine

end TopicRelay
