import TopicRelay.Bus.Stream
import TopicRelay.CommandLine.Options
import TopicRelay.Config.Read
import TopicRelay.LogFilter
import TopicRelay.Relay
import TopicRelay.Startup

/-!
# The program

What a run of the program comes to: its exit code and what it writes to its output. The options are
laid over the configuration file before the rules are checked, so an option may repair a file that
breaks a rule, and may break one that keeps them all.

A run without `--check` starts a relay between its input and its output and ends when the relay
returns.
-/

namespace TopicRelay

namespace CommandLine

/-- The configuration that the options make of a file. -/
def Options.applyTo (o : Options) (c : Config) : Config :=
  { c with
    observability := { c.observability with
      logLevel := o.logLevel.getD c.observability.logLevel }
    backend := { c.backend with defaultPort := o.defaultPort.getD c.backend.defaultPort }
    routes := c.routes.insertAll o.routes }

/-- The configuration of a run. The rules are checked once the options have been applied. -/
def buildConfig (files : String → Config.File) (o : Options) : Except ConfigError Config := do
  let base ← match o.config with
    | none => pure {}
    | some path => Config.ofFile (files path)
  Config.check (o.applyTo base)

/-- The lines that list where requests go: every route in order, and then all other topics. -/
def routeLines (c : Config) : List String :=
  let line (topic : String) (port : Port) : String :=
    topic ++ " -> " ++ c.backend.host ++ ":" ++ toString port.toNat
  c.routes.topics.map (fun topic => line topic (c.routeTable.resolve topic)) ++
    [line "*" c.backend.defaultPort]

/-- How the input of a run stops. -/
inductive InputEnd where
  | ended
  /-- The input stays open, and the program is told to shut down. -/
  | signalled
deriving DecidableEq, Repr

/-- What surrounds a run. -/
structure Setting where
  /-- The files that can be read. -/
  files : String → Config.File
  network : Network
  input : Bytes
  inputEnd : InputEnd

/-- Why a run failed. -/
inductive Failure where
  | usage (error : UsageError)
  | config (error : ConfigError)
  | startup (error : StartupError)
  /-- The log filter would be cut within a character. -/
  | brokenLogFilter
  /-- The relay would have more slots than can be counted. -/
  | tooManySlots
deriving DecidableEq

/-- What is said about a failure. -/
def Failure.message : Failure → String
  | .usage e => e.message
  | .config e => e.message
  | .startup e => e.message
  | .brokenLogFilter => "the log filter cannot be read"
  | .tooManySlots => "too many exchanges at once"

/-- The exit code of a failure. -/
def Failure.exitCode : Failure → Nat
  | .usage _ => 2
  | .config _ => 1
  | .startup _ => 1
  | .brokenLogFilter => 101
  | .tooManySlots => 101

/-- A text of lines, each with its end. -/
def unlines (lines : List String) : Bytes :=
  lines.flatMap fun line => Bytes.ofString line ++ [Bytes.lf]

/-- Lets a relay take in the whole input and go on until it returns. -/
def complete (setting : Setting) (r : Relay StreamBus) : Relay StreamBus :=
  let r := (r.deliver setting.input).settle .message
  let r := match setting.inputEnd with
    | .ended => r.endInput
    | .signalled => r.trigger.2
  let r := r.settle .message
  r.passUntilReturn r.drainTimeout

/-- The relay of a configuration, ready to run. -/
def ready (network : Network) (c : Config) : Except Failure (Relay StreamBus) :=
  match LogFilter.ofSetting? c.observability.logLevel, c.metricsEndpoint with
  | none, _ => .error .brokenLogFilter
  | _, .error e => .error (.startup e)
  | some _, .ok _ =>
    match Relay.start? c network ({} : StreamBus) .initial with
    | none => .error .tooManySlots
    | some r => .ok r

/-- What a relay writes between its start and its return. -/
def serve (setting : Setting) (c : Config) : Except Failure Bytes :=
  (ready setting.network c).map fun r =>
    (complete setting r).dispatcher.surroundings.bus.writer.written

/-- What the arguments come to. -/
inductive Plan where
  /-- Lines to be written, and nothing else. -/
  | print (lines : List String)
  /-- A relay to be run. -/
  | serve (c : Config)

/-- The path of the configuration file that the arguments name. -/
def configPath? (arguments : List String) : Option String :=
  match read arguments with
  | .ok (.run o) => o.config
  | _ => none

/-- What the arguments come to, given the files that can be read. -/
def plan (files : String → Config.File) (arguments : List String) : Except Failure Plan :=
  match read arguments with
  | .error e => .error (.usage e)
  | .ok .help => .ok (.print helpLines)
  | .ok (.run o) =>
    match buildConfig files o with
    | .error e => .error (.config e)
    | .ok c => .ok (if o.check then .print (routeLines c) else .serve c)

/-- What a run of the program writes. -/
def run (setting : Setting) (arguments : List String) : Except Failure Bytes :=
  match plan setting.files arguments with
  | .error f => .error f
  | .ok (.print lines) => .ok (unlines lines)
  | .ok (.serve c) => serve setting c

end CommandLine

end TopicRelay
