import TopicRelay.Config.Basic
import TopicRelay.SocketAddress
import TopicRelay.Text.Blank

/-!
# Valid configurations

A configuration is valid when it breaks none of the rules listed here. Validation reports every
violation, in a fixed order: the backend, the routes in ascending order of their topics, the times,
the sizes, the metrics address.
-/

namespace TopicRelay

/-- A time that must not be zero. -/
inductive TimeoutField where
  | connect
  | deadline
  | pollInterval
deriving DecidableEq, Repr

/-- The name of the setting. -/
def TimeoutField.name : TimeoutField → String
  | .connect => "connect_ms"
  | .deadline => "deadline_ms"
  | .pollInterval => "poll_interval_ms"

/-- A limit that must not be zero. -/
inductive LimitField where
  | readChunkSize
  | maxHeaderBytes
  | maxConcurrent
deriving DecidableEq, Repr

/-- The name of the setting. -/
def LimitField.name : LimitField → String
  | .readChunkSize => "read_chunk_size"
  | .maxHeaderBytes => "max_header_bytes"
  | .maxConcurrent => "max_concurrent"

/-- A rule that a configuration breaks. -/
inductive Violation where
  | emptyBackendHost
  | zeroDefaultPort
  | emptyRouteKey
  | zeroRoutePort (topic : String)
  | zeroTimeout (field : TimeoutField)
  | pollLongerThanDeadline (poll deadline : Nat)
  | zeroLimit (field : LimitField)
  | badMetricsAddress (address : String)
deriving DecidableEq, Repr

/-- What is said about a violation. -/
def Violation.message : Violation → String
  | .emptyBackendHost => "backend.host must not be empty"
  | .zeroDefaultPort => "backend.default_port must not be 0"
  | .emptyRouteKey => "route key must not be empty"
  | .zeroRoutePort topic => "route `" ++ topic ++ "` maps to port 0"
  | .zeroTimeout field => "timeouts." ++ field.name ++ " must be greater than 0"
  | .pollLongerThanDeadline poll deadline =>
    "timeouts.poll_interval_ms (" ++ toString poll ++ ") exceeds timeouts.deadline_ms (" ++
      toString deadline ++ ")"
  | .zeroLimit field => "exchange." ++ field.name ++ " must be greater than 0"
  | .badMetricsAddress address =>
    "observability.metrics_address `" ++ address ++ "` is not a socket address"

/-- One violation if a condition holds. -/
def Violation.when (condition : Prop) [Decidable condition] (v : Violation) : List Violation :=
  if condition then [v] else []

namespace BackendConfig

/-- The rules that the backend settings break. -/
def violations (c : BackendConfig) : List Violation :=
  Violation.when (Text.isAllBlank c.host) .emptyBackendHost ++
    Violation.when (c.defaultPort = 0) .zeroDefaultPort

end BackendConfig

/-- The rules that one route breaks. -/
def routeViolations (route : String × Port) : List Violation :=
  Violation.when (route.1 = "") .emptyRouteKey ++
    Violation.when (route.2 = 0) (.zeroRoutePort route.1)

namespace TimeoutConfig

/-- The rules that the times break. -/
def violations (c : TimeoutConfig) : List Violation :=
  Violation.when (c.connect = 0) (.zeroTimeout .connect) ++
    Violation.when (c.deadline = 0) (.zeroTimeout .deadline) ++
    Violation.when (c.pollInterval = 0) (.zeroTimeout .pollInterval) ++
    Violation.when (c.deadline < c.pollInterval) (.pollLongerThanDeadline c.pollInterval c.deadline)

end TimeoutConfig

namespace ExchangeConfig

/-- The rules that the limits break. -/
def violations (c : ExchangeConfig) : List Violation :=
  Violation.when (c.readChunkSize = 0) (.zeroLimit .readChunkSize) ++
    Violation.when (c.maxHeaderBytes = 0) (.zeroLimit .maxHeaderBytes) ++
    Violation.when (c.maxConcurrent = 0) (.zeroLimit .maxConcurrent)

end ExchangeConfig

namespace ObservabilityConfig

/-- The rules that the reporting settings break. The address counts only when it is used. -/
def violations (c : ObservabilityConfig) : List Violation :=
  Violation.when (c.metricsEnabled ∧ (SocketAddress.parse? c.metricsAddress).isNone)
    (.badMetricsAddress c.metricsAddress)

end ObservabilityConfig

namespace Config

/-- The rules that a configuration breaks. -/
def violations (c : Config) : List Violation :=
  c.backend.violations ++ c.routes.entries.flatMap routeViolations ++ c.timeouts.violations ++
    c.exchange.violations ++ c.observability.violations

/-- The configuration itself if it is valid, and the rules that it breaks otherwise. -/
def validate (c : Config) : Except (List Violation) Config :=
  if c.violations.isEmpty then .ok c else .error c.violations

end Config

end TopicRelay
