import TopicRelay.Config.Validation

/-!
# Starting the metrics endpoint

Before a relay runs it opens its metrics endpoint, if it is to have one. The address of the endpoint
must be a socket address.
-/

namespace TopicRelay

/-- Why a relay cannot start. -/
inductive StartupError where
  | badMetricsAddress (address : String)
deriving DecidableEq, Repr

/-- What is said about a relay that cannot start. -/
def StartupError.message : StartupError → String
  | .badMetricsAddress address =>
    "invalid metrics address '" ++ address ++ "': invalid socket address syntax"

/-- The address of the metrics endpoint, or nothing when there is to be none. -/
def Config.metricsEndpoint (c : Config) : Except StartupError (Option SocketAddress) :=
  if c.observability.metricsEnabled then
    match SocketAddress.parse? c.observability.metricsAddress with
    | none => .error (.badMetricsAddress c.observability.metricsAddress)
    | some address => .ok (some address)
  else .ok none

end TopicRelay
