import TopicRelay.RouteTable

/-!
# Configuration

What can be set about a relay: where its backends are, how long an exchange may take, how much it
may buffer, and how it reports on itself. All times are milliseconds. Every setting has a default.
-/

namespace TopicRelay

/-- Where the backends are. -/
structure BackendConfig where
  host : String := "localhost"
  /-- The port for topics without a route. -/
  defaultPort : Port := 3000
deriving DecidableEq

/-- The limits of time for one exchange. -/
structure TimeoutConfig where
  connect : Nat := 10000
  deadline : Nat := 30000
  /-- The longest single wait for readiness. -/
  pollInterval : Nat := 5000
deriving DecidableEq

/-- The limits of size for one exchange, and of the number of exchanges. -/
structure ExchangeConfig where
  /-- The most bytes taken from a backend at once. -/
  readChunkSize : Nat := 63488
  maxHeaderBytes : Nat := 65536
  /-- The most exchanges that run at once. -/
  maxConcurrent : Nat := 256
deriving DecidableEq

/-- The form of log lines. -/
inductive LogFormat where
  | pretty
  | json
deriving DecidableEq, Repr

/-- How the relay reports on itself. -/
structure ObservabilityConfig where
  logLevel : String := "info"
  logFormat : LogFormat := .pretty
  metricsEnabled : Bool := false
  metricsAddress : String := "127.0.0.1:9090"
deriving DecidableEq

/-- How the relay stops. -/
structure LifecycleConfig where
  /-- How long a stopping relay waits for its exchanges. -/
  drainTimeout : Nat := 35000
deriving DecidableEq

/-- All settings of a relay. -/
structure Config where
  backend : BackendConfig := {}
  routes : PortMap := .empty
  timeouts : TimeoutConfig := {}
  exchange : ExchangeConfig := {}
  observability : ObservabilityConfig := {}
  lifecycle : LifecycleConfig := {}
deriving DecidableEq

/-- The route table of a configuration. -/
def Config.routeTable (c : Config) : RouteTable :=
  { routes := c.routes, defaultPort := c.backend.defaultPort }

/-- What an exchange needs to know of a configuration. -/
structure ExchangeSettings where
  backendHost : String
  connectTimeout : Nat
  deadline : Nat
  pollInterval : Nat
  readChunkSize : Nat
  maxHeaderBytes : Nat
deriving DecidableEq

/-- The settings of the exchanges of a configuration. -/
def Config.exchangeSettings (c : Config) : ExchangeSettings where
  backendHost := c.backend.host
  connectTimeout := c.timeouts.connect
  deadline := c.timeouts.deadline
  pollInterval := c.timeouts.pollInterval
  readChunkSize := c.exchange.readChunkSize
  maxHeaderBytes := c.exchange.maxHeaderBytes

end TopicRelay
