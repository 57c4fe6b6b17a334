import TopicRelay.Bus.Basic
import TopicRelay.Duration
import TopicRelay.PortMap

/-!
# How exchanges end

Every exchange ends with a report. Its outcome says whether the response was complete and, if not,
what ended the exchange first.
-/

namespace TopicRelay

/-- A failure that ends an exchange. -/
inductive ExchangeError where
  | connect (reason : String)
  | connectTimeout (limit : Duration)
  | socket (reason : String)
  | publish (cause : BusError)
deriving DecidableEq, Repr

/-- What is said about a failure. -/
def ExchangeError.message : ExchangeError → String
  | .connect reason => "connect failed: " ++ reason
  | .connectTimeout limit => "connect timed out after " ++ limit.text
  | .socket reason => "socket error: " ++ reason
  | .publish cause => "publish failed: " ++ cause.message

/-- How an exchange ended. -/
inductive Outcome where
  /-- The whole response arrived; it has `length` bytes. -/
  | complete (length : Nat)
  /-- The backend closed the connection first. -/
  | peerClosed
  /-- The time of the exchange was up first. -/
  | deadlineExceeded
  | failed (error : ExchangeError)
deriving DecidableEq, Repr

/-- A short name for each way to end, for counting. -/
inductive OutcomeLabel where
  | complete
  | peerClosed
  | deadlineExceeded
  | connectFailed
  | connectTimeout
  | socketError
  | publishFailed
deriving DecidableEq, Repr

/-- The name as it is written. -/
def OutcomeLabel.text : OutcomeLabel → String
  | .complete => "complete"
  | .peerClosed => "peer_closed"
  | .deadlineExceeded => "deadline_exceeded"
  | .connectFailed => "connect_failed"
  | .connectTimeout => "connect_timeout"
  | .socketError => "socket_error"
  | .publishFailed => "publish_failed"

/-- The name of an outcome. -/
def Outcome.label : Outcome → OutcomeLabel
  | .complete _ => .complete
  | .peerClosed => .peerClosed
  | .deadlineExceeded => .deadlineExceeded
  | .failed (.connect _) => .connectFailed
  | .failed (.connectTimeout _) => .connectTimeout
  | .failed (.socket _) => .socketError
  | .failed (.publish _) => .publishFailed

/-- Whether the whole response arrived. -/
def Outcome.isComplete (o : Outcome) : Bool := o.label = .complete

/-- What is known of an exchange that has ended. Times are milliseconds. -/
structure Report where
  port : Port
  outcome : Outcome
  /-- The chunks that the bus accepted. -/
  chunks : Nat
  /-- The bytes of the request that were sent. -/
  bytesSent : Nat
  /-- The bytes of the response that were read. -/
  bytesReceived : Nat
  elapsed : Nat
deriving DecidableEq, Repr

end TopicRelay
