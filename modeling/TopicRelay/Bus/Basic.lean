import TopicRelay.Message

/-!
# The bus

The relay publishes on a bus that it does not own. A bus takes one publication at a time and either
accepts it or says why not; what it has accepted is no longer the relay's concern.
-/

namespace TopicRelay

/-- Why a bus did not accept a publication. -/
inductive BusError where
  /-- Nobody receives any more. -/
  | closed
  /-- The transport below the bus failed. -/
  | transport (reason : String)
deriving DecidableEq, Repr

/-- What is said about a refused publication. -/
def BusError.message : BusError → String
  | .closed => "bus closed"
  | .transport reason => "bus I/O error: " ++ reason

/-- A bus to publish on. -/
class MessageBus (β : Type) where
  /-- Offers a publication: the answer of the bus, and the bus after it. -/
  publish : β → Publication → Except BusError Unit × β

end TopicRelay
