import TopicRelay.PortMap

/-!
# Route tables

A route table sends every topic to exactly one port: the port of the topic's entry or, without an
entry, the default port. Topics are compared byte for byte.
-/

namespace TopicRelay

/-- Where requests on each topic go. -/
structure RouteTable where
  routes : PortMap := .empty
  defaultPort : Port
deriving DecidableEq

namespace RouteTable

/-- The table of a list of entries. Of several entries for one topic the last counts. -/
def ofList (entries : List (String × Port)) (defaultPort : Port) : RouteTable :=
  { routes := PortMap.ofList entries, defaultPort }

/-- The port for a topic. -/
def resolve (t : RouteTable) (topic : String) : Port := (t.routes.get? topic).getD t.defaultPort

/-- Whether a topic has an entry. -/
def contains (t : RouteTable) (topic : String) : Bool := (t.routes.get? topic).isSome

/-- The topics with an entry, in ascending order. -/
def topics (t : RouteTable) : List String := t.routes.topics

/-- The number of topics with an entry. -/
def size (t : RouteTable) : Nat := t.topics.length

/-- Whether no topic has an entry. -/
def isEmpty (t : RouteTable) : Bool := t.topics.isEmpty

end RouteTable

end TopicRelay
