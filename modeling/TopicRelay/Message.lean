import TopicRelay.Text.Blank
import TopicRelay.Text.Lossy

/-!
# Messages and publications

A message is a request that arrived on a topic, with the topic on which the reply is awaited. A
publication is what the relay puts on the bus. Both may carry correlation data, opaque bytes that
every publication of a reply hands back unchanged; absent data and empty data are different.
-/

namespace TopicRelay

/-- A request from the bus. -/
structure Message where
  /-- The topic of the request, which selects the backend. -/
  topic : String
  /-- The bytes of the request. -/
  payload : Bytes
  /-- Where the reply is published. Without one the request cannot be answered. -/
  replyTopic : String
  correlation : Option Bytes := none
deriving DecidableEq, Repr

/-- What the relay publishes on the bus. -/
structure Publication where
  topic : String
  payload : Bytes
  /-- Names with values. -/
  properties : List (String × String) := []
  correlation : Option Bytes := none
deriving DecidableEq, Repr

namespace Message

/-- The most bytes of a request that its first line may take. -/
def requestLineLimit : Nat := 256

/-- The first line of the request, for reports. -/
def requestLine (m : Message) : String :=
  let line := (m.payload.takeWhile (· ≠ Bytes.lf)).take requestLineLimit
  String.ofList (Text.trimEnd (Text.lossy line))

end Message

namespace Publication

/-- The value of the first property of a name. -/
def property? (p : Publication) (name : String) : Option String := p.properties.lookup name

end Publication

/-! ### The pieces of a reply -/

/-- A piece of a reply, numbered in the order in which the pieces arrived. -/
structure Chunk where
  replyTopic : String
  payload : Bytes
  index : Nat
deriving DecidableEq, Repr

/-- The property that holds the number of a chunk. -/
def Chunk.indexProperty : String := "indx"

/-- The publication of a chunk. -/
def Chunk.toPublication (c : Chunk) (correlation : Option Bytes) : Publication where
  topic := c.replyTopic
  payload := c.payload
  properties := [(Chunk.indexProperty, toString c.index)]
  correlation

/-- The end of a reply, with the number of its chunks. -/
structure CompletionMarker where
  replyTopic : String
  totalChunks : Nat
deriving DecidableEq, Repr

/-- The property that holds the number of chunks. -/
def CompletionMarker.totalProperty : String := "of"

/-- The payload of every completion marker. -/
def CompletionMarker.payload : Bytes := Bytes.ofString "no-data"

/-- The publication of a completion marker. -/
def CompletionMarker.toPublication (m : CompletionMarker) (correlation : Option Bytes) :
    Publication where
  topic := m.replyTopic
  payload := CompletionMarker.payload
  properties := [(CompletionMarker.totalProperty, toString m.totalChunks)]
  correlation

end TopicRelay
