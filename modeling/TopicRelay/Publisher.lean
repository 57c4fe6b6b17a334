import TopicRelay.Bus.Basic

/-!
# Publishing a reply

A publisher turns the pieces of one reply into publications: numbered chunks, then one completion
marker with their number. Only a chunk that the bus has accepted takes a number, so the numbers
accepted are dense whatever the bus refuses in between.
-/

namespace TopicRelay

/-- The publisher of one reply. -/
structure Publisher where
  replyTopic : String
  correlation : Option Bytes := none
  /-- The number of the next chunk, which is the number of chunks accepted so far. -/
  nextIndex : Nat := 0
deriving DecidableEq, Repr

namespace Publisher

variable {β : Type} [MessageBus β]

/-- The next chunk. -/
def chunk (p : Publisher) (payload : Bytes) : Chunk where
  replyTopic := p.replyTopic
  payload := payload
  index := p.nextIndex

/-- The completion marker. -/
def marker (p : Publisher) : CompletionMarker where
  replyTopic := p.replyTopic
  totalChunks := p.nextIndex

/-- Offers the next chunk to the bus. -/
def publishChunk (p : Publisher) (bus : β) (payload : Bytes) :
    Except BusError Unit × Publisher × β :=
  match MessageBus.publish bus ((p.chunk payload).toPublication p.correlation) with
  | (.ok (), bus) => (.ok (), { p with nextIndex := p.nextIndex + 1 }, bus)
  | (.error e, bus) => (.error e, p, bus)

/-- Offers the completion marker to the bus. -/
def finish (p : Publisher) (bus : β) : Except BusError CompletionMarker × β :=
  match MessageBus.publish bus (p.marker.toPublication p.correlation) with
  | (.ok (), bus) => (.ok p.marker, bus)
  | (.error e, bus) => (.error e, bus)

end Publisher

end TopicRelay
