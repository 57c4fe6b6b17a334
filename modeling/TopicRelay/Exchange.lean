import TopicRelay.Config.Basic
import TopicRelay.Deadline
import TopicRelay.Framer
import TopicRelay.Metrics
import TopicRelay.Network
import TopicRelay.Publisher

/-!
# Exchanges

An exchange brings one request to a backend and its response back to the bus. It waits for a slot,
then for its connection, sends the request, publishes every piece of the response as it is read, and
ends when the response is complete, when the backend ends the connection, when something fails, or
when its time is up. After its end it publishes the completion marker, whatever the outcome.

`Exchange.advance` takes an exchange that has its slot as far as it comes at one moment. Time does
not pass in it, and it touches nothing but its surroundings: the network, the bus, the metrics and
the record of what has happened.
-/

namespace TopicRelay

/-- Something that has happened, with the number of the exchange that it happened to. Times are
milliseconds. -/
inductive Event where
  /-- The exchange got its slot. -/
  | started (id now : Nat)
  /-- The exchange asked for the connection at this place. -/
  | connected (id connection : Nat)
  /-- The bus accepted a publication of the exchange. -/
  | published (id : Nat) (publication : Publication)
  /-- The exchange ended. -/
  | finished (id now : Nat) (report : Report)
  /-- A message could not be answered, and no exchange began for it. -/
  | dropped (message : Message)
deriving DecidableEq, Repr

/-- What exchanges share. -/
structure Surroundings (β : Type) where
  network : Network
  bus : β
  metrics : Metrics := {}
  /-- What has happened, last first. -/
  events : List Event := []
deriving DecidableEq, Repr

/-- Adds an event to the record. -/
def Surroundings.log {β : Type} (s : Surroundings β) (e : Event) : Surroundings β :=
  { s with events := e :: s.events }

/-- An exchange with an established connection. -/
structure Conversation where
  started : Nat
  /-- The place of its connection. -/
  connection : Nat
  /-- The bytes of the request that are still to be sent. -/
  pending : Bytes
  framer : Framer
  publisher : Publisher
  sent : Nat := 0
  received : Nat := 0
  /-- The chunks that were published, counted apart from the publisher's numbers. -/
  chunks : Nat := 0
  /-- When the current wait for readiness is over. -/
  wake : Nat
deriving DecidableEq, Repr

/-- How far an exchange has come. -/
inductive Stage where
  /-- It waits for a slot. -/
  | queued
  /-- It waits for its connection, but not longer than `limit`. -/
  | connecting (started connection limit : Nat)
  | conversing (c : Conversation)
deriving DecidableEq, Repr

/-- An exchange that has not ended. -/
structure Exchange where
  id : Nat
  port : Port
  message : Message
  stage : Stage := .queued
deriving DecidableEq, Repr

/-- What one moment makes of an exchange. -/
inductive Turn where
  | continues (stage : Stage)
  | ends (report : Report)
deriving DecidableEq, Repr

variable {β : Type} [MessageBus β]

namespace Conversation

/-- The time of the exchange. -/
def deadline (settings : ExchangeSettings) (c : Conversation) : Deadline where
  started := c.started
  limit := settings.deadline

/-- Sends what is left of the request, as far as there is room for it. -/
def send (c : Conversation) (s : Surroundings β) : Conversation × Surroundings β :=
  let (sent, network) := s.network.send c.connection c.pending
  ({ c with pending := c.pending.drop sent, sent := c.sent + sent }, { s with network })

/-- Publishes the pieces of the response that were read, until one of them completes the response or
is refused by the bus. -/
def publishAll (id : Nat) :
    List Bytes → Conversation → Surroundings β → Option Outcome × Conversation × Surroundings β
  | [], c, s => (none, c, s)
  | piece :: rest, c, s =>
    let c := { c with received := c.received + piece.length, framer := c.framer.feed piece }
    match c.publisher.publishChunk s.bus piece with
    | (.error e, _, bus) => (some (.failed (.publish e)), c, { s with bus })
    | (.ok (), publisher, bus) =>
      let chunk := (c.publisher.chunk piece).toPublication c.publisher.correlation
      let c := { c with publisher, chunks := c.chunks + 1 }
      let s := Surroundings.log { s with bus, metrics := s.metrics.recordChunk piece.length }
        (.published id chunk)
      match c.framer.progress with
      | .complete length => (some (.complete length), c, s)
      | .incomplete => publishAll id rest c s

/-- Reads everything that has arrived. A buffer without room reads as the end of the connection. -/
def receive (settings : ExchangeSettings) (id : Nat) (c : Conversation) (s : Surroundings β) :
    Option Outcome × Conversation × Surroundings β :=
  let link := s.network.connection c.connection
  if settings.readChunkSize = 0 then
    (if link.isReadable then some .peerClosed else none, c, s)
  else
    let (unread, network) := s.network.take c.connection
    match publishAll id (unread.pieces settings.readChunkSize) c { s with network } with
    | (some outcome, c, s) => (some outcome, c, s)
    | (none, c, s) => (if link.ending = some .closed then some .peerClosed else none, c, s)

/-- Whether the connection is ready for anything that the exchange waits for. -/
def isReady (c : Conversation) (network : Network) : Bool :=
  let link := network.connection c.connection
  (!c.pending.isEmpty && link.isWritable) || link.isReadable

/-- Goes on with the conversation if the connection is ready or the wait is over: the outcome, if
that ends the exchange.

The time is looked at first. If the connection becomes ready in the same moment in which the time is
up, and the exchange has not gone on before that moment, the tie goes to the deadline: what has
arrived is not read any more. An exchange that goes as far as it comes before time passes never
meets such a tie. -/
def advance (settings : ExchangeSettings) (id now : Nat) (c : Conversation) (s : Surroundings β) :
    Option Outcome × Conversation × Surroundings β :=
  if !c.isReady s.network && now < c.wake then (none, c, s)
  else if (c.deadline settings).expired now then (some .deadlineExceeded, c, s)
  else if (s.network.connection c.connection).ending = some .reset then
    (some (.failed (.socket "connection reset")), c, s)
  else
    let (c, s) := c.send s
    match c.receive settings id s with
    | (some outcome, c, s) => (some outcome, c, s)
    | (none, c, s) =>
      let wake := now + (c.deadline settings).nextWait settings.pollInterval now
      (none, { c with wake }, s)

end Conversation

namespace Exchange

/-- Ends an exchange: counts its outcome, publishes the completion marker and makes the report. -/
def finish (e : Exchange) (now : Nat) (report : Report) (publisher : Publisher)
    (s : Surroundings β) : Turn × Surroundings β :=
  let s := { s with metrics := s.metrics.recordExchange report.outcome.label }
  let s := match publisher.finish s.bus with
    | (.ok marker, bus) =>
      Surroundings.log { s with bus }
        (.published e.id (marker.toPublication publisher.correlation))
    | (.error _, bus) => { s with bus }
  (.ends report, s.log (.finished e.id now report))

/-- The publisher of the reply, before its first chunk. -/
def publisher (e : Exchange) : Publisher where
  replyTopic := e.message.replyTopic
  correlation := e.message.correlation

/-- Goes on with a conversation, and gives up the connection if that ends it. -/
def converse (settings : ExchangeSettings) (e : Exchange) (now : Nat) (c : Conversation)
    (s : Surroundings β) : Turn × Surroundings β :=
  match c.advance settings e.id now s with
  | (none, c, s) => (.continues (.conversing c), s)
  | (some outcome, c, s) =>
    e.finish now {
        port := e.port, outcome, chunks := c.chunks
        bytesSent := c.sent, bytesReceived := c.received, elapsed := now - c.started }
      c.publisher { s with network := s.network.disconnect c.connection }

/-- Looks whether the connection has come about, has failed, or has kept the exchange waiting for
too long. -/
def awaitConnection (settings : ExchangeSettings) (e : Exchange)
    (started connection limit now : Nat) (s : Surroundings β) : Turn × Surroundings β :=
  let fail (error : ExchangeError) :=
    e.finish now {
        port := e.port, outcome := .failed error, chunks := 0
        bytesSent := 0, bytesReceived := 0, elapsed := now - started }
      e.publisher { s with network := s.network.disconnect connection }
  match (s.network.connection connection).link with
  | .established _ =>
    e.converse settings now {
        started, connection, pending := e.message.payload
        framer := { maxHeader := settings.maxHeaderBytes }
        publisher := e.publisher, wake := now }
      s
  | .failed reason => fail (.connect reason)
  | .pending =>
    if limit ≤ now - started then fail (.connectTimeout (.ofMillis limit))
    else (.continues (.connecting started connection limit), s)

/-- Starts an exchange that has got its slot. Its time counts from here. -/
def start (settings : ExchangeSettings) (e : Exchange) (now : Nat) (s : Surroundings β) :
    Turn × Surroundings β :=
  let (connection, network) := s.network.connect e.port
  let s := (s.log (.started e.id now)).log (.connected e.id connection)
  e.awaitConnection settings now connection (min settings.connectTimeout settings.deadline) now
    { s with network }

/-- Takes an exchange that has its slot as far as it comes at one moment. An exchange without a slot
starts. -/
def advance (settings : ExchangeSettings) (e : Exchange) (now : Nat) (s : Surroundings β) :
    Turn × Surroundings β :=
  match e.stage with
  | .queued => e.start settings now s
  | .connecting started connection limit =>
    e.awaitConnection settings started connection limit now s
  | .conversing c => e.converse settings now c s

end Exchange

end TopicRelay
