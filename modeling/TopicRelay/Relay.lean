import TopicRelay.Bus.Intake
import TopicRelay.Dispatcher
import TopicRelay.Shutdown

/-!
# Running a relay

A running relay takes in messages and dispatches them until its input ends or a shutdown is
signalled. From then on it dispatches nothing more and waits for the exchanges in flight: it looks
at their number when it stops and at fixed intervals after that, and returns when there are none, or
when the time for draining is up.

Messages wait between intake and dispatch in a channel with room for a fixed number; one more may be
held by the intake, which then takes in nothing further. A message that is still held when the relay
returns can no longer be delivered, and that ends the intake.
-/

namespace TopicRelay

/-- What a relay is doing. -/
inductive RelayPhase where
  | dispatching
  /-- It waits for the exchanges in flight. -/
  | draining (wait : IdleWait)
  | returned
deriving DecidableEq, Repr

/-- What comes first when a message and the signal to shut down are both there. -/
inductive Preference where
  | message
  | signal
deriving DecidableEq, Repr

/-- A relay that was started. -/
structure Relay (β : Type) where
  dispatcher : Dispatcher β
  /-- How long it waits for the exchanges in flight, in milliseconds. -/
  drainTimeout : Nat
  /-- The number of messages that wait without holding up the intake. -/
  channelRoom : Nat
  shutdown : Shutdown
  /-- The number under which the relay listens for the signal to shut down. -/
  subscriber : Nat
  intake : Intake := {}
  /-- Whether the intake still takes in messages. -/
  isReading : Bool := true
  /-- The messages that were taken in and not yet dispatched. -/
  inbound : List Message := []
  /-- The number of messages that were dispatched. -/
  dispatched : Nat := 0
  phase : RelayPhase := .dispatching
deriving DecidableEq

namespace Relay

variable {β : Type}

/-- Starts a relay, unless it would have too many slots. -/
def start? (c : Config) (network : Network) (bus : β) (shutdown : Shutdown) : Option (Relay β) :=
  (Dispatcher.create? c network bus).map fun dispatcher =>
    let (subscriber, shutdown) := shutdown.subscribe
    { dispatcher, drainTimeout := c.lifecycle.drainTimeout
      channelRoom := max 1 c.exchange.maxConcurrent, shutdown, subscriber }

/-- Changes the dispatcher. -/
def onDispatcher (r : Relay β) (f : Dispatcher β → Dispatcher β) : Relay β :=
  { r with dispatcher := f r.dispatcher }

/-- Whether the relay has returned. -/
def hasReturned (r : Relay β) : Bool := r.phase = .returned

/-! ### Input -/

/-- Hands messages on to the channel. After the return of the relay nobody takes them any more, and
the first one ends the intake. -/
def forward (r : Relay β) (messages : List Message) : Relay β :=
  if r.hasReturned then { r with isReading := r.isReading && messages.isEmpty }
  else { r with inbound := r.inbound ++ messages }

/-- Input arrives. -/
def deliver (r : Relay β) (b : Bytes) : Relay β :=
  if r.isReading then
    let (messages, intake) := r.intake.feed b
    { r with intake }.forward messages
  else r

/-- The input ends. -/
def endInput (r : Relay β) : Relay β :=
  if r.isReading then { r.forward r.intake.finish with isReading := false } else r

/-- Reading the input fails. -/
def failInput (r : Relay β) : Relay β := { r with isReading := false }

/-- A shutdown is signalled; the answer says whether anybody listens. -/
def trigger (r : Relay β) : Bool × Relay β :=
  let (heard, shutdown) := r.shutdown.trigger
  (heard, { r with shutdown })

/-! ### Dispatching -/

/-- Whether the signal to shut down is there. -/
def isSignalled (r : Relay β) : Bool :=
  match (r.shutdown.receive r.subscriber).1 with
  | some .empty => false
  | _ => true

/-- Returns. Nobody takes messages any more, so an intake that is held up by one ends. -/
def conclude (r : Relay β) : Relay β :=
  { r with
    phase := .returned
    isReading := r.isReading && r.inbound.length ≤ r.channelRoom
    inbound := []
    shutdown := (r.shutdown.unsubscribe r.subscriber).2 }

/-- What a draining relay makes of a look at the exchanges in flight. -/
def drain (r : Relay β) (wait : IdleWait) : Relay β :=
  match wait.result with
  | none => { r with phase := .draining wait }
  | some _ => r.conclude

/-- Stops dispatching. -/
def stop (r : Relay β) : Relay β :=
  r.drain (.start r.dispatcher.now r.drainTimeout r.dispatcher.tracker.active)

/-- Dispatches a message. -/
def dispatch (r : Relay β) (m : Message) : Relay β :=
  let (id, dispatcher) := r.dispatcher.dispatch m
  { r with dispatcher, dispatched := r.dispatched + id.toList.length }

/-- One choice of a dispatching relay: it dispatches the next message, or stops because of the
signal or the end of the input. -/
def choose (prefers : Preference) (r : Relay β) : Relay β :=
  if r.phase ≠ .dispatching then r
  else match r.inbound with
    | m :: rest =>
      if r.isSignalled && prefers = .signal then r.stop else { r with inbound := rest }.dispatch m
    | [] => if r.isSignalled || !r.isReading then r.stop else r

/-- Makes choices; as many as there are messages and one more are enough. -/
def chooseAll (prefers : Preference) : (fuel : Nat) → Relay β → Relay β
  | 0, r => r
  | fuel + 1, r => chooseAll prefers fuel (r.choose prefers)

variable [MessageBus β]

/-- Lets everything go as far as it comes without time passing. -/
def settle (prefers : Preference) (r : Relay β) : Relay β :=
  (chooseAll prefers (r.inbound.length + 1) r).onDispatcher Dispatcher.settle

/-- Lets a millisecond pass. The exchanges come before the look at their number. -/
def tick (r : Relay β) : Relay β :=
  let r := r.onDispatcher Dispatcher.tick
  match r.phase with
  | .draining wait => r.drain (wait.look r.dispatcher.now r.dispatcher.tracker.active)
  | _ => r

/-- Lets milliseconds pass. -/
def pass (r : Relay β) : (ms : Nat) → Relay β
  | 0 => r
  | ms + 1 => r.tick.pass ms

/-- Lets time pass until the relay returns, but not more than `ms` milliseconds. -/
def passUntilReturn (r : Relay β) : (ms : Nat) → Relay β
  | 0 => r
  | ms + 1 => if r.hasReturned then r else r.tick.passUntilReturn ms

end Relay

end TopicRelay
