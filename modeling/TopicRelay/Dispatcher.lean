import TopicRelay.Exchange
import TopicRelay.Tracker

/-!
# Dispatching messages

A dispatcher begins an exchange for every message that can be answered. Exchanges are in flight from
that moment on, but only so many run at once: each needs one of the slots and keeps it until it has
ended. Slots are given out in the order in which the exchanges began.

An operation of the dispatcher or of its surroundings changes the state and no more; `settle` then
lets every exchange go as far as it comes without time passing, and `tick` lets one millisecond pass
before it.
-/

namespace TopicRelay

/-- A dispatcher with its exchanges. -/
structure Dispatcher (β : Type) where
  settings : ExchangeSettings
  routes : RouteTable
  /-- The number of exchanges that may run at once. -/
  maxConcurrent : Nat
  /-- The number of slots that no exchange holds. -/
  freeSlots : Nat := maxConcurrent
  /-- The time, in milliseconds. -/
  now : Nat := 0
  tracker : Tracker := {}
  /-- The exchanges that have not ended, in the order in which they began. -/
  inFlight : List Exchange := []
  surroundings : Surroundings β
deriving DecidableEq

namespace Dispatcher

variable {β : Type}

/-- More slots than this cannot be counted. -/
def maxSlots : Nat := 0x1fffffffffffffff

/-- The dispatcher of a configuration, unless it would have too many slots. -/
def create? (c : Config) (network : Network) (bus : β) : Option (Dispatcher β) :=
  if c.exchange.maxConcurrent > maxSlots then none
  else some {
    settings := c.exchangeSettings, routes := c.routeTable
    maxConcurrent := c.exchange.maxConcurrent, surroundings := { network, bus } }

/-- Changes the network. -/
def onNetwork (d : Dispatcher β) (f : Network → Network) : Dispatcher β :=
  { d with surroundings := { d.surroundings with network := f d.surroundings.network } }

/-- Changes the bus. -/
def onBus (d : Dispatcher β) (f : β → β) : Dispatcher β :=
  { d with surroundings := { d.surroundings with bus := f d.surroundings.bus } }

/-- Begins an exchange for a message: its number, or nothing for a message that cannot be answered
because it has no reply topic. -/
def dispatch (d : Dispatcher β) (m : Message) : Option Nat × Dispatcher β :=
  let s := d.surroundings
  if m.replyTopic = "" then
    let s := { s with metrics := s.metrics.recordDropped }
    (none, { d with surroundings := s.log (.dropped m) })
  else
    let (id, tracker, metrics) := d.tracker.track s.metrics
    let e : Exchange := { id, port := d.routes.resolve m.topic, message := m }
    (some id, { d with
      tracker, surroundings := { s with metrics }, inFlight := d.inFlight ++ [e] })

variable [MessageBus β]

/-- Lets an exchange that has a slot go on. At its end it gives up the slot. -/
def run (d : Dispatcher β) (e : Exchange) : Option Exchange × Dispatcher β :=
  match e.advance d.settings d.now d.surroundings with
  | (.continues stage, surroundings) => (some { e with stage }, { d with surroundings })
  | (.ends _, s) =>
    let (tracker, metrics) := d.tracker.release s.metrics
    (none, { d with tracker, freeSlots := d.freeSlots + 1, surroundings := { s with metrics } })

/-- Lets an exchange go on if it has a slot or gets one. -/
def visit (d : Dispatcher β) (e : Exchange) : Option Exchange × Dispatcher β :=
  if e.stage = .queued then
    if d.freeSlots = 0 then (some e, d) else { d with freeSlots := d.freeSlots - 1 }.run e
  else d.run e

/-- Lets exchanges go on, one after the other; the first part are those that have not ended. -/
def visitAll : List Exchange → Dispatcher β → List Exchange × Dispatcher β
  | [], d => ([], d)
  | e :: rest, d =>
    let (kept, d) := d.visit e
    let (others, d) := visitAll rest d
    (kept.toList ++ others, d)

/-- Lets every exchange go as far as it comes at this moment. -/
def settle (d : Dispatcher β) : Dispatcher β :=
  let (inFlight, settled) := visitAll d.inFlight d
  { settled with inFlight }

/-- Lets a millisecond pass. -/
def tick (d : Dispatcher β) : Dispatcher β := { d with now := d.now + 1 }.settle

/-- Lets milliseconds pass. -/
def pass (d : Dispatcher β) : (ms : Nat) → Dispatcher β
  | 0 => d
  | ms + 1 => d.tick.pass ms

end Dispatcher

end TopicRelay
