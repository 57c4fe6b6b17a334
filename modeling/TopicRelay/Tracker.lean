import TopicRelay.Metrics

/-!
# Exchanges in flight

A tracker counts the exchanges in flight and numbers them in the order in which they began. The
count is recorded as a metric whenever it changes. Whoever wants all exchanges to have ended looks
at the count when the wait starts and at fixed intervals after that, up to a limit.
-/

namespace TopicRelay

/-- The count of the exchanges in flight. -/
structure Tracker where
  active : Nat := 0
  /-- The number of the next exchange. -/
  nextId : Nat := 0
deriving DecidableEq, Repr

namespace Tracker

/-- An exchange begins: its number, and the count and metrics after it. It is taken for granted that
the count and its metric change in one step, so that nobody sees one without the other; the same
goes for `release`. -/
def track (t : Tracker) (m : Metrics) : Nat × Tracker × Metrics :=
  (t.nextId, { active := t.active + 1, nextId := t.nextId + 1 }, m.setActive (t.active + 1))

/-- An exchange ends. -/
def release (t : Tracker) (m : Metrics) : Tracker × Metrics :=
  ({ t with active := t.active - 1 }, m.setActive (t.active - 1))

end Tracker

/-! ### Waiting -/

/-- A wait for all exchanges to end. Times are milliseconds. -/
structure IdleWait where
  started : Nat
  limit : Nat
  /-- Whether all exchanges had ended in time, once that is known. -/
  result : Option Bool := none
deriving DecidableEq, Repr

namespace IdleWait

/-- The time between two looks at the count. -/
def interval : Nat := 25

/-- What the wait makes of the count at a moment. A look comes before the limit. -/
def look (w : IdleWait) (now active : Nat) : IdleWait :=
  match w.result with
  | some _ => w
  | none =>
    if (now - w.started) % interval = 0 ∧ active = 0 then { w with result := some true }
    else if w.limit ≤ now - w.started then { w with result := some false }
    else w

/-- A wait that starts now. -/
def start (now limit active : Nat) : IdleWait := look { started := now, limit } now active

end IdleWait

/-! ### A tracker with its guards and waits -/

/-- A tracker on a clock, with the exchanges in flight and the waits that were started. -/
structure Watch where
  now : Nat := 0
  tracker : Tracker := {}
  metrics : Metrics := {}
  /-- The numbers of the exchanges in flight. -/
  guards : List Nat := []
  /-- The waits, in the order in which they started. -/
  waits : List IdleWait := []
deriving DecidableEq, Repr

namespace Watch

/-- An exchange begins. -/
def track (w : Watch) : Nat × Watch :=
  let (id, tracker, metrics) := w.tracker.track w.metrics
  (id, { w with tracker, metrics, guards := w.guards ++ [id] })

/-- An exchange ends, if it is in flight. -/
def drop (w : Watch) (id : Nat) : Bool × Watch :=
  if id ∈ w.guards then
    let (tracker, metrics) := w.tracker.release w.metrics
    (true, { w with tracker, metrics, guards := w.guards.erase id })
  else (false, w)

/-- A wait starts. -/
def wait (w : Watch) (limit : Nat) : Watch :=
  { w with waits := w.waits ++ [IdleWait.start w.now limit w.tracker.active] }

/-- A millisecond passes. -/
def tick (w : Watch) : Watch :=
  { w with
    now := w.now + 1
    waits := w.waits.map (·.look (w.now + 1) w.tracker.active) }

/-- Milliseconds pass. -/
def advance (w : Watch) : (ms : Nat) → Watch
  | 0 => w
  | ms + 1 => w.tick.advance ms

end Watch

end TopicRelay
