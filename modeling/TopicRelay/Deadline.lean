/-!
# Deadlines

A deadline is the time that one exchange may take, counted from the moment it starts. Times are
milliseconds on a clock that the caller reads. A wait for readiness is cut off at the poll interval
and at the deadline, whichever comes first.
-/

namespace TopicRelay

/-- A limit of time that runs from a starting moment. -/
structure Deadline where
  started : Nat
  limit : Nat
deriving DecidableEq, Repr

namespace Deadline

/-- The time since the start. -/
def elapsed (d : Deadline) (now : Nat) : Nat := now - d.started

/-- The time that is left, zero once the limit has passed. -/
def remaining (d : Deadline) (now : Nat) : Nat := d.limit - d.elapsed now

/-- Whether the limit has passed. -/
def expired (d : Deadline) (now : Nat) : Bool := d.limit ≤ d.elapsed now

/-- How long the next wait may last. -/
def nextWait (d : Deadline) (poll now : Nat) : Nat := min poll (d.remaining now)

end Deadline

end TopicRelay
