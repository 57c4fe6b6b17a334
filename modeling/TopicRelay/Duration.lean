import TopicRelay.Numeral

/-!
# Durations

A duration is a whole number of nanoseconds. Its text has the largest unit in which it is at least
one, with as many decimals as it needs: `0ns`, `142ms`, `1.5s`.
-/

namespace TopicRelay

/-- A length of time. -/
structure Duration where
  nanos : Nat
deriving DecidableEq, Repr

namespace Duration

/-- The duration of a number of milliseconds. -/
def ofMillis (ms : Nat) : Duration := ⟨ms * 1000000⟩

/-- `nanos` nanoseconds counted in a unit of `10 ^ width` of them. -/
def inUnit (width : Nat) (unit : String) (nanos : Nat) : String :=
  Numeral.positional nanos (-width) ++ unit

/-- The text of a duration. -/
def text (d : Duration) : String :=
  if d.nanos ≥ 1000000000 then inUnit 9 "s" d.nanos
  else if d.nanos ≥ 1000000 then inUnit 6 "ms" d.nanos
  else if d.nanos ≥ 1000 then inUnit 3 "µs" d.nanos
  else inUnit 0 "ns" d.nanos

end Duration

end TopicRelay
