import TopicRelay.Bus.Basic
import TopicRelay.Bus.Wire

/-!
# The bus on a stream

Every publication becomes one line of a byte stream. The writer below may take only so many bytes:
it then takes what still fits of a line and fails from there on, so that at most one line is torn.
-/

namespace TopicRelay

/-- A writer that appends to a byte stream. -/
structure Writer where
  /-- The bytes that the writer still takes, if there is a bound. -/
  room : Option Nat := none
  /-- What the writer says when it takes no more. -/
  fault : String := ""
  /-- The bytes written, last first. -/
  reversed : List UInt8 := []
deriving DecidableEq, Repr

namespace Writer

/-- The bytes written. -/
def written (w : Writer) : Bytes := w.reversed.reverse

/-- Appends bytes without regard to the room. -/
def append (w : Writer) (b : Bytes) : Writer := { w with reversed := b.reverse ++ w.reversed }

/-- Writes all of `b`, or what fits of it and then fails. -/
def writeAll (w : Writer) (b : Bytes) : Except String Unit × Writer :=
  match w.room with
  | none => (.ok (), w.append b)
  | some n =>
    if b.length ≤ n then (.ok (), { w.append b with room := some (n - b.length) })
    else (.error w.fault, { w.append (b.take n) with room := some 0 })

end Writer

/-- A bus that writes a line for every publication. -/
structure StreamBus where
  writer : Writer := {}
deriving DecidableEq, Repr

namespace StreamBus

/-- Offers a publication, which is accepted once its whole line is written. -/
def publish (b : StreamBus) (p : Publication) : Except BusError Unit × StreamBus :=
  match b.writer.writeAll (Wire.encode p) with
  | (.ok (), w) => (.ok (), { b with writer := w })
  | (.error reason, w) => (.error (.transport reason), { b with writer := w })

instance : MessageBus StreamBus := ⟨publish⟩

end StreamBus

end TopicRelay
