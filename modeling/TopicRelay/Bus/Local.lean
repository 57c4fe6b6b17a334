import TopicRelay.Bus.Basic

/-!
# The bus within one process

Publications are kept in order until the receiver takes them. Once the receiver has gone away,
every publication is refused.
-/

namespace TopicRelay

/-- A bus whose publications are kept for one receiver. -/
structure LocalBus where
  /-- Whether the receiver is still there. -/
  isOpen : Bool := true
  /-- The publications that wait for the receiver, oldest first. -/
  waiting : List Publication := []
deriving DecidableEq, Repr

namespace LocalBus

/-- Offers a publication. -/
def publish (b : LocalBus) (p : Publication) : Except BusError Unit × LocalBus :=
  if b.isOpen then (.ok (), { b with waiting := b.waiting ++ [p] }) else (.error .closed, b)

instance : MessageBus LocalBus := ⟨publish⟩

/-- The receiver takes the oldest publication. -/
def receive (b : LocalBus) : Option Publication × LocalBus :=
  match b.waiting with
  | [] => (none, b)
  | p :: rest => (some p, { b with waiting := rest })

/-- The receiver takes all publications. -/
def receiveAll (b : LocalBus) : List Publication × LocalBus := (b.waiting, { b with waiting := [] })

/-- The receiver goes away, and with it what it has not taken. -/
def close (_ : LocalBus) : LocalBus := { isOpen := false, waiting := [] }

end LocalBus

end TopicRelay
