/-!
# Asking for shutdown

A coordinator announces the shutdown to its subscribers. There is room for one signal, which the
next one takes, and every subscriber keeps its place in the sequence of all signals. A subscriber
that has been overtaken learns first how many signals it has missed, and then receives the newest.
Its place at the beginning is behind all signals from before its subscription.
-/

namespace TopicRelay

/-- What a subscriber finds. -/
inductive Reception where
  /-- No signal since the last one received. -/
  | empty
  | signalled
  /-- So many signals were overtaken by the newest one, which is still to be received. -/
  | lagged (overtaken : Nat)
  /-- No signal, and no coordinator that could send one. -/
  | closed
deriving DecidableEq, Repr

/-- The state that coordinators and subscribers share. -/
structure Shutdown where
  /-- The number of coordinators. -/
  coordinators : Nat := 1
  /-- The number of signals that were sent. The newest is kept, and the older ones are gone. -/
  sent : Nat := 0
  /-- For every subscriber, in order of subscription, its place: the number of signals behind it.
  There is none once the subscriber has gone away. -/
  subscribers : List (Option Nat) := []
  place_le_sent : ∀ place, some place ∈ subscribers → place ≤ sent := by simp
deriving DecidableEq, Repr

namespace Shutdown

/-- One coordinator and no subscriber, before the first signal. -/
def initial : Shutdown := {}

/-- The number of subscribers that have not gone away. -/
def receiverCount (s : Shutdown) : Nat := s.subscribers.countP (·.isSome)

/-- A further coordinator for the same subscribers. -/
def addCoordinator (s : Shutdown) : Shutdown := { s with coordinators := s.coordinators + 1 }

/-- A coordinator goes away. -/
def removeCoordinator (s : Shutdown) : Shutdown := { s with coordinators := s.coordinators - 1 }

/-- A new subscriber: its number, and the state with it. -/
def subscribe (s : Shutdown) : Nat × Shutdown :=
  (s.subscribers.length, { s with
    subscribers := s.subscribers ++ [some s.sent]
    place_le_sent := by
      intro place hplace
      rcases List.mem_append.1 hplace with hold | hnew
      · exact s.place_le_sent place hold
      · exact Nat.le_of_eq (Option.some.inj (List.mem_singleton.1 hnew)) })

/-- The place of a subscriber, if there is such a subscriber. -/
def place? (s : Shutdown) (id : Nat) : Option Nat := (s.subscribers[id]?).join

/-- The number of signals that lie before a subscriber. -/
def unread? (s : Shutdown) (id : Nat) : Option Nat := (s.place? id).map (s.sent - ·)

/-- A subscriber goes away; the answer says whether it was there. -/
def unsubscribe (s : Shutdown) (id : Nat) : Bool × Shutdown :=
  match s.place? id with
  | none => (false, s)
  | some _ => (true, { s with
      subscribers := s.subscribers.set id none
      place_le_sent := fun place hplace => s.place_le_sent place <|
        (List.mem_or_eq_of_mem_set hplace).resolve_right (Option.some_ne_none _) })

/-- Sends a signal if there is a subscriber; the answer says whether there is one. -/
def trigger (s : Shutdown) : Bool × Shutdown :=
  if s.receiverCount = 0 then (false, s)
  else (true, { s with
    sent := s.sent + 1
    place_le_sent := fun place hplace => Nat.le_succ_of_le (s.place_le_sent place hplace) })

/-- Puts a subscriber before the last `unread` signals. -/
def moveTo (s : Shutdown) (id unread : Nat) : Shutdown :=
  { s with
    subscribers := s.subscribers.set id (some (s.sent - unread))
    place_le_sent := by
      intro place hplace
      rcases List.mem_or_eq_of_mem_set hplace with hold | hnew
      · exact s.place_le_sent place hold
      · exact Nat.le_trans (Nat.le_of_eq (Option.some.inj hnew)) (Nat.sub_le _ _) }

/-- A subscriber asks for its next signal; there is no answer for a subscriber that is not there. -/
def receive (s : Shutdown) (id : Nat) : Option Reception × Shutdown :=
  match s.unread? id with
  | none => (none, s)
  | some 0 => (some (if s.coordinators = 0 then .closed else .empty), s)
  | some 1 => (some .signalled, s.moveTo id 0)
  | some (n + 2) => (some (.lagged (n + 1)), s.moveTo id 1)

end Shutdown

end TopicRelay
