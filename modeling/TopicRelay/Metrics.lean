import TopicRelay.Outcome

/-!
# Metrics

What a relay counts about itself. A metric exists from the moment it is first recorded; until then
it has no value, which is different from the value zero.
-/

namespace TopicRelay

/-- A quantity that is recorded. -/
inductive Metric where
  /-- The exchanges that ended in one way. -/
  | exchanges (outcome : OutcomeLabel)
  /-- The exchanges whose duration was taken. -/
  | durations
  | chunksPublished
  /-- The bytes of the chunks that were published. -/
  | bytesReceived
  /-- The exchanges in flight. -/
  | activeExchanges
  /-- The messages that could not be answered. -/
  | messagesDropped
deriving DecidableEq, Repr

/-- The text of a metric, its label in braces. -/
def Metric.text : Metric → String
  | .exchanges outcome => "bridge_exchanges_total\x7boutcome=" ++ outcome.text ++ "\x7d"
  | .durations => "bridge_exchange_duration_seconds"
  | .chunksPublished => "bridge_chunks_published_total"
  | .bytesReceived => "bridge_bytes_received_total"
  | .activeExchanges => "bridge_active_exchanges"
  | .messagesDropped => "bridge_messages_dropped_total\x7breason=no_reply_topic\x7d"

/-- The recorded values. -/
structure Metrics where
  values : List (Metric × Nat) := []
deriving DecidableEq, Repr

namespace Metrics

/-- The value of a metric that has been recorded. -/
def get? (m : Metrics) (k : Metric) : Option Nat := m.values.lookup k

/-- The value of a metric, zero before it is recorded. -/
def get (m : Metrics) (k : Metric) : Nat := (m.get? k).getD 0

/-- Gives a metric a value in a list of values. -/
def setIn (k : Metric) (v : Nat) : List (Metric × Nat) → List (Metric × Nat)
  | [] => [(k, v)]
  | (j, w) :: rest => if k = j then (k, v) :: rest else (j, w) :: setIn k v rest

/-- Gives a metric a value. -/
def set (m : Metrics) (k : Metric) (v : Nat) : Metrics := ⟨setIn k v m.values⟩

/-- Adds to a metric. -/
def add (m : Metrics) (k : Metric) (v : Nat) : Metrics := m.set k (m.get k + v)

theorem lookup_setIn (k : Metric) (v : Nat) (values : List (Metric × Nat)) (j : Metric) :
    (setIn k v values).lookup j = if j = k then some v else values.lookup j := by
  have cons (i : Metric) (w : Nat) (rest : List (Metric × Nat)) :
      ((i, w) :: rest).lookup j = if j = i then some w else rest.lookup j := by
    by_cases h : j = i
    · simp [h]
    · simp [List.lookup_cons, beq_eq_false_iff_ne.2 h, h]
  induction values with
  | nil => simp [setIn, cons]
  | cons x rest ih =>
    obtain ⟨i, w⟩ := x
    by_cases hk : k = i
    · subst hk
      simp only [setIn, cons, if_true]
      split <;> rfl
    · simp only [setIn, cons, ih, if_neg hk]
      by_cases h : j = i
      · simp [h, Ne.symm hk]
      · simp [h]

theorem get?_set (m : Metrics) (k : Metric) (v : Nat) (j : Metric) :
    (m.set k v).get? j = if j = k then some v else m.get? j :=
  lookup_setIn k v m.values j

/-! ### What is recorded -/

/-- An exchange has ended. -/
def recordExchange (m : Metrics) (outcome : OutcomeLabel) : Metrics :=
  (m.add (.exchanges outcome) 1).add .durations 1

/-- A chunk of `length` bytes has been published. -/
def recordChunk (m : Metrics) (length : Nat) : Metrics :=
  (m.add .chunksPublished 1).add .bytesReceived length

/-- The number of exchanges in flight has changed. -/
def setActive (m : Metrics) (active : Nat) : Metrics := m.set .activeExchanges active

/-- A message without a reply topic has been dropped. -/
def recordDropped (m : Metrics) : Metrics := m.add .messagesDropped 1

end Metrics

end TopicRelay
