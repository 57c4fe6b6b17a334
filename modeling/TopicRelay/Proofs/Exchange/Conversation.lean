import TopicRelay.Exchange
import TopicRelay.Bus.Local

/-!
# Conversations on a bus within the process

A bus within the process takes every publication until its receiver goes away, and refuses every one
after that. What a conversation makes of a piece of the response therefore depends on two things
only: whether the bus is open, and whether the framer finds the response complete with the piece.
The lemmas say it case by case (`publishAll_of_closed`, `publishAll_of_complete`,
`publishAll_of_incomplete`), and likewise for the end of an exchange (`finish_of_closed`,
`finish_of_isOpen`).
-/

namespace TopicRelay

/-- The outcome of an exchange whose chunk the bus has refused. -/
def Outcome.refused : Outcome := .failed (.publish .closed)

/-! ## Publishing on a bus within the process -/

section
variable {bus : LocalBus}

theorem LocalBus.publish_of_isOpen (h : bus.isOpen = true) (p : Publication) :
    MessageBus.publish bus p = (.ok (), { bus with waiting := bus.waiting ++ [p] }) := by
  show LocalBus.publish bus p = _
  rw [LocalBus.publish, if_pos h]

theorem LocalBus.publish_of_closed (h : bus.isOpen = false) (p : Publication) :
    MessageBus.publish bus p = (.error .closed, bus) := by
  show LocalBus.publish bus p = _
  rw [LocalBus.publish, if_neg (by rw [h]; exact Bool.false_ne_true)]

theorem Publisher.publishChunk_of_isOpen (h : bus.isOpen = true) (p : Publisher) (payload : Bytes) :
    p.publishChunk bus payload = (.ok (), { p with nextIndex := p.nextIndex + 1 },
      { bus with waiting := bus.waiting ++ [(p.chunk payload).toPublication p.correlation] }) := by
  rw [publishChunk, LocalBus.publish_of_isOpen h]

theorem Publisher.publishChunk_of_closed (h : bus.isOpen = false) (p : Publisher)
    (payload : Bytes) : p.publishChunk bus payload = (.error .closed, p, bus) := by
  rw [publishChunk, LocalBus.publish_of_closed h]

theorem Publisher.finish_of_isOpen (h : bus.isOpen = true) (p : Publisher) :
    p.finish bus = (.ok p.marker,
      { bus with waiting := bus.waiting ++ [p.marker.toPublication p.correlation] }) := by
  rw [finish, LocalBus.publish_of_isOpen h]

theorem Publisher.finish_of_closed (h : bus.isOpen = false) (p : Publisher) :
    p.finish bus = (.error .closed, bus) := by
  rw [finish, LocalBus.publish_of_closed h]

end

/-! ## One piece of the response -/

/-- The surroundings after the bus has accepted a chunk. -/
def Surroundings.accept (s : Surroundings LocalBus) (id : Nat) (p : Publication) :
    Surroundings LocalBus :=
  Surroundings.log { s with
    bus.waiting := s.bus.waiting ++ [p]
    metrics := s.metrics.recordChunk p.payload.length } (.published id p)

/-- The chunk that the conversation publishes next. -/
def Conversation.nextChunk (c : Conversation) (piece : Bytes) : Publication :=
  (c.publisher.chunk piece).toPublication c.publisher.correlation

/-- The conversation after a piece was read and before it is published. -/
def Conversation.read (c : Conversation) (piece : Bytes) : Conversation :=
  { c with received := c.received + piece.length, framer := c.framer.feed piece }

/-- The conversation after a piece was read and published. -/
def Conversation.tell (c : Conversation) (piece : Bytes) : Conversation :=
  { c.read piece with
    publisher := { c.publisher with nextIndex := c.publisher.nextIndex + 1 }
    chunks := c.chunks + 1 }

namespace Conversation

variable {id : Nat} {c : Conversation} {s : Surroundings LocalBus}

theorem publishAll_of_closed (h : s.bus.isOpen = false) (piece : Bytes) (rest : List Bytes) :
    publishAll id (piece :: rest) c s = (some .refused, c.read piece, s) := by
  rw [publishAll, Publisher.publishChunk_of_closed h]
  rfl

theorem publishAll_of_complete (h : s.bus.isOpen = true) {piece : Bytes} {length : Nat}
    (hcomplete : (c.framer.feed piece).progress = .complete length) (rest : List Bytes) :
    publishAll id (piece :: rest) c s =
      (some (.complete length), c.tell piece, s.accept id (c.nextChunk piece)) := by
  rw [publishAll, Publisher.publishChunk_of_isOpen h]
  simp only [hcomplete]
  rfl

theorem publishAll_of_incomplete (h : s.bus.isOpen = true) {piece : Bytes}
    (hincomplete : (c.framer.feed piece).progress = .incomplete) (rest : List Bytes) :
    publishAll id (piece :: rest) c s =
      publishAll id rest (c.tell piece) (s.accept id (c.nextChunk piece)) := by
  rw [publishAll, Publisher.publishChunk_of_isOpen h]
  simp only [hincomplete]
  rfl

end Conversation

/-- A slice that is cut into pieces has no empty ones. -/
theorem Bytes.ne_nil_of_mem_pieces {size : Nat} {b : Bytes} :
    ∀ p ∈ Bytes.pieces size b, p ≠ [] := by
  fun_induction Bytes.pieces size b with
  | case1 =>
    intro p hp
    exact absurd hp List.not_mem_nil
  | case2 x rest ih =>
    intro p hp
    rcases List.mem_cons.1 hp with rfl | hp
    · exact List.cons_ne_nil _ _
    · exact ih p hp

/-! ## The end of an exchange -/

namespace Exchange

variable {e : Exchange} {s : Surroundings LocalBus}

theorem finish_of_closed (h : s.bus.isOpen = false) (now : Nat) (report : Report)
    (publisher : Publisher) :
    e.finish now report publisher s = (.ends report,
      Surroundings.log { s with metrics := s.metrics.recordExchange report.outcome.label }
        (.finished e.id now report)) := by
  rw [finish, Publisher.finish_of_closed h]

theorem finish_of_isOpen (h : s.bus.isOpen = true) (now : Nat) (report : Report)
    (publisher : Publisher) :
    let marker := publisher.marker.toPublication publisher.correlation
    e.finish now report publisher s = (.ends report,
      (Surroundings.log { s with
          bus.waiting := s.bus.waiting ++ [marker]
          metrics := s.metrics.recordExchange report.outcome.label }
        (.published e.id marker)).log (.finished e.id now report)) := by
  rw [finish, Publisher.finish_of_isOpen h]

end Exchange

end TopicRelay
