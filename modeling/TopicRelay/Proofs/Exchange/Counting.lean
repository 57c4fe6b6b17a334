import TopicRelay.Proofs.Exchange.Reply
import TopicRelay.Proofs.Exchange.Turn
import Mathlib

/-!
# What is counted

A counter is added to where something happens: for a chunk when the bus has accepted it, for an
exchange when it ends, for a message when it is dropped. `Event.counts` says what each event is
worth, and `Counted` that the counters are the sums over the record. A turn of an exchange keeps
this, whichever way it goes and whatever the bus accepts (`advance_counted`).

The gauge is no counter, and is left out.

What the bus has accepted of one exchange is what its own counters say (`OnCourse.amounts`), and
after its end what its report says (`Ended.amounts`), except that the report of an exchange whose
last piece was refused has the bytes of that piece as well.
-/

namespace TopicRelay

/-! ## Counters -/

namespace Metrics

theorem get_add (m : Metrics) (k : Metric) (v : Nat) (j : Metric) :
    (m.add k v).get j = m.get j + if j = k then v else 0 := by
  rw [get, add, get?_set]
  split
  · rename_i h
    rw [h]
    rfl
  · rfl

theorem get_setActive_of_ne {k : Metric} (h : k ≠ .activeExchanges) (m : Metrics) (n : Nat) :
    (m.setActive n).get k = m.get k := by
  rw [get, setActive, get?_set, if_neg h, get]

/-- A dropped message touches no other metric. -/
theorem get?_recordDropped_of_ne {k : Metric} (h : k ≠ .messagesDropped) (m : Metrics) :
    m.recordDropped.get? k = m.get? k :=
  get?_add_of_ne h m 1

end Metrics

/-- Whether the publication is a piece of a reply. -/
def Publication.isChunk (p : Publication) : Bool := (p.property? Chunk.indexProperty).isSome

/-! ## The record as a source of the counters -/

/-- What a publication adds to a counter. -/
def Publication.counts (p : Publication) : Metric → Nat
  | .chunksPublished => if p.isChunk then 1 else 0
  | .bytesReceived => if p.isChunk then p.payload.length else 0
  | _ => 0

/-- What the end of an exchange adds to a counter. -/
def Report.counts (r : Report) : Metric → Nat
  | .exchanges label => if r.outcome.label = label then 1 else 0
  | .durations => 1
  | _ => 0

namespace Event

/-- What the event adds to a counter. -/
def counts : Event → Metric → Nat
  | .published _ p, k => p.counts k
  | .finished _ _ r, k => r.counts k
  | .dropped _, .messagesDropped => 1
  | _, _ => 0

/-- The exchange that ended, with its report. -/
def completion? : Event → Option (Nat × Report)
  | .finished id _ report => some (id, report)
  | _ => none

/-- The message that was dropped. -/
def message? : Event → Option Message
  | .dropped m => some m
  | _ => none

theorem counts_marker (id : Nat) (m : CompletionMarker) (correlation : Option Bytes) (k : Metric) :
    counts (.published id (m.toPublication correlation)) k = 0 := by
  cases k <;> rfl

end Event

namespace Surroundings

variable {β : Type}

/-- The pieces of replies that the bus has accepted, in the order in which it did. -/
def chunks (s : Surroundings β) : List Publication := s.published.filter Publication.isChunk

/-- The pieces of one reply that the bus has accepted. -/
def chunksOf (s : Surroundings β) (id : Nat) : List Publication :=
  (s.publications id).filter Publication.isChunk

/-- The exchanges that have ended, in the order in which they did, each with its report. -/
def completed (s : Surroundings β) : List (Nat × Report) :=
  s.events.reverse.filterMap Event.completion?

/-- The messages that could not be answered. -/
def dropped (s : Surroundings β) : List Message := s.events.reverse.filterMap Event.message?

/-- What the record amounts to for a counter. -/
def tally (s : Surroundings β) (k : Metric) : Nat := (s.events.map (·.counts k)).sum

/-- The counters agree with the record. -/
def Counted (s : Surroundings β) : Prop := ∀ k ≠ .activeExchanges, s.metrics.get k = s.tally k

namespace Counted

variable {s t : Surroundings β}

/-- The counters grow by what new events add to them. -/
theorem of_events (h : s.Counted) (new : List Event) (hevents : t.events = new ++ s.events)
    (hmetrics : ∀ k ≠ .activeExchanges,
      t.metrics.get k = s.metrics.get k + (new.map (·.counts k)).sum) : t.Counted := by
  intro k hk
  rw [hmetrics k hk, h k hk, tally, tally, hevents, List.map_append, List.sum_append, Nat.add_comm]

/-- What is neither a counter nor on the record may change at will. -/
theorem of_eq (h : s.Counted) (hevents : t.events = s.events)
    (hmetrics : ∀ k ≠ .activeExchanges, t.metrics.get k = s.metrics.get k) : t.Counted :=
  h.of_events [] hevents hmetrics

/-- The gauge may change at will. -/
theorem setActive (h : s.Counted) (n : Nat) :
    { s with metrics := s.metrics.setActive n }.Counted :=
  h.of_eq rfl fun _ hk => Metrics.get_setActive_of_ne hk _ n

/-- A chunk is counted, with its bytes, once the bus has accepted it. -/
theorem chunk (h : s.Counted) (bus : β) (id : Nat) (c : Chunk) (correlation : Option Bytes) :
    (log { s with bus, metrics := s.metrics.recordChunk c.payload.length }
      (.published id (c.toPublication correlation))).Counted := by
  refine h.of_events [.published id (c.toPublication correlation)] rfl fun k _ => ?_
  show (s.metrics.recordChunk c.payload.length).get k = _
  rw [Metrics.recordChunk, Metrics.get_add, Metrics.get_add]
  cases k <;> rfl

/-- A message is counted when it is dropped. -/
theorem drop (h : s.Counted) (m : Message) :
    (log { s with metrics := s.metrics.recordDropped } (.dropped m)).Counted := by
  refine h.of_events [.dropped m] rfl fun k _ => ?_
  show (s.metrics.add .messagesDropped 1).get k = _
  rw [Metrics.get_add]
  cases k <;> rfl

/-- An exchange that starts is not counted yet. -/
theorem opened (h : s.Counted) (e : Exchange) (now : Nat) : (s.opened e now).Counted := by
  refine h.of_events
    [.connected e.id s.network.connections.length, .started e.id now] rfl fun k _ => ?_
  cases k <;> rfl

end Counted

/-! ### What the sums are -/

/-- A sum over the record is a sum over what is selected from it, if nothing else is worth anything.
-/
theorem sum_events {α : Type} (s : Surroundings β) {value : Event → Nat}
    (select : Event → Option α) (weight : α → Nat)
    (h : ∀ e, value e = ((select e).map weight).getD 0) :
    (s.events.map value).sum = ((s.events.reverse.filterMap select).map weight).sum := by
  rw [List.filterMap_reverse, List.map_reverse, List.sum_reverse]
  induction s.events with
  | nil => rfl
  | cons e rest ih =>
    rw [List.map_cons, List.sum_cons, ih, h e, List.filterMap_cons]
    rcases select e with _ | x
    · exact Nat.zero_add _
    · rfl

theorem sum_boole {α : Type} (p : α → Prop) [DecidablePred p] (l : List α) :
    (l.map fun x => if p x then 1 else 0).sum = l.countP p := by
  induction l with
  | nil => rfl
  | cons x rest ih =>
    rw [List.map_cons, List.sum_cons, ih, List.countP_cons, Nat.add_comm]
    simp only [decide_eq_true_eq]

theorem tally_exchanges (s : Surroundings β) (label : OutcomeLabel) :
    s.tally (.exchanges label) = s.completed.countP fun x => x.2.outcome.label = label := by
  rw [tally, completed, ← sum_boole, ← sum_events s]
  intro e
  cases e <;> rfl

theorem sum_one {α : Type} (l : List α) : (l.map fun _ => 1).sum = l.length := by simp

theorem tally_durations (s : Surroundings β) : s.tally .durations = s.completed.length := by
  rw [tally, completed, ← sum_one, ← sum_events s]
  intro e
  cases e <;> rfl

/-- The chunks, selected from the record. -/
theorem chunks_eq_filterMap (s : Surroundings β) :
    s.chunks = s.events.reverse.filterMap fun e => e.publication?.filter Publication.isChunk := by
  rw [chunks, published, List.filter_filterMap]

theorem tally_of_chunks (s : Surroundings β) {k : Metric} (weight : Publication → Nat)
    (h : ∀ e : Event, e.counts k =
      e.publication?.elim 0 fun p => if p.isChunk then weight p else 0) :
    s.tally k = (s.chunks.map weight).sum := by
  rw [tally, chunks_eq_filterMap, ← sum_events s]
  intro e
  rw [h e]
  rcases e.publication? with _ | p
  · rfl
  · by_cases hp : p.isChunk <;> simp [Option.filter, hp]

theorem tally_chunksPublished (s : Surroundings β) :
    s.tally .chunksPublished = s.chunks.length := by
  rw [← sum_one]
  refine s.tally_of_chunks _ fun e => ?_
  cases e <;> rfl

theorem tally_bytesReceived (s : Surroundings β) :
    s.tally .bytesReceived = (s.chunks.map (·.payload.length)).sum := by
  refine s.tally_of_chunks _ fun e => ?_
  cases e <;> rfl

theorem tally_messagesDropped (s : Surroundings β) :
    s.tally .messagesDropped = s.dropped.length := by
  rw [tally, dropped, ← sum_one, ← sum_events s]
  intro e
  cases e <;> rfl

end Surroundings

open Surroundings (Counted)

/-! ## A turn of an exchange -/

variable {β : Type} [MessageBus β] {s : Surroundings β}

namespace Conversation

theorem publishAll_counted (h : s.Counted) (id : Nat) (pieces : List Bytes) (c : Conversation) :
    (publishAll id pieces c s).2.2.Counted := by
  induction pieces generalizing c s with
  | nil => exact h
  | cons piece rest ih =>
    rw [publishAll]
    rcases c.publisher.publishChunk s.bus piece with ⟨e | ⟨⟩, publisher, bus⟩
    · -- A chunk that is refused is not counted.
      exact h.of_eq rfl fun _ _ => rfl
    · have hchunk := h.chunk bus id (c.publisher.chunk piece) c.publisher.correlation
      simp only
      split
      · exact hchunk
      · exact ih hchunk _

theorem receive_counted (h : s.Counted) (settings : ExchangeSettings) (id : Nat)
    (c : Conversation) : (c.receive settings id s).2.2.Counted := by
  unfold receive
  simp only
  split
  · exact h
  · have htake : Counted { s with network := (s.network.take c.connection).2 } :=
      h.of_eq rfl fun _ _ => rfl
    have hall := publishAll_counted htake id
      (Bytes.pieces settings.readChunkSize (s.network.take c.connection).1) c
    generalize @publishAll β _ id _ c _ = r at hall ⊢
    rcases r with ⟨_ | outcome, d, t⟩
    · exact hall
    · exact hall

theorem advance_counted (h : s.Counted) (settings : ExchangeSettings) (id now : Nat)
    (c : Conversation) : (c.advance settings id now s).2.2.Counted := by
  have hsend : (c.send s).2.Counted := h.of_eq rfl fun _ _ => rfl
  have hreceive := receive_counted hsend settings id (c.send s).1
  rcases advance_cases settings id now c s with ⟨-, -, heq⟩ | ⟨-, ⟨-, heq⟩ | ⟨-, ⟨-, heq⟩ |
    ⟨-, ⟨outcome, d, t, hreceived, heq⟩ | ⟨d, t, hreceived, heq⟩⟩⟩⟩
  · rw [heq]
    exact h
  · rw [heq]
    exact h
  · rw [heq]
    exact h
  · rw [hreceived] at hreceive
    rw [heq]
    exact hreceive
  · rw [hreceived] at hreceive
    rw [heq]
    exact hreceive

end Conversation

namespace Exchange

variable (e : Exchange) (settings : ExchangeSettings)

/-- An exchange is counted when it ends, and its marker is not. -/
theorem finish_counted (h : s.Counted) (now : Nat) (report : Report) (publisher : Publisher) :
    (e.finish now report publisher s).2.Counted := by
  have hcount (k : Metric) : (s.metrics.recordExchange report.outcome.label).get k =
      s.metrics.get k + (Event.finished e.id now report).counts k := by
    rw [Metrics.recordExchange, Metrics.get_add, Metrics.get_add]
    cases k with
    | exchanges label => simp [Event.counts, Report.counts, eq_comm]
    | _ => rfl
  unfold finish
  simp only
  rcases publisher.finish s.bus with ⟨error | marker, bus⟩
  · exact h.of_events [.finished e.id now report] rfl fun k _ => hcount k
  · refine h.of_events [.finished e.id now report,
      .published e.id (marker.toPublication publisher.correlation)] rfl fun k _ => ?_
    rw [List.map_cons, List.map_singleton, List.sum_cons, List.sum_singleton, Event.counts_marker]
    exact hcount k

theorem converse_counted (h : s.Counted) (now : Nat) (c : Conversation) :
    (e.converse settings now c s).2.Counted := by
  have hadvance := Conversation.advance_counted h settings e.id now c
  unfold converse
  generalize Conversation.advance settings e.id now c s = r at hadvance ⊢
  rcases r with ⟨_ | outcome, d, t⟩
  · exact hadvance
  · have hleft : Counted { t with network := t.network.disconnect d.connection } :=
      Counted.of_eq (s := t) hadvance rfl fun _ _ => rfl
    exact e.finish_counted hleft now _ _

theorem awaitConnection_counted (h : s.Counted) (started connection limit now : Nat) :
    (e.awaitConnection settings started connection limit now s).2.Counted := by
  have hleft : Counted { s with network := s.network.disconnect connection } :=
    h.of_eq rfl fun _ _ => rfl
  unfold awaitConnection
  split
  · exact e.converse_counted settings h now _
  · exact e.finish_counted hleft now _ _
  · split
    · exact e.finish_counted hleft now _ _
    · exact h

/-- Whatever a turn comes to, what it counts is what it does. -/
theorem advance_counted (h : s.Counted) (now : Nat) :
    (e.advance settings now s).2.Counted := by
  unfold advance
  split
  · exact e.awaitConnection_counted settings (h.opened e now) _ _ _ _
  · exact e.awaitConnection_counted settings h _ _ _ _
  · exact e.converse_counted settings h now _

end Exchange

/-! ## What one exchange amounts to -/

namespace Reply

theorem filter_isChunk_chunks (m : Message) (payloads : List Bytes) :
    (chunks m payloads).filter Publication.isChunk = chunks m payloads := by
  rw [List.filter_eq_self]
  intro p hp
  obtain ⟨i, -, rfl⟩ := List.mem_mapIdx.1 hp
  rfl

theorem map_payload_chunks (m : Message) (payloads : List Bytes) :
    (chunks m payloads).map Publication.payload = payloads := by
  induction payloads using List.reverseRecOn with
  | nil => rfl
  | append_singleton rest payload ih =>
    rw [chunks_concat, List.map_append, ih]
    rfl

end Reply

/-- What the bus has accepted of an exchange is so many pieces with so many bytes. -/
def Surroundings.Amounts (s : Surroundings LocalBus) (id chunks bytes : Nat) : Prop :=
  (s.chunksOf id).length = chunks ∧ ((s.chunksOf id).map (·.payload.length)).sum = bytes

theorem Surroundings.amounts_of_chunksOf {s : Surroundings LocalBus} {id : Nat} {m : Message}
    {payloads : List Bytes} (h : s.chunksOf id = Reply.chunks m payloads) :
    s.Amounts id payloads.length payloads.flatten.length := by
  have hlengths : (Reply.chunks m payloads).map (·.payload.length) = payloads.map List.length :=
    List.map_map.symm.trans (congrArg _ (Reply.map_payload_chunks m payloads))
  rw [Amounts, h, hlengths, List.length_flatten]
  exact ⟨List.length_mapIdx, rfl⟩

namespace Exchange

/-- The chunks that an exchange in flight has published. -/
def chunks (e : Exchange) : Nat :=
  match e.stage with
  | .conversing c => c.chunks
  | _ => 0

/-- The bytes that an exchange in flight has read. -/
def received (e : Exchange) : Nat :=
  match e.stage with
  | .conversing c => c.received
  | _ => 0

theorem chunks_of_queued {e : Exchange} (h : e.stage = .queued) : e.chunks = 0 := by
  rw [chunks, h]

/-- An exchange in flight counts what the bus has accepted of it. -/
theorem OnCourse.amounts {e : Exchange} {s : Surroundings LocalBus} (h : e.OnCourse s) :
    s.Amounts e.id e.chunks e.received := by
  obtain ⟨id, port, message, stage⟩ := e
  cases stage with
  | conversing c =>
    obtain ⟨payloads, htells, hread⟩ := h
    show s.Amounts id c.chunks c.received
    rw [htells.chunks_eq, hread]
    apply Surroundings.amounts_of_chunksOf (m := message)
    rw [Surroundings.chunksOf, htells.publications_eq, Reply.filter_isChunk_chunks]
  | _ =>
    rw [Surroundings.Amounts, Surroundings.chunksOf, h.1]
    exact ⟨rfl, rfl⟩

end Exchange

/-- The report of an exchange gives the number of the pieces that the bus has accepted, and the
number of their bytes, unless the last piece that was read was refused. -/
theorem Ended.amounts {m : Message} {id : Nat} {s : Surroundings LocalBus} (h : Ended m id s) :
    ∃ report bytes, s.reports id = [report] ∧ s.Amounts id report.chunks bytes ∧
      (report.outcome ≠ .refused ∧ bytes = report.bytesReceived ∨
        report.outcome = .refused ∧ bytes < report.bytesReceived) := by
  obtain ⟨payloads, report, hreports, hchunks, haccounts, hsent⟩ := h
  have hof : s.chunksOf id = Reply.chunks m payloads := by
    rw [Surroundings.chunksOf]
    rcases hsent with ⟨-, hsent⟩ | ⟨-, hsent⟩
    · rw [hsent, List.filter_append, Reply.filter_isChunk_chunks]
      exact List.append_nil _
    · rw [hsent, Reply.filter_isChunk_chunks]
  refine ⟨report, payloads.flatten.length, hreports, ?_, ?_⟩
  · rw [hchunks]
    exact Surroundings.amounts_of_chunksOf hof
  · rcases haccounts with ⟨hne, hread⟩ | ⟨hrefused, -, hlt⟩
    · exact Or.inl ⟨fun heq => hne (congrArg some heq), hread.symm⟩
    · exact Or.inr ⟨Option.some.inj hrefused, hlt⟩

end TopicRelay
