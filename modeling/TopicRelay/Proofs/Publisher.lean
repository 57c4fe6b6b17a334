import TopicRelay.Publisher
import TopicRelay.Proofs.Exchange.Conversation

/-!
# Numbers of accepted chunks

A publisher on a bus that may refuse any publication, for whatever reason and at any time. The
bus is arbitrary, and anything may happen to it between two calls. `RecordedBus` adds the record of
what the bus has accepted, and a session is a publisher at work on such a bus.

What a call can do is said once (`publishChunk_cases`, `finish_cases`). From it comes the invariant
of a session, `Session.IsNumbered`: the record consists of the chunks whose calls were accepted,
each with its place as its number, and the publisher counts them.
`Session.accepted_chunks_are_numbered` draws from it what a receiver relies on.
-/

namespace TopicRelay

/-- A bus with the record of what it has accepted. -/
structure RecordedBus (β : Type) where
  bus : β
  /-- What the bus has accepted, first first. -/
  accepted : List Publication := []

namespace RecordedBus

variable {β : Type} [MessageBus β]

/-- Offers a publication, which is recorded if the bus accepts it. -/
def publish (b : RecordedBus β) (p : Publication) : Except BusError Unit × RecordedBus β :=
  match MessageBus.publish b.bus p with
  | (.ok (), bus) => (.ok (), { bus, accepted := b.accepted ++ [p] })
  | (.error e, bus) => (.error e, { b with bus })

instance : MessageBus (RecordedBus β) := ⟨publish⟩

theorem publish_of_ok {b : RecordedBus β} {p : Publication} {bus : β}
    (h : MessageBus.publish b.bus p = (.ok (), bus)) :
    MessageBus.publish b p = (.ok (), ⟨bus, b.accepted ++ [p]⟩) := by
  show b.publish p = _
  rw [publish, h]

theorem publish_of_error {b : RecordedBus β} {p : Publication} {e : BusError} {bus : β}
    (h : MessageBus.publish b.bus p = (.error e, bus)) :
    MessageBus.publish b p = (.error e, ⟨bus, b.accepted⟩) := by
  show b.publish p = _
  rw [publish, h]

end RecordedBus

namespace Publisher

variable {β : Type} [MessageBus β]

/-- A call publishes the next chunk, or it changes neither the publisher nor the record. -/
theorem publishChunk_cases (p : Publisher) (b : RecordedBus β) (payload : Bytes) :
    (∃ bus, p.publishChunk b payload = (.ok (), { p with nextIndex := p.nextIndex + 1 },
        ⟨bus, b.accepted ++ [(p.chunk payload).toPublication p.correlation]⟩)) ∨
      ∃ e bus, p.publishChunk b payload = (.error e, p, ⟨bus, b.accepted⟩) := by
  rcases hbus : MessageBus.publish b.bus ((p.chunk payload).toPublication p.correlation) with
    ⟨e | ⟨⟩, bus⟩
  · refine Or.inr ⟨e, bus, ?_⟩
    rw [publishChunk, RecordedBus.publish_of_error hbus]
  · refine Or.inl ⟨bus, ?_⟩
    rw [publishChunk, RecordedBus.publish_of_ok hbus]

/-- The end publishes the marker, or it leaves the record as it is. -/
theorem finish_cases (p : Publisher) (b : RecordedBus β) :
    (∃ bus, p.finish b =
        (.ok p.marker, ⟨bus, b.accepted ++ [p.marker.toPublication p.correlation]⟩)) ∨
      ∃ e bus, p.finish b = (.error e, ⟨bus, b.accepted⟩) := by
  rcases hbus : MessageBus.publish b.bus (p.marker.toPublication p.correlation) with ⟨e | ⟨⟩, bus⟩
  · refine Or.inr ⟨e, bus, ?_⟩
    rw [finish, RecordedBus.publish_of_error hbus]
  · refine Or.inl ⟨bus, ?_⟩
    rw [finish, RecordedBus.publish_of_ok hbus]

/-! ## Sessions -/

/-- One thing that happens to a publisher and its bus. -/
inductive Step (β : Type) where
  /-- A chunk of this payload is to be published. -/
  | offer (payload : Bytes)
  /-- Something happens to the bus. -/
  | meanwhile (change : β → β)

/-- The payload that a step offers. -/
def Step.offered? : Step β → Option Bytes
  | .offer payload => some payload
  | .meanwhile _ => none

/-- A publisher at work. -/
structure Session (β : Type) where
  publisher : Publisher
  bus : RecordedBus β
  /-- The payloads that were offered, each with the answer to it, first first. -/
  answers : List (Bytes × Except BusError Unit) := []

namespace Session

/-- The publisher of a reply that has published nothing. -/
def start (replyTopic : String) (correlation : Option Bytes) (bus : β) : Session β where
  publisher := { replyTopic, correlation }
  bus := { bus }

/-- The session after a step. -/
def step (s : Session β) : Step β → Session β
  | .offer payload =>
    let (answer, publisher, bus) := s.publisher.publishChunk s.bus payload
    { publisher, bus, answers := s.answers ++ [(payload, answer)] }
  | .meanwhile change => { s with bus.bus := change s.bus.bus }

/-- The session after steps. -/
def run (s : Session β) (steps : List (Step β)) : Session β := steps.foldl step s

/-- The payloads of the calls that were accepted. -/
def acceptedPayloads (s : Session β) : List Bytes := (s.answers.filter (·.2.isOk)).map (·.1)

/-- The chunks of a reply with these payloads, numbered in their order. -/
def chunks (replyTopic : String) (correlation : Option Bytes) (payloads : List Bytes) :
    List Publication :=
  payloads.mapIdx fun i payload =>
    { topic := replyTopic, payload, properties := [("indx", toString i)], correlation }

/-- What is known of a session: its record consists of the accepted chunks in their order, and the
next chunk takes the number behind them. -/
structure IsNumbered (replyTopic : String) (correlation : Option Bytes) (s : Session β) :
    Prop where
  replyTopic_eq : s.publisher.replyTopic = replyTopic
  correlation_eq : s.publisher.correlation = correlation
  nextIndex_eq : s.publisher.nextIndex = s.acceptedPayloads.length
  accepted_eq : s.bus.accepted = chunks replyTopic correlation s.acceptedPayloads

section
variable {replyTopic : String} {correlation : Option Bytes} {s : Session β}

omit [MessageBus β] in
theorem isNumbered_start (bus : β) :
    IsNumbered replyTopic correlation (start replyTopic correlation bus) :=
  ⟨rfl, rfl, rfl, rfl⟩

omit [MessageBus β] in
theorem IsNumbered.length_accepted (h : IsNumbered replyTopic correlation s) :
    s.bus.accepted.length = s.publisher.nextIndex := by
  rw [h.accepted_eq, chunks, List.length_mapIdx, h.nextIndex_eq]

omit [MessageBus β] in
/-- The marker gives the number of the chunks that the bus has accepted. -/
theorem IsNumbered.marker_eq (h : IsNumbered replyTopic correlation s) :
    s.publisher.marker = { replyTopic, totalChunks := s.bus.accepted.length } := by
  rw [marker, h.replyTopic_eq, ← h.length_accepted]

theorem IsNumbered.step (h : IsNumbered replyTopic correlation s) (a : Step β) :
    IsNumbered replyTopic correlation (s.step a) := by
  cases a with
  | meanwhile change => exact ⟨h.replyTopic_eq, h.correlation_eq, h.nextIndex_eq, h.accepted_eq⟩
  | offer payload =>
    rw [Session.step]
    rcases publishChunk_cases s.publisher s.bus payload with ⟨bus, heq⟩ | ⟨e, bus, heq⟩
    · rw [heq]
      have hpayloads : acceptedPayloads
          ⟨{ s.publisher with nextIndex := s.publisher.nextIndex + 1 },
            ⟨bus, s.bus.accepted ++
              [(s.publisher.chunk payload).toPublication s.publisher.correlation]⟩,
            s.answers ++ [(payload, .ok ())]⟩ = s.acceptedPayloads ++ [payload] := by
        simp [acceptedPayloads, Except.isOk, Except.toBool]
      refine ⟨h.replyTopic_eq, h.correlation_eq, ?_, ?_⟩
      · rw [hpayloads, List.length_append, List.length_singleton, ← h.nextIndex_eq]
      · rw [hpayloads, chunks, List.mapIdx_concat, ← h.nextIndex_eq, ← chunks, ← h.accepted_eq,
          ← h.replyTopic_eq, ← h.correlation_eq]
        rfl
    · rw [heq]
      have hpayloads : acceptedPayloads ⟨s.publisher, ⟨bus, s.bus.accepted⟩,
          s.answers ++ [(payload, .error e)]⟩ = s.acceptedPayloads := by
        simp [acceptedPayloads, Except.isOk, Except.toBool]
      exact ⟨h.replyTopic_eq, h.correlation_eq, by rw [hpayloads, h.nextIndex_eq],
        by rw [hpayloads, h.accepted_eq]⟩

theorem IsNumbered.run (h : IsNumbered replyTopic correlation s) (steps : List (Step β)) :
    IsNumbered replyTopic correlation (s.run steps) := by
  induction steps generalizing s with
  | nil => exact h
  | cons a rest ih => exact ih (h.step a)

end

/-- Every payload that is offered is answered, in the order of the calls. -/
theorem answered_run (s : Session β) (steps : List (Step β)) :
    (s.run steps).answers.map (·.1) = s.answers.map (·.1) ++ steps.filterMap Step.offered? := by
  induction steps generalizing s with
  | nil => exact (List.append_nil _).symm
  | cons a rest ih =>
    have hrun : s.run (a :: rest) = (s.step a).run rest := rfl
    rw [hrun, ih]
    cases a with
    | meanwhile change => rfl
    | offer payload =>
      rw [Session.step, List.map_append, List.append_assoc]
      rfl

/-! ## On a bus within the process -/

/-- Whatever happens to the bus in between, its receiver neither goes away nor comes back. -/
def KeepsReceiver (steps : List (Step LocalBus)) : Prop :=
  ∀ change, .meanwhile change ∈ steps → ∀ b, (change b).isOpen = b.isOpen

/-- The answer of a bus whose receiver is there or has gone. -/
def answerOf (isOpen : Bool) : Except BusError Unit := if isOpen then .ok () else .error .closed

theorem step_offer_local (s : Session LocalBus) (payload : Bytes) :
    (s.step (.offer payload)).answers =
        s.answers ++ [(payload, answerOf s.bus.bus.isOpen)] ∧
      (s.step (.offer payload)).bus.bus.isOpen = s.bus.bus.isOpen := by
  rcases hopen : s.bus.bus.isOpen with _ | _
  · rw [Session.step, publishChunk,
      RecordedBus.publish_of_error (LocalBus.publish_of_closed hopen _)]
    exact ⟨rfl, hopen⟩
  · rw [Session.step, publishChunk, RecordedBus.publish_of_ok (LocalBus.publish_of_isOpen hopen _)]
    exact ⟨rfl, hopen⟩

/-- A bus within the process answers by its receiver alone. -/
theorem answers_run_local {steps : List (Step LocalBus)} (h : KeepsReceiver steps)
    (s : Session LocalBus) :
    (s.run steps).answers =
        s.answers ++ (steps.filterMap Step.offered?).map (·, answerOf s.bus.bus.isOpen) ∧
      (s.run steps).bus.bus.isOpen = s.bus.bus.isOpen := by
  induction steps generalizing s with
  | nil => exact ⟨(List.append_nil _).symm, rfl⟩
  | cons a rest ih =>
    have hrun : s.run (a :: rest) = (s.step a).run rest := rfl
    obtain ⟨hanswers, hopen⟩ :=
      ih (fun change hc => h change (List.mem_cons_of_mem a hc)) (s.step a)
    rw [hrun, hanswers, hopen]
    cases a with
    | meanwhile change =>
      have hkeeps : (s.step (.meanwhile change)).bus.bus.isOpen = s.bus.bus.isOpen :=
        h change List.mem_cons_self s.bus.bus
      rw [hkeeps]
      exact ⟨rfl, rfl⟩
    | offer payload =>
      obtain ⟨hanswer, hkeeps⟩ := step_offer_local s payload
      rw [hanswer, hkeeps, List.append_assoc]
      exact ⟨rfl, rfl⟩

/-- As long as the receiver is there the end is accepted, and the marker is behind the chunks. -/
theorem IsNumbered.finish_of_isOpen {replyTopic : String} {correlation : Option Bytes}
    {s : Session LocalBus} (h : IsNumbered replyTopic correlation s)
    (hopen : s.bus.bus.isOpen = true) :
    ∃ b, s.publisher.finish s.bus =
        (.ok { replyTopic, totalChunks := s.bus.accepted.length }, b) ∧
      b.accepted = s.bus.accepted ++
        [{ topic := replyTopic, payload := Bytes.ofString "no-data",
           properties := [("of", toString s.bus.accepted.length)], correlation }] := by
  rw [finish, RecordedBus.publish_of_ok (LocalBus.publish_of_isOpen hopen _), h.marker_eq,
    h.correlation_eq]
  exact ⟨_, rfl, rfl⟩

/-- **Accepted chunks are numbered densely.** Whatever is offered for a reply, whichever of it the
bus refuses and whatever happens to the bus in between, what the bus has accepted are the payloads
of the accepted calls in their order, numbered from zero, on the reply topic and with the
correlation data of the reply; the publisher knows their number. A refused call changes neither the
publisher nor what was accepted. The end, if it is accepted, adds one marker with the number of the
chunks behind them, and nothing otherwise.

A bus within the process accepts every call until its receiver goes away, and none from then on. As
long as the receiver is there the end is accepted, and its marker is added. -/
theorem accepted_chunks_are_numbered (replyTopic : String) (correlation : Option Bytes) :
    (∀ {β : Type} [MessageBus β] (bus : β) (steps : List (Step β)),
      let s := (start replyTopic correlation bus).run steps
      let n := s.bus.accepted.length
      s.answers.map (·.1) = steps.filterMap Step.offered? ∧
      s.bus.accepted = chunks replyTopic correlation s.acceptedPayloads ∧
      s.publisher.nextIndex = n ∧
      (∀ payload e publisher b,
        s.publisher.publishChunk s.bus payload = (.error e, publisher, b) →
          publisher = s.publisher ∧ b.accepted = s.bus.accepted) ∧
      (∀ marker b, s.publisher.finish s.bus = (.ok marker, b) →
        marker = { replyTopic, totalChunks := n } ∧
          b.accepted = s.bus.accepted ++
            [{ topic := replyTopic, payload := Bytes.ofString "no-data",
               properties := [("of", toString n)], correlation }]) ∧
      ∀ e b, s.publisher.finish s.bus = (.error e, b) → b.accepted = s.bus.accepted) ∧
    (∀ (bus : LocalBus) (steps : List (Step LocalBus)),
      let s := (start replyTopic correlation bus).run steps
      let n := s.bus.accepted.length
      s.bus.bus.isOpen = true →
        ∃ b, s.publisher.finish s.bus = (.ok { replyTopic, totalChunks := n }, b) ∧
          b.accepted = s.bus.accepted ++
            [{ topic := replyTopic, payload := Bytes.ofString "no-data",
               properties := [("of", toString n)], correlation }]) ∧
    ∀ before after, KeepsReceiver before → KeepsReceiver after →
      let s := (start replyTopic correlation {}).run (before ++ .meanwhile LocalBus.close :: after)
      s.answers = (before.filterMap Step.offered?).map (·, .ok ()) ++
          (after.filterMap Step.offered?).map (·, .error .closed) ∧
        (s.publisher.finish s.bus).1 = .error .closed := by
  refine ⟨?_, fun bus steps => ((isNumbered_start bus).run steps).finish_of_isOpen, ?_⟩
  · intro β _ bus steps s n
    have h : IsNumbered replyTopic correlation s := (isNumbered_start bus).run steps
    refine ⟨answered_run _ steps, h.accepted_eq, h.length_accepted.symm, ?_, ?_, ?_⟩
    · intro payload e publisher b heq
      rcases publishChunk_cases s.publisher s.bus payload with ⟨_, hcall⟩ | ⟨_, _, hcall⟩
      · cases hcall.symm.trans heq
      · cases hcall.symm.trans heq
        exact ⟨rfl, rfl⟩
    · intro marker b heq
      rcases finish_cases s.publisher s.bus with ⟨_, hcall⟩ | ⟨_, _, hcall⟩
      · cases hcall.symm.trans heq
        rw [h.marker_eq, h.correlation_eq]
        exact ⟨rfl, rfl⟩
      · cases hcall.symm.trans heq
    · intro e b heq
      rcases finish_cases s.publisher s.bus with ⟨_, hcall⟩ | ⟨_, _, hcall⟩
      · cases hcall.symm.trans heq
      · cases hcall.symm.trans heq
        rfl
  · intro before after hbefore hafter s
    let t := (start replyTopic correlation ({} : LocalBus)).run before
    have hrun : s = (t.step (.meanwhile LocalBus.close)).run after := List.foldl_append
    obtain ⟨hopened, -⟩ := answers_run_local hbefore (start replyTopic correlation {})
    obtain ⟨hanswers, hclosed⟩ := answers_run_local hafter (t.step (.meanwhile LocalBus.close))
    rw [← hrun] at hanswers hclosed
    refine ⟨?_, ?_⟩
    · rw [hanswers]
      exact congrArg (· ++ _) hopened
    · rw [finish, RecordedBus.publish_of_error (LocalBus.publish_of_closed hclosed _)]

end Session

end Publisher

end TopicRelay
