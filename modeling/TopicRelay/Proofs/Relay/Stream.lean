import TopicRelay.Proofs.Bus.Intake
import TopicRelay.Proofs.Dispatch.Routing
import TopicRelay.Proofs.Relay.Drain

/-!
# From the lines of a stream to replies

A relay that is fed with a stream of bytes and with nothing else, and that nobody asks to shut down,
answers the messages on the lines of the stream (`stream_is_answered`). As long as the stream goes
on, the relay has let in the messages of the lines that have ended (`TakesIn`). Once it has stopped,
all its messages are in (`HasTakenIn`), and the relay does not stop before it has taken them.

The intake of a relay may be held up by a full channel. That is not a case of its own here: it is a
session in which the pieces come later.
-/

namespace TopicRelay

open Bytes (lf endedLines lastLine)

/-! ## Lines that can be decoded -/

namespace Wire

/-- No message is on a blank line. -/
theorem decode?_of_all_isBlank {line : Bytes} (h : line.all Bytes.isBlank = true) :
    decode? line = none := by
  have hrest : (Json.skipBlank line).all Bytes.isBlank = true := by
    rw [List.all_eq_true] at h ⊢
    exact fun b hb => h b (List.dropWhile_sublist _ |>.subset hb)
  have hnone : readFields line = none := by
    unfold readFields
    split
    · rename_i rest hstart
      rw [hstart] at hrest
      simp [Bytes.isBlank, lf, Bytes.cr] at hrest
    · rename_i rest hstart
      rw [hstart] at hrest
      simp [Bytes.isBlank, lf, Bytes.cr] at hrest
    · rfl
  rw [decode?, hnone]

theorem messages_singleton (line : Bytes) : messages [line] = (message? line).toList := by
  rw [messages, List.filterMap_cons]
  rcases message? line <;> rfl

theorem message?_eq_decode? (line : Bytes) : message? line = decode? line := by
  rw [message?]
  split
  · rename_i hblank
    exact (decode?_of_all_isBlank hblank).symm
  · rfl

end Wire

/-! ## What the receiver gets -/

/-- Whatever the receiver has taken or finds is part of the reply to a message. -/
theorem Dispatcher.Session.IsSound.exists_message {s : Dispatcher.Session} (h : s.IsSound)
    {p : Publication} (hp : p ∈ s.delivered ++ s.surroundings.bus.waiting) :
    ∃ id m, s.begun[id]? = some m ∧ p ∈ s.surroundings.publications id ∧
      p.topic = m.replyTopic ∧ p.correlation = m.correlation := by
  have hpublished : p ∈ s.surroundings.published := by
    rcases hopen : s.surroundings.bus.isOpen
    · obtain ⟨hnone, hdelivered⟩ := h.delivers.2 hopen
      rw [show s.surroundings.bus.waiting = [] from hnone, List.append_nil] at hp
      exact hdelivered.subset hp
    · rw [show s.surroundings.published = _ from h.delivers.1 hopen]
      exact hp
  rw [Surroundings.published_eq_record] at hpublished
  obtain ⟨⟨id, p⟩, hrecord, rfl⟩ := List.mem_map.1 hpublished
  have hmem : p ∈ s.surroundings.publications id := by
    rw [Surroundings.publications_eq_record]
    exact List.mem_map_of_mem (List.mem_filter.2 ⟨hrecord, decide_eq_true rfl⟩)
  have hlt : id < s.begun.length := by
    rw [← Nat.not_le]
    intro hle
    have hnone : s.surroundings.history id = [] := h.fresh id hle
    rw [Surroundings.publications, hnone] at hmem
    cases hmem
  have hm := List.getElem?_eq_getElem hlt
  exact ⟨id, _, hm, hmem, h.of_mem_publications hm hmem⟩

namespace Relay

/-- What is done to a relay from outside, apart from its surroundings. -/
def Action.isExternal : Action → Bool
  | .choose _ | .doing _ | .tick _ => false
  | _ => true

/-- How a stream stops, as an action. -/
def endAction : StreamEnd → Action
  | .ended => .endInput
  | .failed _ => .failInput

namespace Session

variable {s : Session} {fed : List Bytes}

/-! ## While the stream goes on -/

/-- The pieces `fed` have come, and the stream goes on. -/
structure TakesIn (fed : List Bytes) (s : Session) : Prop where
  isReading : s.relay.isReading = true
  phase_eq : s.relay.phase = .dispatching
  isSignalled : s.relay.isSignalled = false
  intake_eq : s.relay.intake = ⟨(lastLine fed.flatten).reverse⟩
  arrived_eq : s.arrived = Wire.messages (endedLines fed.flatten)

theorem TakesIn.internal (h : s.TakesIn fed) {a : Action} (ha : a.isExternal = false) :
    (s.act a).TakesIn fed := by
  cases a with
  | choose prefers =>
    show (s.choose prefers).TakesIn fed
    rcases s.choose_cases prefers with ⟨heq, -⟩ | ⟨-, ⟨m, rest, -, heq⟩ | ⟨hwhy, -⟩⟩
    · rw [heq]
      exact h
    · rw [heq]
      exact ⟨h.isReading, h.phase_eq, h.isSignalled, h.intake_eq, h.arrived_eq⟩
    · rw [h.isSignalled, h.isReading] at hwhy
      simp at hwhy
  | doing d => exact ⟨h.isReading, h.phase_eq, h.isSignalled, h.intake_eq, h.arrived_eq⟩
  | tick before =>
    show (s.tick before).TakesIn fed
    unfold Session.tick
    rw [look_of_not_draining (by intro wait hno; cases h.phase_eq.symm.trans hno)]
    exact ⟨h.isReading, h.phase_eq, h.isSignalled, h.intake_eq, h.arrived_eq⟩
  | _ => cases ha

theorem TakesIn.deliver (h : s.TakesIn fed) (b : Bytes) :
    (s.act (.deliver b)).TakesIn (fed ++ [b]) := by
  have hfeed := Intake.feed_append {} fed.flatten b
  rw [Intake.feed_eq List.not_mem_nil, Intake.feed_eq List.not_mem_nil] at hfeed
  simp only [List.reverse_nil, List.nil_append, ← h.intake_eq, ← h.arrived_eq, Prod.mk.injEq]
    at hfeed
  have hflatten : (fed ++ [b]).flatten = fed.flatten ++ b := by
    rw [List.flatten_append, List.flatten_singleton]
  have hact : s.act (.deliver b) = { s with
      relay := { s.relay with
        intake := (s.relay.intake.feed b).2
        inbound := s.relay.inbound ++ (s.relay.intake.feed b).1 }
      arrived := s.arrived ++ (s.relay.intake.feed b).1 } := by
    simp only [act, Relay.deliver, if_pos h.isReading]
    rw [forward_of_ne (by simp [h.phase_eq])]
  rw [hact]
  refine ⟨h.isReading, h.phase_eq, h.isSignalled, ?_, ?_⟩
  · rw [hflatten]
    exact hfeed.2.symm
  · rw [hflatten]
    exact hfeed.1.symm

theorem takesIn_run (h : s.TakesIn []) (actions : List Action) {fed : List Bytes}
    (hfed : actions.filter Action.isExternal = fed.map .deliver) : (s.run actions).TakesIn fed := by
  induction actions using List.reverseRecOn generalizing fed with
  | nil =>
    obtain rfl : fed = [] := by simpa using hfed
    exact h
  | append_singleton actions a ih =>
    rw [run_append]
    rw [List.filter_append] at hfed
    by_cases ha : a.isExternal = true
    · rw [List.filter_cons_of_pos ha, List.filter_nil] at hfed
      obtain ⟨before, after, rfl, hbefore, hafter⟩ := List.map_eq_append_iff.1 hfed.symm
      obtain ⟨b, rfl, rfl⟩ := List.map_eq_singleton_iff.1 hafter
      exact (ih hbefore.symm).deliver b
    · rw [List.filter_cons_of_neg ha, List.filter_nil, List.append_nil] at hfed
      exact (ih hfed).internal (by simpa using ha)

/-! ## After the end of the stream -/

/-- The stream is over. All its messages have come, and a relay that has stopped has taken them. -/
structure HasTakenIn (all : List Message) (s : Session) : Prop where
  isReading : s.relay.isReading = false
  arrived_eq : s.arrived = all
  isSignalled : s.relay.phase = .dispatching → s.relay.isSignalled = false
  taken_eq : s.relay.phase ≠ .dispatching → s.taken = all ∧ s.relay.inbound = []

variable {all : List Message}

theorem TakesIn.finish (h : s.TakesIn fed) (last : StreamEnd) :
    (s.act (endAction last)).HasTakenIn (last.messages fed.flatten) := by
  have hreturned : s.relay.phase ≠ .returned := by simp [h.phase_eq]
  cases last with
  | ended =>
    have hact : s.act .endInput = { s with
        relay := { s.relay with
          inbound := s.relay.inbound ++ s.relay.intake.finish
          isReading := false }
        arrived := s.arrived ++ s.relay.intake.finish } := by
      simp only [act, Relay.endInput, if_pos h.isReading, forward_of_ne hreturned]
    show (s.act .endInput).HasTakenIn _
    rw [hact]
    refine ⟨rfl, ?_, fun _ => h.isSignalled, fun hno => absurd h.phase_eq hno⟩
    show s.arrived ++ s.relay.intake.finish = Wire.messages (Bytes.lines fed.flatten)
    rw [h.arrived_eq, h.intake_eq, Bytes.lines_eq, Wire.messages_append, Intake.finish,
      Wire.messages_singleton, List.reverse_reverse]
  | failed reason =>
    exact ⟨rfl, h.arrived_eq, fun _ => h.isSignalled, fun hno => absurd h.phase_eq hno⟩

theorem isReading_drain {r : Relay LocalBus} (h : r.isReading = false) (wait : IdleWait) :
    (r.drain wait).isReading = false := by
  unfold drain
  split
  · exact h
  · simp only [conclude, h, Bool.false_and]

theorem inbound_drain_of_nil {r : Relay LocalBus} (h : r.inbound = []) (wait : IdleWait) :
    (r.drain wait).inbound = [] := by
  unfold drain
  split
  · exact h
  · rfl

theorem HasTakenIn.internal (h : s.HasTakenIn all) (htallies : s.Tallies) {a : Action}
    (ha : a.isExternal = false) : (s.act a).HasTakenIn all := by
  cases a with
  | choose prefers =>
    show (s.choose prefers).HasTakenIn all
    rcases s.choose_cases prefers with ⟨heq, -⟩ | ⟨hphase, ⟨m, rest, -, heq⟩ | ⟨hwhy, heq⟩⟩
    · rw [heq]
      exact h
    · rw [heq]
      exact ⟨h.isReading, h.arrived_eq, h.isSignalled, fun hno => absurd hphase hno⟩
    · rw [heq]
      refine ⟨isReading_drain h.isReading _, h.arrived_eq,
        fun hno => absurd hno (phase_stop _), fun _ => ?_⟩
      have hinbound := (hwhy.resolve_left (by simp [h.isSignalled hphase])).1
      have harrived := htallies.arrived_eq (by simp [hphase])
      rw [hinbound, List.append_nil, h.arrived_eq] at harrived
      exact ⟨harrived, inbound_drain_of_nil hinbound _⟩
  | doing d => exact ⟨h.isReading, h.arrived_eq, h.isSignalled, h.taken_eq⟩
  | tick before =>
    show (s.tick before).HasTakenIn all
    unfold Session.tick
    generalize (s.view.act .clock).run (before.map Doing.action) = v
    by_cases hdraining : ∃ wait, s.relay.phase = .draining wait
    · obtain ⟨wait, hphase⟩ := hdraining
      rw [look_of_draining (s := s.withView v) hphase]
      obtain ⟨htaken, hinbound⟩ := h.taken_eq (by simp [hphase])
      exact ⟨isReading_drain (r := (s.withView v).relay) h.isReading _, h.arrived_eq,
        fun hno => absurd hno (phase_drain _ _),
        fun _ => ⟨htaken, inbound_drain_of_nil (r := (s.withView v).relay) hinbound _⟩⟩
    · rw [look_of_not_draining (s := s.withView v) fun wait hphase => hdraining ⟨wait, hphase⟩]
      exact ⟨h.isReading, h.arrived_eq, h.isSignalled, h.taken_eq⟩
  | _ => cases ha

theorem hasTakenIn_run (h : s.TakesIn []) (horderly : s.IsOrderly) (actions : List Action)
    {pieces : List Bytes} {last : StreamEnd}
    (hall : actions.filter Action.isExternal = pieces.map .deliver ++ [endAction last]) :
    (s.run actions).HasTakenIn (last.messages pieces.flatten) := by
  induction actions using List.reverseRecOn with
  | nil => simp at hall
  | append_singleton actions a ih =>
    rw [run_append]
    rw [List.filter_append] at hall
    by_cases ha : a.isExternal = true
    · rw [List.filter_cons_of_pos ha, List.filter_nil] at hall
      obtain ⟨hfed, hlast⟩ := List.append_inj' hall rfl
      obtain rfl : a = endAction last := by simpa using hlast
      exact (takesIn_run h actions hfed).finish last
    · rw [List.filter_cons_of_neg ha, List.filter_nil, List.append_nil] at hall
      exact (ih hall).internal (horderly.run actions).tallies (by simpa using ha)

/-! ## Whole streams -/

/-- The time for draining was up before a look found that no exchange was in flight. -/
def TimedOut (s : Session) : Prop :=
  ∃ stop moment, s.stopped = some stop ∧ s.returned = some moment ∧ ¬ s.FindsIdle (moment - stop)

/-- A relay that has returned before that has nothing in flight. -/
theorem Progress.inFlight_eq_nil (h : s.Progress) (hphase : s.relay.phase = .returned)
    (hintime : ¬ s.TimedOut) : s.relay.dispatcher.inFlight = [] := by
  cases h with
  | dispatching hno => cases hphase.symm.trans hno
  | draining _ _ hno => cases hphase.symm.trans hno
  | returned stop n _ hstopped hmoment _ _ _ hend =>
    refine (hend.resolve_right fun hlate => hintime ⟨stop, stop + n, hstopped, hmoment, ?_⟩).2
    rw [Nat.add_sub_cancel_left]
    exact hlate.1

/-- Every connection is that of an exchange, in the place of its number, to the backend for it. -/
theorem port_connection (settings : ExchangeSettings) (routes : RouteTable) (maxConcurrent : Nat)
    (network : Network) (drainTimeout channelRoom : Nat) (hnone : network.connections = [])
    (actions : List Action) {i : Nat} :
    let s := (start settings routes maxConcurrent network drainTimeout channelRoom).run actions
    i < s.surroundings.network.connections.length → ∃ m, s.begun[i]? = some m ∧
      (s.surroundings.network.connection i).port = routes.resolve m.topic := by
  intro s hi
  let first := start settings routes maxConcurrent network drainTimeout channelRoom
  have hfresh : first.IsOrderly := isOrderly_start _ _ _ _ _ _ hnone
  have horderly : s.IsOrderly := hfresh.run actions
  obtain ⟨moves, hmoves⟩ := first.exists_moves_run actions
  have hview : s.view = first.view.run moves := hmoves
  have hforwards : s.view.IsForwarding := by
    rw [hview]
    exact (Dispatcher.Session.isForwarding_start _ _ _ _).run hfresh.sound hfresh.line
      hfresh.account moves
  have hroutes : s.view.rules = first.view.rules := by
    rw [hview]
    exact first.view.rules_run moves
  have hlt : i < s.begun.length := by
    have hnextId : s.relay.dispatcher.tracker.nextId = s.begun.length := horderly.sound.nextId_eq
    have hlength : s.surroundings.network.connections.length = s.surroundings.starts.length :=
      horderly.account.length_eq
    have hstarts : s.surroundings.starts.length ≤ s.relay.dispatcher.tracker.nextId :=
      horderly.line.starts_length_le
    omega
  refine ⟨_, List.getElem?_eq_getElem hlt, ?_⟩
  refine (hforwards.target i _ (List.getElem?_eq_getElem hlt) hi).trans ?_
  exact congrArg (RouteTable.resolve · _) (congrArg (·.2.1) hroutes)

/-- A configuration with a number of slots that can be counted is enough to start a relay. -/
theorem start?_eq {c : Config} (hslots : c.exchange.maxConcurrent ≤ Dispatcher.maxSlots)
    (network : Network) :
    Relay.start? c network ({} : LocalBus) {} =
      some (start c.exchangeSettings c.routeTable c.exchange.maxConcurrent network
        c.lifecycle.drainTimeout (max 1 c.exchange.maxConcurrent)).relay := by
  rw [Relay.start?, Dispatcher.create?, if_neg (Nat.not_lt.2 hslots)]
  rfl

theorem takesIn_start (settings : ExchangeSettings) (routes : RouteTable) (maxConcurrent : Nat)
    (network : Network) (drainTimeout channelRoom : Nat) :
    (start settings routes maxConcurrent network drainTimeout channelRoom).TakesIn [] := by
  refine ⟨rfl, rfl, rfl, ?_, ?_⟩
  · rw [List.flatten_nil, Bytes.lastLine_of_not_mem List.not_mem_nil]
    rfl
  · rw [List.flatten_nil, Bytes.endedLines_of_not_mem List.not_mem_nil]
    rfl

/-- A session with no other input than a stream is one in which the stream goes on or is over. -/
theorem takesIn_or_hasTakenIn (h : s.TakesIn []) (horderly : s.IsOrderly) {actions : List Action}
    {pieces : List Bytes} {last : StreamEnd}
    (hinput : actions.filter Action.isExternal <+: pieces.map .deliver ++ [endAction last]) :
    (∃ fed more, pieces = fed ++ more ∧ (s.run actions).TakesIn fed) ∨
      (s.run actions).HasTakenIn (last.messages pieces.flatten) := by
  rcases List.prefix_concat_iff.1 hinput with hall | hportion
  · exact Or.inr (hasTakenIn_run h horderly actions hall)
  · obtain ⟨fed, ⟨more, hmore⟩, hfed⟩ := List.prefix_map_iff.1 hportion
    exact Or.inl ⟨fed, more, hmore.symm, takesIn_run h actions hfed⟩

/-- Without a signal a relay that chooses takes whatever waits. -/
theorem inbound_choose {m : Message} {rest : List Message} (hinbound : s.relay.inbound = m :: rest)
    (hphase : s.relay.phase = .dispatching) (hquiet : s.relay.isSignalled = false)
    (prefers : Preference) : (s.act (.choose prefers)).relay.inbound = rest := by
  show (s.choose prefers).relay.inbound = rest
  rcases s.choose_cases prefers with ⟨-, hnothing⟩ | ⟨-, ⟨n, others, hothers, heq⟩ | ⟨hwhy, -⟩⟩
  · cases hinbound.symm.trans (hnothing hphase).2.1
  · rw [heq]
    exact (List.cons.inj (hothers.symm.trans hinbound)).2
  · rw [hquiet, hinbound] at hwhy
    simp at hwhy

/-- **A stream is answered line by line.** A relay that is fed with a stream of bytes and with
nothing else begins one exchange for each line that has come and holds a message with a reply topic,
in the order of these lines, and none for any other. Its connections are those of exchanges, one
each at most, and whatever the receiver gets is part of the reply to one of the messages. A message
that waits is taken with the next choice, so that nothing is held up for good. When the relay
returns it has begun all these exchanges and counted them, and unless the time for draining is up
each has ended, with one marker behind the pieces of its reply if the bus is open. It does return
once the whole stream has come. -/
theorem stream_is_answered (c : Config) (hslots : c.exchange.maxConcurrent ≤ Dispatcher.maxSlots)
    (reachable : Bool) (backends : List (Port × Behaviour)) (elsewhere : Behaviour)
    (pieces : List Bytes) (last : StreamEnd) :
    let script : List Action := pieces.map .deliver ++ [endAction last]
    let answered := ((last.countedLines pieces.flatten).filterMap Wire.decode?).filter
      fun m => m.replyTopic ≠ ""
    ∃ r, Relay.start? c { reachable, backends, elsewhere } ({} : LocalBus) {} = some r ∧
      ∀ actions : List Action, actions.filter Action.isExternal <+: script →
        let s := ({ relay := r } : Session).run actions
        let network := s.surroundings.network
        (s.begun <+: answered ∧ (s.surroundings.ends ++
          s.relay.dispatcher.inFlight.map Exchange.id).Perm (List.range s.begun.length)) ∧
        (∀ i < network.connections.length, ∃ m, s.begun[i]? = some m ∧
          (network.connection i).port = c.routeTable.resolve m.topic) ∧
        (∀ p ∈ s.delivered ++ s.surroundings.bus.waiting, ∃ id m, s.begun[id]? = some m ∧
          p ∈ s.surroundings.publications id ∧ p.topic = m.replyTopic ∧
            p.correlation = m.correlation) ∧
        (∀ m rest prefers, s.relay.inbound = m :: rest →
          (s.act (.choose prefers)).relay.inbound = rest) ∧
        (s.relay.hasReturned = true → s.begun = answered ∧
          s.relay.dispatched = answered.length ∧
          (¬ s.TimedOut → ∀ id m, answered[id]? = some m →
            (∃ report, s.surroundings.reports id = [report]) ∧
              (s.surroundings.bus.isOpen = true → ∃ payloads, s.surroundings.publications id =
                Reply.chunks m payloads ++ [Reply.marker m payloads.length]))) ∧
        (actions.filter Action.isExternal = script → ∀ (choices : List Preference)
          (ticks : List (List Doing)),
            s.relay.inbound.length < choices.length → c.lifecycle.drainTimeout ≤ ticks.length →
              (s.run (choices.map .choose ++ ticks.map .tick)).relay.hasReturned = true) := by
  intro script answered
  refine ⟨_, start?_eq hslots _, fun actions hinput => ?_⟩
  intro s network
  let first := start c.exchangeSettings c.routeTable c.exchange.maxConcurrent
    { reachable, backends, elsewhere } c.lifecycle.drainTimeout (max 1 c.exchange.maxConcurrent)
  have hstart : first.TakesIn [] := takesIn_start _ _ _ _ _ _
  have hfresh : first.IsOrderly := isOrderly_start _ _ _ _ _ _ rfl
  have horderly : s.IsOrderly := hfresh.run actions
  have htallies := horderly.tallies
  have hsound : s.view.IsSound := horderly.sound
  have hanswered : (last.messages pieces.flatten).filter (fun m => m.replyTopic ≠ "") =
      answered := by
    simp only [answered, StreamEnd.messages, Wire.messages, funext Wire.message?_eq_decode?]
  have hfed : (∃ fed more, pieces = fed ++ more ∧ s.TakesIn fed) ∨
      s.HasTakenIn (last.messages pieces.flatten) :=
    takesIn_or_hasTakenIn hstart hfresh hinput
  have harrived : s.arrived <+: last.messages pieces.flatten := by
    rcases hfed with ⟨fed, more, hpieces, htakes⟩ | hread
    · rw [htakes.arrived_eq, hpieces, List.flatten_append]
      exact last.messages_prefix _ _
    · rw [hread.arrived_eq]
  have hbegun : s.begun <+: answered := by
    rw [← hanswered, htallies.begun_eq]
    exact (htallies.isPrefix.trans harrived).filter _
  have hnextId : s.relay.dispatcher.tracker.nextId = s.begun.length := hsound.nextId_eq
  have hlimit : s.relay.drainTimeout = c.lifecycle.drainTimeout := drainTimeout_run_eq first actions
  refine ⟨⟨hbegun, ?_⟩, fun i hi => ?_, fun p hp => hsound.exists_message hp,
    fun m rest prefers hinbound => ?_, fun hreturned => ?_,
    fun hall choices ticks hlength hlong => ?_⟩
  · rw [← hnextId]
    exact horderly.line.all
  · exact port_connection _ _ _ _ _ _ rfl actions hi
  · rcases hfed with ⟨fed, more, -, htakes⟩ | hread
    · exact inbound_choose hinbound htakes.phase_eq htakes.isSignalled prefers
    · have hphase : s.relay.phase = .dispatching := by
        by_contra hstopped
        cases hinbound.symm.trans (hread.taken_eq hstopped).2
      exact inbound_choose hinbound hphase (hread.isSignalled hphase) prefers
  · have hphase : s.relay.phase = .returned := by simpa [hasReturned] using hreturned
    -- A relay that has stopped has all messages of the stream, and has taken them.
    have htaken : s.taken = last.messages pieces.flatten := by
      rcases hfed with ⟨fed, more, -, htakes⟩ | hread
      · cases hphase.symm.trans htakes.phase_eq
      · exact (hread.taken_eq (by simp [hphase])).1
    have hall : s.begun = answered := by
      rw [htallies.begun_eq, htaken, hanswered]
    refine ⟨hall, hall ▸ htallies.dispatched_eq, fun hintime id m hm => ?_⟩
    rw [← hall] at hm
    exact hsound.completed (horderly.progress.inFlight_eq_nil hphase hintime) hm
  · have hread : s.HasTakenIn _ := hasTakenIn_run hstart hfresh actions hall
    have hstopped := phase_run_choose choices s (Or.inr hread.isReading) hlength
    rw [← hlimit, ← drainTimeout_run_eq s (choices.map .choose)] at hlong
    rw [run_append, hasReturned,
      (horderly.run (choices.map .choose)).phase_run_tick hstopped hlong]
    rfl

/-- A stream with a line that is no message, a blank one and a message without a reply topic, cut
within a line and without a line feed at its end. No backend is there, so that both replies are
nothing but their markers. -/
theorem stream_is_answered_cut :
    let pieces := [Bytes.ofString "[\"a\",\"x\",\"r/1\"]\nnot ",
      Bytes.ofString "json\n\n[\"b\",\"x\"]\n[\"a\",\"y\",\"r/2\"]"]
    let actions : List Action :=
      [.deliver pieces[0], .choose .message, .doing .settle, .deliver pieces[1], .endInput] ++
      List.replicate 3 (.choose .message) ++ [.tick [.settle]] ++ List.replicate 24 (.tick [])
    let answered : List Message := [⟨"a", [120], "r/1", none⟩, ⟨"a", [121], "r/2", none⟩]
    ({} : Config).exchange.maxConcurrent ≤ Dispatcher.maxSlots ∧
      ∃ r, Relay.start? {} {} ({} : LocalBus) {} = some r ∧
        let s := ({ relay := r } : Session).run actions
        s.relay.hasReturned = true ∧ s.begun = answered ∧ s.relay.dispatched = 2 ∧
          s.returned = some 25 ∧ ∀ id m, answered[id]? = some m → ∃ payloads,
            s.surroundings.publications id =
              Reply.chunks m payloads ++ [Reply.marker m payloads.length] := by
  intro pieces actions answered
  have hslots : ({} : Config).exchange.maxConcurrent ≤ Dispatcher.maxSlots := by decide
  obtain ⟨r, hr, hanswers⟩ := stream_is_answered {} hslots true [] .refuse pieces .ended
  -- The relay stays a variable, so that nothing but `decide` evaluates the session.
  have hrelay := Option.some.inj ((start?_eq hslots {}).symm.trans hr)
  refine ⟨hslots, r, hr, ?_⟩
  intro s
  have hinput : actions.filter Action.isExternal = pieces.map .deliver ++ [.endInput] := by
    decide +kernel
  have hexpected : ((StreamEnd.ended.countedLines pieces.flatten).filterMap Wire.decode?).filter
      (fun m => m.replyTopic ≠ "") = answered := by
    decide +kernel
  have hstates : s.relay.hasReturned = true ∧ s.stopped = some 0 ∧ s.returned = some 25 ∧
      s.counts[25]? = some 0 ∧ s.surroundings.bus.isOpen = true := by
    subst hrelay
    decide +kernel
  obtain ⟨hreturned, hstopped, hmoment, hcounts, hopen⟩ := hstates
  have hintime : ¬ s.TimedOut := by
    rintro ⟨stop, moment, hstop, hreturn, hlate⟩
    obtain rfl : 0 = stop := Option.some.inj (hstopped.symm.trans hstop)
    obtain rfl : 25 = moment := Option.some.inj (hmoment.symm.trans hreturn)
    exact hlate ⟨⟨1, rfl⟩, hcounts⟩
  obtain ⟨-, -, -, -, hafter, -⟩ := hanswers actions (by rw [hinput]; rfl)
  rw [hexpected] at hafter
  obtain ⟨hall, hcount, hcompleted⟩ := hafter hreturned
  exact ⟨hreturned, hall, hcount, hmoment, fun id m hm => (hcompleted hintime id m hm).2 hopen⟩

end Session

end Relay

end TopicRelay
