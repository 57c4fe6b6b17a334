import TopicRelay.Relay
import TopicRelay.Proofs.Dispatch.Resources

/-!
# Sessions of a relay

A session of a relay is a relay at work, with all that can happen to it: messages come, from a
stream of bytes or otherwise, the input ends, a shutdown is signalled, the relay chooses what to do
next, and around it backends act on their connections and exchanges go on. Nothing but the clock
takes time. Within a millisecond the exchanges may have done anything before a draining relay looks
at their number, and anything else may happen after that look.

A session also keeps a record: which messages came, which of them the relay has taken and for which
exchanges have begun, when the relay stopped and returned, and how many exchanges were in flight
whenever it could have looked. Its exchanges are a session of their own (`Session.view`), so that
whatever is known of those is known here.

What a relay does when it is left to itself is one session among these (`relay_settle`,
`relay_tick`). What an action can make of a session is said once, in `Session.step_act`.
-/

namespace TopicRelay

namespace Relay

section
variable {β : Type}

/-- A relay that drains looks at the exchanges in flight. -/
def look (r : Relay β) : Relay β :=
  match r.phase with
  | .draining wait => r.drain (wait.look r.dispatcher.now r.dispatcher.tracker.active)
  | _ => r

/-- The message that the relay takes when it chooses. -/
def takes? (prefers : Preference) (r : Relay β) : Option Message :=
  if r.phase ≠ .dispatching ∨ (r.isSignalled = true ∧ prefers = .signal) then none
  else r.inbound.head?

/-- A choice takes the next message, or stops because of the signal or the end of the input, or
leaves everything as it is. -/
theorem choose_cases (prefers : Preference) (r : Relay β) :
    (r.phase ≠ .dispatching ∧ r.takes? prefers = none ∧ r.choose prefers = r) ∨
    r.phase = .dispatching ∧
      ((∃ m rest, r.inbound = m :: rest ∧ r.takes? prefers = some m ∧
          r.choose prefers = { r with inbound := rest }.dispatch m) ∨
        ((r.isSignalled = true ∨ r.inbound = [] ∧ r.isReading = false) ∧
          r.takes? prefers = none ∧ r.choose prefers = r.stop) ∨
        (r.isSignalled = false ∧ r.inbound = [] ∧ r.isReading = true) ∧
          r.takes? prefers = none ∧ r.choose prefers = r) := by
  by_cases hphase : r.phase = .dispatching
  · refine Or.inr ⟨hphase, ?_⟩
    unfold takes? choose
    rw [if_neg (not_not_intro hphase)]
    simp only [hphase, ne_eq, not_true_eq_false, false_or]
    rcases hinbound : r.inbound with _ | ⟨m, rest⟩
    · rcases hsignal : r.isSignalled
      · rcases hreading : r.isReading
        · exact Or.inr (Or.inl ⟨Or.inr ⟨rfl, rfl⟩, by simp, by simp⟩)
        · exact Or.inr (Or.inr ⟨⟨rfl, rfl, rfl⟩, by simp, by simp⟩)
      · exact Or.inr (Or.inl ⟨Or.inl rfl, by simp, by simp⟩)
    · by_cases hsignal : r.isSignalled = true ∧ prefers = .signal
      · exact Or.inr (Or.inl ⟨Or.inl hsignal.1, by simp [hsignal], by simp [hsignal]⟩)
      · refine Or.inl ⟨m, rest, rfl, ?_, ?_⟩
        · rw [if_neg hsignal]
          rfl
        · have hno : ¬ (r.isSignalled && decide (prefers = .signal)) = true := by
            rw [Bool.and_eq_true, decide_eq_true_eq]
            exact hsignal
          exact if_neg hno
  · refine Or.inl ⟨hphase, ?_, ?_⟩
    · rw [takes?, if_pos (Or.inl hphase)]
    · rw [choose, if_pos hphase]

end

/-- What can happen around a relay at one moment. -/
inductive Doing where
  | backend (connection : Nat) (h : Dispatcher.Happening)
  /-- One exchange goes on. -/
  | proceed (place : Nat)
  /-- All exchanges go as far as they come. -/
  | settle
  /-- The receiver takes the oldest publication. -/
  | receive
  /-- The receiver goes away. -/
  | close
deriving DecidableEq, Repr

/-- What it is for the exchanges. -/
def Doing.action : Doing → Dispatcher.Action
  | .backend connection h => .backend connection h
  | .proceed place => .proceed place
  | .settle => .settle
  | .receive => .receive
  | .close => .close

theorem Doing.dispatch_not_mem_map (doings : List Doing) (m : Message) :
    .dispatch m ∉ doings.map action := by
  intro hmem
  obtain ⟨d, -, hd⟩ := List.mem_map.1 hmem
  cases d <;> cases hd

theorem Doing.clock_not_mem_map (doings : List Doing) : .clock ∉ doings.map action := by
  intro hmem
  obtain ⟨d, -, hd⟩ := List.mem_map.1 hmem
  cases d <;> cases hd

/-- One thing that happens in a session. -/
inductive Action where
  /-- A message comes. -/
  | arrive (m : Message)
  /-- A piece of the input comes. -/
  | deliver (b : Bytes)
  | endInput
  | failInput
  /-- A shutdown is signalled. -/
  | trigger
  /-- Whoever could signal a shutdown goes away. -/
  | forsake
  /-- The relay chooses what to do next. -/
  | choose (prefers : Preference)
  | doing (d : Doing)
  /-- A millisecond passes, and this happens in it before a relay that drains looks. -/
  | tick (before : List Doing)
deriving DecidableEq, Repr

/-- A relay at work. -/
structure Session where
  relay : Relay LocalBus
  /-- The messages that came in, first first. -/
  arrived : List Message := []
  /-- The messages that the relay has taken. -/
  taken : List Message := []
  /-- The messages for which exchanges began, each in the place of the number of its exchange. -/
  begun : List Message := []
  /-- What the receiver has taken. -/
  delivered : List Publication := []
  /-- When the relay stopped taking messages. -/
  stopped : Option Nat := none
  returned : Option Nat := none
  /-- The numbers of exchanges in flight at the stop and at every millisecond after it, as long as
  the relay had not returned. -/
  counts : List Nat := []

namespace Session

/-- A session in which nothing has happened. The relay listens to one coordinator. -/
def start (settings : ExchangeSettings) (routes : RouteTable) (maxConcurrent : Nat)
    (network : Network) (drainTimeout channelRoom : Nat) : Session where
  relay := {
    dispatcher := { settings, routes, maxConcurrent, surroundings := { network, bus := {} } }
    drainTimeout, channelRoom, shutdown := { subscribers := [some 0] }, subscriber := 0 }

/-- The session of the exchanges. -/
def view (s : Session) : Dispatcher.Session where
  dispatcher := s.relay.dispatcher
  begun := s.begun
  delivered := s.delivered

/-- What exchanges have done in the session. -/
def surroundings (s : Session) : Surroundings LocalBus := s.relay.dispatcher.surroundings

/-- The time. -/
def now (s : Session) : Nat := s.relay.dispatcher.now

/-- The session in which the exchanges have come so far. -/
def withView (s : Session) (v : Dispatcher.Session) : Session :=
  { s with relay.dispatcher := v.dispatcher, begun := v.begun, delivered := v.delivered }

/-- Notes a moment at which the relay has looked or could have looked. -/
def note (s : Session) : Session :=
  { s with
    counts := s.counts ++ [s.relay.dispatcher.inFlight.length]
    returned := if s.relay.hasReturned then some s.now else none }

/-- The relay chooses. -/
def choose (s : Session) (prefers : Preference) : Session :=
  let relay := s.relay.choose prefers
  match s.relay.takes? prefers with
  | some m => { s with
      relay, taken := s.taken ++ [m], begun := (s.view.act (.dispatch m)).begun }
  | none =>
    if relay.phase = s.relay.phase then { s with relay }
    else { s with relay, stopped := some s.now }.note

/-- The relay looks at the exchanges in flight if it drains. -/
def look (s : Session) : Session :=
  match s.relay.phase with
  | .draining _ => { s with relay := s.relay.look }.note
  | _ => s

/-- The session after an action. -/
def act (s : Session) : Action → Session
  | .arrive m =>
    if s.relay.isReading then
      { s with relay := s.relay.forward [m], arrived := s.arrived ++ [m] }
    else s
  | .deliver b => { s with
      relay := s.relay.deliver b
      arrived := s.arrived ++ if s.relay.isReading then (s.relay.intake.feed b).1 else [] }
  | .endInput => { s with
      relay := s.relay.endInput
      arrived := s.arrived ++ if s.relay.isReading then s.relay.intake.finish else [] }
  | .failInput => { s with relay := s.relay.failInput }
  | .trigger => { s with relay := s.relay.trigger.2 }
  | .forsake => { s with relay.shutdown := s.relay.shutdown.removeCoordinator }
  | .choose prefers => s.choose prefers
  | .doing d => s.withView (s.view.act d.action)
  | .tick before => (s.withView ((s.view.act .clock).run (before.map Doing.action))).look

/-- The session after actions. -/
def run (s : Session) (actions : List Action) : Session := actions.foldl act s

theorem run_append (s : Session) (actions more : List Action) :
    s.run (actions ++ more) = (s.run actions).run more :=
  List.foldl_append

/-! ## What happens to the relay -/

theorem relay_choose (s : Session) (prefers : Preference) :
    (s.choose prefers).relay = s.relay.choose prefers := by
  rw [choose]
  rcases s.relay.takes? prefers with _ | m
  · dsimp only
    split <;> rfl
  · rfl

theorem relay_look (s : Session) : s.look.relay = s.relay.look := by
  unfold look Relay.look
  split <;> rfl

/-- Choices that a relay makes one after the other. -/
theorem relay_run_choose (s : Session) (prefers : Preference) (n : Nat) :
    (s.run (List.replicate n (.choose prefers))).relay = s.relay.chooseAll prefers n := by
  induction n generalizing s with
  | zero => rfl
  | succ n ih =>
    have hrest := ih (s.choose prefers)
    rw [relay_choose] at hrest
    exact hrest

/-- A relay that is left to itself at a moment. -/
theorem relay_settle (s : Session) (prefers : Preference) :
    (s.run (List.replicate (s.relay.inbound.length + 1) (.choose prefers) ++
      [.doing .settle])).relay = s.relay.settle prefers := by
  rw [run_append]
  exact congrArg (fun r : Relay LocalBus => r.onDispatcher Dispatcher.settle)
    (s.relay_run_choose prefers _)

/-- A relay that is left to itself for a millisecond. -/
theorem relay_tick (s : Session) : (s.act (.tick [.settle])).relay = s.relay.tick :=
  relay_look _

/-! ## What can happen at all -/

/-- The session in which the relay has taken a message. -/
def take (s : Session) (m : Message) (rest : List Message) : Session :=
  { s with
    relay := { s.relay with inbound := rest }.dispatch m
    taken := s.taken ++ [m]
    begun := (s.view.act (.dispatch m)).begun }

/-- The session in which the relay has just stopped. -/
def stop (s : Session) : Session :=
  { s with relay := s.relay.stop, stopped := some s.now }.note

/-- The session in which exchanges have gone on. -/
def goOn (s : Session) (doings : List Doing) : Session :=
  s.withView (s.view.run (doings.map Doing.action))

/-- The session in which a millisecond has passed. -/
def tick (s : Session) (doings : List Doing) : Session :=
  (s.withView ((s.view.act .clock).run (doings.map Doing.action))).look

/-- What no input and no signal changes of a relay. -/
def engine (r : Relay LocalBus) : Dispatcher LocalBus × Nat × Nat × RelayPhase :=
  (r.dispatcher, r.drainTimeout, r.dispatched, r.phase)

/-- What an action makes of a session. -/
inductive Step (s : Session) : Session → Prop
  /-- Messages come in, or the means by which they come or by which the relay is to stop change. -/
  | input (r : Relay LocalBus) (messages : List Message) (hengine : engine r = engine s.relay)
      (hinbound : s.relay.phase ≠ .returned → r.inbound = s.relay.inbound ++ messages) :
      Step s { s with relay := r, arrived := s.arrived ++ messages }
  | take (m : Message) (rest : List Message) (hphase : s.relay.phase = .dispatching)
      (hinbound : s.relay.inbound = m :: rest) : Step s (s.take m rest)
  | stop (hphase : s.relay.phase = .dispatching)
      (hwhy : s.relay.isSignalled = true ∨ s.relay.inbound = [] ∧ s.relay.isReading = false) :
      Step s s.stop
  | goOn (doings : List Doing) : Step s (s.goOn doings)
  | tick (doings : List Doing) : Step s (s.tick doings)

theorem phase_drain (r : Relay LocalBus) (wait : IdleWait) :
    (r.drain wait).phase ≠ .dispatching := by
  unfold drain
  split <;> simp [conclude]

theorem phase_stop (r : Relay LocalBus) : r.stop.phase ≠ .dispatching := phase_drain r _

/-- A relay that chooses takes a message, stops or leaves everything as it is. It does the last only
after its stop or when there is nothing to choose. -/
theorem choose_cases (s : Session) (prefers : Preference) :
    (s.choose prefers = s ∧ (s.relay.phase = .dispatching →
        s.relay.isSignalled = false ∧ s.relay.inbound = [] ∧ s.relay.isReading = true)) ∨
    s.relay.phase = .dispatching ∧
      ((∃ m rest, s.relay.inbound = m :: rest ∧ s.choose prefers = s.take m rest) ∨
        (s.relay.isSignalled = true ∨ s.relay.inbound = [] ∧ s.relay.isReading = false) ∧
          s.choose prefers = s.stop) := by
  rcases Relay.choose_cases prefers s.relay with ⟨hphase, htakes, hrelay⟩ | ⟨hphase,
    ⟨m, rest, hinbound, htakes, hrelay⟩ | ⟨hwhy, htakes, hrelay⟩ | ⟨hwhy, htakes, hrelay⟩⟩
  · refine Or.inl ⟨?_, fun h => absurd h hphase⟩
    simp only [choose, htakes, hrelay, if_true]
  · refine Or.inr ⟨hphase, Or.inl ⟨m, rest, hinbound, ?_⟩⟩
    simp only [choose, htakes, hrelay, take]
  · refine Or.inr ⟨hphase, Or.inr ⟨hwhy, ?_⟩⟩
    have hne : s.relay.stop.phase ≠ s.relay.phase := hphase ▸ phase_stop s.relay
    simp only [choose, htakes, hrelay, if_neg hne, stop]
  · refine Or.inl ⟨?_, fun _ => hwhy⟩
    simp only [choose, htakes, hrelay, if_true]

theorem engine_forward (r : Relay LocalBus) (messages : List Message) :
    engine (r.forward messages) = engine r := by
  unfold forward
  split <;> rfl

/-- Messages that come before the return wait for the relay. -/
theorem forward_of_ne {r : Relay LocalBus} (h : r.phase ≠ .returned) (messages : List Message) :
    r.forward messages = { r with inbound := r.inbound ++ messages } := by
  have hno : ¬ r.hasReturned = true := by simpa [hasReturned] using h
  rw [forward, if_neg hno]

theorem inbound_forward (r : Relay LocalBus) (messages : List Message) (h : r.phase ≠ .returned) :
    (r.forward messages).inbound = r.inbound ++ messages := by
  rw [forward_of_ne h]

/-- Every action is one of these steps. -/
theorem step_act (s : Session) (a : Action) : s.Step (s.act a) := by
  have hsame : s.Step s := .goOn []
  have hquiet (r : Relay LocalBus) (hengine : engine r = engine s.relay)
      (hinbound : r.inbound = s.relay.inbound) : s.Step { s with relay := r } := by
    have hstep := Step.input r [] hengine fun _ => hinbound.trans (List.append_nil _).symm
    rwa [List.append_nil] at hstep
  cases a with
  | arrive m =>
    simp only [act]
    split
    · exact .input _ _ (engine_forward _ _) (inbound_forward _ _)
    · exact hsame
  | deliver b =>
    by_cases hreading : s.relay.isReading = true
    · simp only [act, Relay.deliver, if_pos hreading]
      exact .input _ _ (engine_forward _ _)
        (inbound_forward { s.relay with intake := (s.relay.intake.feed b).2 } _)
    · simp only [act, Relay.deliver, if_neg hreading, List.append_nil]
      exact hsame
  | endInput =>
    by_cases hreading : s.relay.isReading = true
    · simp only [act, Relay.endInput, if_pos hreading]
      exact .input _ _ (engine_forward s.relay _) (inbound_forward s.relay _)
    · simp only [act, Relay.endInput, if_neg hreading, List.append_nil]
      exact hsame
  | failInput => exact hquiet s.relay.failInput rfl rfl
  | trigger => exact hquiet s.relay.trigger.2 rfl rfl
  | forsake => exact hquiet _ rfl rfl
  | choose prefers =>
    have hact : s.act (.choose prefers) = s.choose prefers := rfl
    rw [hact]
    rcases s.choose_cases prefers with ⟨heq, -⟩ | ⟨hphase, ⟨m, rest, hinbound, heq⟩ | ⟨hwhy, heq⟩⟩
    · rw [heq]
      exact hsame
    · rw [heq]
      exact .take m rest hphase hinbound
    · rw [heq]
      exact .stop hphase hwhy
  | doing d => exact .goOn [d]
  | tick before => exact .tick before

/-! ## What happens to the exchanges -/

theorem dispatcher_drain (r : Relay LocalBus) (wait : IdleWait) :
    (r.drain wait).dispatcher = r.dispatcher := by
  unfold drain
  split <;> rfl

theorem view_take (s : Session) (m : Message) (rest : List Message) :
    (s.take m rest).view = s.view.act (.dispatch m) := by
  by_cases hreply : m.replyTopic = ""
  · simp only [take, Relay.dispatch, view, Dispatcher.Session.act,
      Dispatcher.dispatch_of_eq _ hreply]
  · simp only [take, Relay.dispatch, view, Dispatcher.Session.act,
      Dispatcher.dispatch_of_ne _ hreply]

theorem view_stop (s : Session) : s.stop.view = s.view := by
  have hdispatcher : s.relay.stop.dispatcher = s.relay.dispatcher := dispatcher_drain _ _
  simp only [stop, note, view, hdispatcher]

theorem look_of_draining {s : Session} {wait : IdleWait} (h : s.relay.phase = .draining wait) :
    s.look = { s with
      relay := s.relay.drain (wait.look s.now s.relay.dispatcher.tracker.active) }.note := by
  simp only [look, Relay.look, h, now]

theorem look_of_not_draining {s : Session} (h : ∀ wait, s.relay.phase ≠ .draining wait) :
    s.look = s := by
  unfold look
  split
  · exact absurd ‹_› (h _)
  · rfl

theorem view_look (s : Session) : s.look.view = s.view := by
  rcases hphase : s.relay.phase with _ | wait | _
  · rw [look_of_not_draining (by simp [hphase])]
  · rw [look_of_draining hphase]
    simp only [note, view, dispatcher_drain]
  · rw [look_of_not_draining (by simp [hphase])]

/-- The exchanges have a session of their own. No exchange begins in it without a message that the
relay takes. -/
theorem Step.exists_moves {s t : Session} (h : s.Step t) :
    ∃ moves, t.view = s.view.run moves ∧
      (s.relay.phase ≠ .dispatching → ∀ m, .dispatch m ∉ moves) := by
  cases h with
  | input r messages hengine =>
    refine ⟨[], ?_, fun _ _ => List.not_mem_nil⟩
    simp only [engine, Prod.mk.injEq] at hengine
    simp only [view, hengine.1]
    rfl
  | take m rest hphase => exact ⟨[.dispatch m], s.view_take m rest, fun h => absurd hphase h⟩
  | stop => exact ⟨[], s.view_stop, fun _ _ => List.not_mem_nil⟩
  | goOn doings => exact ⟨_, rfl, fun _ => Doing.dispatch_not_mem_map doings⟩
  | tick doings =>
    refine ⟨.clock :: doings.map Doing.action, view_look _, fun _ m hmem => ?_⟩
    rcases List.mem_cons.1 hmem with hclock | hmem
    · cases hclock
    · exact Doing.dispatch_not_mem_map doings m hmem

/-- What every step keeps is kept by actions. -/
theorem run_induction {P : Session → Prop} (hstep : ∀ s t, s.Step t → P s → P t) {s : Session}
    (h : P s) (actions : List Action) : P (s.run actions) := by
  induction actions generalizing s with
  | nil => exact h
  | cons a rest ih => exact ih (hstep s _ (s.step_act a) h)

theorem exists_moves_run (s : Session) (actions : List Action) :
    ∃ moves, (s.run actions).view = s.view.run moves := by
  refine run_induction (P := fun t => ∃ moves, t.view = s.view.run moves)
    (fun t u hstep hbefore => ?_) ⟨[], rfl⟩ actions
  obtain ⟨moves, hview⟩ := hbefore
  obtain ⟨more, hmore, -⟩ := hstep.exists_moves
  refine ⟨moves ++ more, ?_⟩
  rw [Dispatcher.Session.run_append, ← hview]
  exact hmore

end Session

end Relay

end TopicRelay
