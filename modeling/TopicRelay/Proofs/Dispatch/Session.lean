import TopicRelay.Dispatcher
import TopicRelay.Bus.Local

/-!
# Sessions

A session is a dispatcher at work, with all that can happen to it: messages come, backends act on
their connections, time passes, exchanges go on, and a receiver takes what the bus holds until it
goes away. Each `Action` is one of these and no more. In particular exchanges may go on one by one,
in any order in which they have or get their slots, so that the lists of actions are all the ways in
which exchanges can interleave with each other and with everything else. That every exchange goes as
far as it comes (`Dispatcher.settle`) is an action of its own.

What an exchange in flight does when it is visited is said once, in `Dispatcher.visit_cases`.
-/

namespace TopicRelay

namespace Dispatcher

section
variable {β : Type}

/-- The exchange that begins for a message. -/
def exchangeFor (d : Dispatcher β) (m : Message) : Exchange where
  id := d.tracker.nextId
  port := d.routes.resolve m.topic
  message := m

theorem dispatch_of_eq (d : Dispatcher β) {m : Message} (h : m.replyTopic = "") :
    d.dispatch m = (none, { d with
      surroundings := Surroundings.log
        { d.surroundings with metrics := d.surroundings.metrics.recordDropped }
        (.dropped m) }) := by
  rw [dispatch, if_pos h]

theorem dispatch_of_ne (d : Dispatcher β) {m : Message} (h : m.replyTopic ≠ "") :
    d.dispatch m = (some d.tracker.nextId, { d with
      tracker := ⟨d.tracker.active + 1, d.tracker.nextId + 1⟩
      surroundings := { d.surroundings with
        metrics := d.surroundings.metrics.setActive (d.tracker.active + 1) }
      inFlight := d.inFlight ++ [d.exchangeFor m] }) := by
  rw [dispatch, if_neg h]
  rfl

variable [MessageBus β]

/-- A visit leaves an exchange without a slot waiting, or it lets the exchange go on and keeps it,
or it lets the exchange end, which gives back its slot. -/
theorem visit_cases (d : Dispatcher β) (e : Exchange) :
    (e.stage = .queued ∧ d.freeSlots = 0 ∧ d.visit e = (some e, d)) ∨
    ∃ slots,
      (e.stage = .queued ∧ d.freeSlots = slots + 1 ∨ e.stage ≠ .queued ∧ d.freeSlots = slots) ∧
      ((∃ stage s, e.advance d.settings d.now d.surroundings = (.continues stage, s) ∧
          d.visit e = (some { e with stage }, { d with freeSlots := slots, surroundings := s })) ∨
        ∃ report s, e.advance d.settings d.now d.surroundings = (.ends report, s) ∧
          d.visit e = (none, { d with
            tracker := (d.tracker.release s.metrics).1
            freeSlots := slots + 1
            surroundings := { s with metrics := (d.tracker.release s.metrics).2 } })) := by
  by_cases hqueued : e.stage = .queued
  · rcases hslots : d.freeSlots with _ | slots
    · refine Or.inl ⟨hqueued, rfl, ?_⟩
      rw [visit, if_pos hqueued, if_pos hslots]
    · -- It takes one of the slots and goes on at once.
      refine Or.inr ⟨slots, Or.inl ⟨hqueued, rfl⟩, ?_⟩
      rw [visit, if_pos hqueued, if_neg (by omega), run]
      rcases hturn : e.advance d.settings d.now d.surroundings with ⟨stage | report, s⟩
      · refine Or.inl ⟨stage, s, rfl, ?_⟩
        simp only [hslots, Nat.add_sub_cancel]
      · refine Or.inr ⟨report, s, rfl, ?_⟩
        simp only [hslots, Nat.add_sub_cancel]
  · refine Or.inr ⟨d.freeSlots, Or.inr ⟨hqueued, rfl⟩, ?_⟩
    rw [visit, if_neg hqueued, run]
    rcases hturn : e.advance d.settings d.now d.surroundings with ⟨stage | report, s⟩
    · exact Or.inl ⟨stage, s, rfl, rfl⟩
    · exact Or.inr ⟨report, s, rfl, rfl⟩

/-- Lets the exchange at a place of those in flight go on. One that waits for a slot is passed over
while another has waited for longer: it is taken for granted that exchanges queue for slots in the
order in which they were dispatched, whichever of them goes on first. -/
def proceed (d : Dispatcher β) (place : Nat) : Dispatcher β :=
  match d.inFlight[place]? with
  | none => d
  | some e =>
    if e.stage = .queued ∧ ∃ f ∈ d.inFlight.take place, f.stage = .queued then d
    else
      let (kept, visited) := d.visit e
      { visited with
        inFlight := d.inFlight.take place ++ kept.toList ++ d.inFlight.drop (place + 1) }

end

/-- What a backend does with a connection. -/
inductive Happening where
  | accept
  | refuse (reason : String)
  | allow (room : Nat)
  | write (b : Bytes)
  | finish (ending : Ending)
deriving DecidableEq, Repr

/-- The network after something has happened at the far end of a connection. -/
def Happening.apply (connection : Nat) (n : Network) : Happening → Network
  | .accept => n.accept connection
  | .refuse reason => n.refuse connection reason
  | .allow room => n.allow connection room
  | .write b => n.write connection b
  | .finish ending => n.finish connection ending

/-- One thing that happens in a session. -/
inductive Action where
  /-- A message comes. -/
  | dispatch (m : Message)
  | backend (connection : Nat) (h : Happening)
  /-- A millisecond passes, which no exchange has noticed yet. -/
  | clock
  /-- One exchange goes on. -/
  | proceed (place : Nat)
  /-- All exchanges go as far as they come. -/
  | settle
  /-- The receiver takes the oldest publication. -/
  | receive
  /-- The receiver goes away. -/
  | close
deriving DecidableEq, Repr

/-- The message for which an exchange begins with the action. -/
def Action.begins? : Action → Option Message
  | .dispatch m => if m.replyTopic = "" then none else some m
  | _ => none

/-- A dispatcher at work. -/
structure Session where
  dispatcher : Dispatcher LocalBus
  /-- The messages for which exchanges began, each in the place of the number of its exchange. -/
  begun : List Message := []
  /-- What the receiver has taken, first first. -/
  delivered : List Publication := []

namespace Session

/-- A session in which nothing has happened. -/
def start (settings : ExchangeSettings) (routes : RouteTable) (maxConcurrent : Nat)
    (network : Network) : Session where
  dispatcher := { settings, routes, maxConcurrent, surroundings := { network, bus := {} } }

/-- What exchanges have done in the session. -/
def surroundings (s : Session) : Surroundings LocalBus := s.dispatcher.surroundings

/-- Whether an exchange has begun and not ended. -/
def IsInFlight (s : Session) (id : Nat) : Prop := ∃ e ∈ s.dispatcher.inFlight, e.id = id

/-- The session after an action. -/
def act (s : Session) : Action → Session
  | .dispatch m =>
    match s.dispatcher.dispatch m with
    | (some _, dispatcher) => { s with dispatcher, begun := s.begun ++ [m] }
    | (none, dispatcher) => { s with dispatcher }
  | .backend connection h =>
    { s with dispatcher := s.dispatcher.onNetwork fun n => h.apply connection n }
  | .clock => { s with dispatcher := { s.dispatcher with now := s.dispatcher.now + 1 } }
  | .proceed place => { s with dispatcher := s.dispatcher.proceed place }
  | .settle => { s with dispatcher := s.dispatcher.settle }
  | .receive =>
    let (taken, bus) := s.surroundings.bus.receive
    { s with
      dispatcher := s.dispatcher.onBus fun _ => bus, delivered := s.delivered ++ taken.toList }
  | .close => { s with dispatcher := s.dispatcher.onBus LocalBus.close }

theorem act_dispatch_of_ne (s : Session) {m : Message} (h : m.replyTopic ≠ "") :
    s.act (.dispatch m) =
      { s with dispatcher := (s.dispatcher.dispatch m).2, begun := s.begun ++ [m] } := by
  rw [act, dispatch_of_ne _ h]

theorem act_dispatch_of_eq (s : Session) {m : Message} (h : m.replyTopic = "") :
    s.act (.dispatch m) = { s with dispatcher := (s.dispatcher.dispatch m).2 } := by
  rw [act, dispatch_of_eq _ h]

/-- The session after actions. -/
def run (s : Session) (actions : List Action) : Session := actions.foldl act s

theorem run_append (s : Session) (actions more : List Action) :
    s.run (actions ++ more) = (s.run actions).run more :=
  List.foldl_append

/-- The messages for which exchanges have begun are those that have come with a reply topic. -/
theorem begun_run (s : Session) (actions : List Action) :
    (s.run actions).begun = s.begun ++ actions.filterMap Action.begins? := by
  induction actions generalizing s with
  | nil => exact (List.append_nil _).symm
  | cons a rest ih =>
    have hact : (s.act a).begun = s.begun ++ a.begins?.toList := by
      cases a with
      | dispatch m =>
        by_cases hreply : m.replyTopic = ""
        · rw [act_dispatch_of_eq s hreply, Action.begins?, if_pos hreply]
          exact (List.append_nil _).symm
        · rw [act_dispatch_of_ne s hreply, Action.begins?, if_neg hreply]
          rfl
      | _ => exact (List.append_nil _).symm
    have hrun : s.run (a :: rest) = (s.act a).run rest := rfl
    rw [hrun, ih, hact, List.append_assoc, List.filterMap_cons]
    rcases a.begins? with _ | m <;> rfl

/-- From the start of a session exchanges have begun for all messages with a reply topic. -/
theorem begun_run_start (settings : ExchangeSettings) (routes : RouteTable) (maxConcurrent : Nat)
    (network : Network) (actions : List Action) :
    ((start settings routes maxConcurrent network).run actions).begun =
      actions.filterMap Action.begins? :=
  begun_run _ actions

end Session

end Dispatcher

end TopicRelay
