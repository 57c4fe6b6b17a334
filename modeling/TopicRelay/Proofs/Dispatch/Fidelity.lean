import TopicRelay.Proofs.Dispatch.Reading

/-!
# Replies carry what backends write

Which bytes are written on a connection is read off the actions of a session (`Session.written`).
As long as the bus is open they are what the exchange on the connection has published and what it
can still read, or it has ended. `IsFaithful` is the invariant, which keeps what can be lost apart:
nothing but what has arrived and was not looked at before the deadline or a reset.

Exchanges that attend to what happens (`Action.attended`) go as far as they come before time passes
and before a connection is reset. Then nothing is lost (`IsPrompt`), and a reply is complete exactly
if the bytes that are written hold a complete response (`replies_carry_what_is_written`).
-/

namespace TopicRelay

open Surroundings (Writes)

namespace Dispatcher

/-! ## What others do -/

/-- An exchange that is not in flight is left as it is when others go on, all of them or one, and so
is whether the bus is open. -/
theorem Keeps.visits_spare {begun : List Message} {delivered : List Publication}
    {d : Dispatcher LocalBus} {id : Nat} (h : Keeps begun delivered d.inFlight d)
    (hline : InLine d.inFlight d) (hno : ∀ e ∈ d.inFlight, e.id ≠ id) :
    let IsSpared := fun (d' : Dispatcher LocalBus) =>
      d'.surroundings.history id = d.surroundings.history id ∧
        d'.surroundings.bus.isOpen = d.surroundings.bus.isOpen ∧ ∀ e ∈ d'.inFlight, e.id ≠ id
    IsSpared d.settle ∧ ∀ place, IsSpared (d.proceed place) := by
  have hall := hline.forall_visits
    (P := fun es d' => Keeps begun delivered es d' ∧
      d'.surroundings.history id = d.surroundings.history id ∧
      d'.surroundings.bus.isOpen = d.surroundings.bus.isOpen ∧ ∀ f ∈ es, f.id ≠ id)
    (fun before e after d' _ _ ⟨hkeeps, hhistory, hopen, hout⟩ => by
      have hwrites := hkeeps.writes_visit
      have hne := hout e (Keeps.mem_middle.2 (Or.inl rfl))
      refine ⟨hkeeps.visit, (hwrites.history_eq id hne.symm).trans hhistory,
        hwrites.isOpen_eq.trans hopen, fun f hf => ?_⟩
      rcases mem_visited.1 hf with hf | hf
      · rw [id_of_visit f hf]
        exact hne
      · exact hout f (Keeps.mem_middle.2 (Or.inr hf)))
    (fun _ _ _ h => ⟨h.1.of_history rfl (fun _ => rfl) (fun hc => hc) h.1.delivers, h.2⟩)
    ⟨h, rfl, rfl, hno⟩
  exact ⟨hall.1.2, fun place => (hall.2 place).2⟩

namespace Session

/-- Nobody opens a bus again. -/
theorem IsSound.isOpen_of_act {s : Session} (h : s.IsSound) (hline : s.IsInLine) {a : Action}
    (hopen : (s.act a).surroundings.bus.isOpen = true) : s.surroundings.bus.isOpen = true := by
  -- The next number belongs to no exchange yet.
  have hnew : ∀ e ∈ s.dispatcher.inFlight, e.id ≠ s.begun.length := fun e he =>
    Nat.ne_of_lt (h.id_lt he)
  cases a with
  | dispatch m =>
    by_cases hreply : m.replyTopic = ""
    · rw [act_dispatch_of_eq s hreply, dispatch_of_eq _ hreply] at hopen
      exact hopen
    · rw [act_dispatch_of_ne s hreply, dispatch_of_ne _ hreply] at hopen
      exact hopen
  | proceed place => exact ((Keeps.visits_spare h hline hnew).2 place).2.1 ▸ hopen
  | settle => exact (Keeps.visits_spare h hline hnew).1.2.1 ▸ hopen
  | receive => exact s.surroundings.bus.receive_waiting.2 ▸ hopen
  | close => cases hopen
  | _ => exact hopen

/-- An exchange that has ended does nothing any more. -/
theorem IsSound.act_spares {s : Session} (h : s.IsSound) (hline : s.IsInLine) {id : Nat}
    (hlt : id < s.begun.length) (hno : ¬ s.IsInFlight id) (a : Action) :
    (s.act a).surroundings.history id = s.surroundings.history id ∧
      id < (s.act a).begun.length ∧ ¬ (s.act a).IsInFlight id := by
  have hout : ∀ e ∈ s.dispatcher.inFlight, e.id ≠ id := fun e he heq => hno ⟨e, he, heq⟩
  cases a with
  | dispatch m =>
    by_cases hreply : m.replyTopic = ""
    · rw [act_dispatch_of_eq s hreply, dispatch_of_eq _ hreply]
      exact ⟨Surroundings.history_log_of_ne nofun, hlt, hno⟩
    · rw [act_dispatch_of_ne s hreply, dispatch_of_ne _ hreply]
      refine ⟨rfl, ?_, ?_⟩
      · rw [List.length_append]
        exact Nat.lt_of_lt_of_le hlt (Nat.le_add_right _ _)
      · rintro ⟨e, he, heq⟩
        rcases List.mem_append.1 he with he | he
        · exact hout e he heq
        · rw [List.mem_singleton.1 he] at heq
          have hnext := h.nextId_eq
          change s.dispatcher.tracker.nextId = id at heq
          omega
  | proceed place =>
    obtain ⟨hhistory, -, hstays⟩ := (Keeps.visits_spare h hline hout).2 place
    exact ⟨hhistory, hlt, fun ⟨e, he, heq⟩ => hstays e he heq⟩
  | settle =>
    obtain ⟨hhistory, -, hstays⟩ := (Keeps.visits_spare h hline hout).1
    exact ⟨hhistory, hlt, fun ⟨e, he, heq⟩ => hstays e he heq⟩
  | _ => exact ⟨rfl, hlt, hno⟩

/-- Nothing is published for an exchange that has ended. -/
theorem IsSound.publications_run {s : Session} (h : s.IsSound) (hline : s.IsInLine) {id : Nat}
    (hlt : id < s.begun.length) (hno : ¬ s.IsInFlight id) (more : List Action) :
    (s.run more).surroundings.publications id = s.surroundings.publications id := by
  induction more generalizing s with
  | nil => rfl
  | cons a rest ih =>
    obtain ⟨hhistory, hlt', hno'⟩ := h.act_spares hline hlt hno a
    have hrest := ih (h.act a) (hline.act a) hlt' hno'
    rw [Surroundings.publications, Surroundings.publications, hhistory] at hrest
    exact hrest

/-! ## What backends write -/

/-- What a backend writes on the connection at a place when an action happens. -/
def puts (s : Session) (place : Nat) : Action → Bytes
  | .backend connection h =>
    if connection = place then h.puts (s.surroundings.network.connection place) else []
  | _ => []

/-- What a backend writes on the connection at a place while actions happen. -/
def written (s : Session) (place : Nat) : List Action → Bytes
  | [] => []
  | a :: rest => s.puts place a ++ (s.act a).written place rest

theorem written_append (s : Session) (place : Nat) (actions more : List Action) :
    s.written place (actions ++ more) =
      s.written place actions ++ (s.run actions).written place more := by
  induction actions generalizing s with
  | nil => rfl
  | cons a rest ih =>
    have hrun : s.run (a :: rest) = (s.act a).run rest := rfl
    rw [List.cons_append, written, ih, written, hrun, List.append_assoc]

/-- Whether every exchange in flight looks in time at what has arrived for it, so that nothing is
lost if they all go on now, unless something may be. -/
def Attends (lost : Prop) (s : Session) : Prop :=
  s.surroundings.bus.isOpen = true →
    ∀ e ∈ s.dispatcher.inFlight, s.dispatcher.Loses e → lost

/-- The exchanges of the session have read what backends `wrote`. -/
structure IsFaithful (lost : Prop) (wrote : Nat → Bytes) (s : Session) : Prop where
  sound : s.IsSound
  line : s.IsInLine
  account : s.IsAccounted
  size : 0 < s.dispatcher.settings.readChunkSize
  faithful : s.surroundings.bus.isOpen = true →
    Faithful lost s.begun wrote s.dispatcher.inFlight s.dispatcher

section
variable {lost : Prop} {wrote : Nat → Bytes} {s : Session}

theorem isFaithful_start {settings : ExchangeSettings} (hsize : 0 < settings.readChunkSize)
    (routes : RouteTable) (maxConcurrent : Nat) {network : Network}
    (h : network.connections = []) :
    (start settings routes maxConcurrent network).IsFaithful lost fun _ => [] := by
  refine ⟨isSound_start _ _ _ _, isInLine_start _ _ _ _, isAccounted_start _ _ _ h, hsize,
    fun _ => ⟨?_, fun _ _ => rfl, ?_, ?_⟩⟩
  · intro i j hmem
    cases hmem
  · intro e he
    cases he
  · intro id m hm
    cases hm

theorem IsFaithful.orderly (h : s.IsFaithful lost wrote)
    (hopen : s.surroundings.bus.isOpen = true) :
    Orderly s.begun s.delivered s.dispatcher.inFlight s.dispatcher :=
  ⟨h.sound, h.line, h.account, hopen, h.size⟩

/-- An exchange in flight that has asked for a connection has published what was written on it, up
to what it can still read. -/
theorem IsFaithful.exists_payloads (h : s.IsFaithful lost wrote)
    (hopen : s.surroundings.bus.isOpen = true) {e : Exchange} (he : e ∈ s.dispatcher.inFlight)
    {place : Nat} (hconnected : .connected e.id place ∈ s.surroundings.events) :
    ∃ payloads, s.surroundings.publications e.id = Reply.chunks e.message payloads ∧
      s.surroundings.reports e.id = [] ∧ IsRead s.dispatcher.settings payloads ∧
      (Framer.ofPieces s.dispatcher.settings.maxHeaderBytes payloads).progress = .incomplete ∧
      payloads.flatten ++ (s.surroundings.network.connection place).unread = wrote e.id ∧
      (s.dispatcher.IsCaughtUp e → payloads.flatten = wrote e.id) := by
  have hfaithful := h.faithful hopen
  obtain ⟨rfl, hstarted⟩ := hfaithful.places e.id place hconnected
  have hrunning : e.stage ≠ .queued := h.line.not_queued he hstarted
  obtain ⟨started, place, hruns⟩ := Stage.exists_runsOn? hrunning
  obtain rfl := h.account.place_eq e he started place hruns
  obtain ⟨payloads, hsent, hreports, hisRead, hincomplete, hwrote⟩ :=
    (hfaithful.reads e he).exists_payloads hruns
  refine ⟨payloads, hsent, hreports, hisRead, hincomplete, hwrote, fun hread => ?_⟩
  rw [hread started e.id hruns, List.append_nil] at hwrote
  exact hwrote

theorem IsFaithful.act (h : s.IsFaithful lost wrote) (hattends : s.Attends lost) (a : Action) :
    (s.act a).IsFaithful lost fun i => wrote i ++ s.puts i a where
  sound := h.sound.act a
  line := h.line.act a
  account := h.account.act h.line a
  size := by
    have hsettings : (s.act a).dispatcher.settings = s.dispatcher.settings :=
      congrArg (·.1) (s.rules_act a)
    rw [hsettings]
    exact h.size
  faithful hafter := by
    have hopen := h.sound.isOpen_of_act h.line hafter
    have hfaithful := h.faithful hopen
    have horderly := h.orderly hopen
    cases a with
    | dispatch m =>
      simp only [puts, List.append_nil]
      by_cases hreply : m.replyTopic = ""
      · rw [act_dispatch_of_eq s hreply, dispatch_of_eq _ hreply]
        refine hfaithful.of_eq rfl rfl (fun id => Surroundings.history_log_of_ne nofun) ?_ ?_
        · simp [Surroundings.starts, Surroundings.log, Event.start?]
        · intro i j hmem
          simpa [Surroundings.log] using hmem
      · rw [act_dispatch_of_ne s hreply, dispatch_of_ne _ hreply]
        exact hfaithful.begin (e := s.dispatcher.exchangeFor m) horderly.keeps
          horderly.keeps.nextId_eq rfl rfl rfl rfl
    | backend i happening => exact hfaithful.backend horderly.account i happening
    | proceed place =>
      simp only [puts, List.append_nil]
      exact (hfaithful.proceed horderly (hattends hopen) place).1
    | settle =>
      simp only [puts, List.append_nil]
      exact (hfaithful.settle horderly (hattends hopen)).1
    | _ =>
      simp only [puts, List.append_nil]
      exact hfaithful.of_eq rfl rfl (fun _ => rfl) rfl fun _ _ hmem => hmem

/-- Whatever happens, what exchanges have read is what was written, up to what may be lost. -/
theorem IsFaithful.run (h : s.IsFaithful True wrote) (actions : List Action) :
    (s.run actions).IsFaithful True fun i => wrote i ++ s.written i actions := by
  induction actions generalizing wrote s with
  | nil =>
    simp only [written, List.append_nil]
    exact h
  | cons a rest ih =>
    have hrest := ih (h.act (fun _ _ _ _ => trivial) a)
    simp only [List.append_assoc] at hrest
    exact hrest

end

end Session

/-! ## Exchanges that attend to what happens -/

/-- An exchange with time left does not run out of it at once. -/
theorem IsInTime.expired_eq {d : Dispatcher LocalBus} {e : Exchange} {started place : Nat}
    (h : d.IsInTime d.now e) (hruns : e.stage.runsOn? = some (started, place)) :
    Deadline.expired ⟨started, d.settings.deadline⟩ d.now = false := by
  have hleft := h.lt_deadline hruns
  rw [Deadline.expired_eq_false_iff]
  show d.now - started < d.settings.deadline
  omega

/-- A backend ends a connection only by resetting or closing it. -/
theorem Happening.ending_apply (h : Happening) (n : Network) (i j : Nat) :
    ((h.apply i n).connection j).ending = (n.connection j).ending ∨
      ∃ ending, h = .finish ending ∧ ((h.apply i n).connection j).ending = some ending := by
  rw [h.apply_eq, Network.connection_modify]
  split
  · cases h with
    | finish ending =>
      simp only [change]
      split
      · exact Or.inr ⟨ending, rfl, rfl⟩
      · exact Or.inl rfl
    | _ =>
      refine Or.inl ?_
      simp only [change]
      split <;> rfl
  · exact Or.inl rfl

/-- An action to which every exchange attends: before a millisecond passes, and before a backend
resets a connection, they all go as far as they come. -/
def Action.attended : Action → List Action
  | .backend i (.finish .reset) => [.settle, .backend i (.finish .reset)]
  | a => a.timed

/-- Actions to which every exchange attends, up to their end. Without this an exchange may lose
bytes that have arrived for it: those that it has not read before its deadline or before a reset,
either of which ends it at once. -/
def Action.Attended (actions : List Action) : Prop :=
  ∃ schedule : List Action, actions = schedule.flatMap Action.attended ++ [.settle]

namespace Session

/-- Whether every exchange in flight has read everything that has arrived for it. -/
def IsCaughtUp (s : Session) : Prop :=
  s.surroundings.bus.isOpen = true → ∀ e ∈ s.dispatcher.inFlight, s.dispatcher.IsCaughtUp e

theorem IsCaughtUp.attends {s : Session} (h : s.IsCaughtUp) : s.Attends False :=
  fun hopen e he => (h hopen e he).not_loses

theorem IsFaithful.isCaughtUp_settle {lost : Prop} {wrote : Nat → Bytes} {s : Session}
    (h : s.IsFaithful lost wrote) (hattends : s.Attends lost) : (s.act .settle).IsCaughtUp := by
  intro hafter
  have hopen := h.sound.isOpen_of_act h.line hafter
  exact ((h.faithful hopen).settle (h.orderly hopen) (hattends hopen)).2

/-- The session is in time, and nothing that backends `wrote` is lost. -/
structure IsPrompt (asked : Network) (wrote : Nat → Bytes) (s : Session) : Prop where
  timely : s.IsTimely asked
  faithful : s.IsFaithful False wrote
  attends : s.Attends False

namespace IsPrompt

variable {asked : Network} {wrote : Nat → Bytes} {s : Session}

/-- Nothing is lost by what a backend does, except that it resets a connection. -/
theorem attends_backend (h : s.IsPrompt asked wrote) {i : Nat} {happening : Happening}
    (hreset : happening ≠ .finish .reset) : (s.act (.backend i happening)).Attends False := by
  rintro hopen e he ⟨started, place, hruns, hwhy, hsome⟩
  -- There is time left, so that the connection must have been reset before.
  have hexpired := (h.timely.inTime e he).expired_eq hruns
  have hended := hwhy.resolve_left (ne_true_of_eq_false hexpired)
  have hbefore : (s.dispatcher.surroundings.network.connection place).ending = some .reset := by
    rcases happening.ending_apply s.dispatcher.surroundings.network i place with hsame |
      ⟨ending, rfl, hnow⟩
    · exact hsame.symm.trans hended
    · rw [Option.some.inj (hnow.symm.trans hended)] at hreset
      exact absurd rfl hreset
  have hclosed : (s.dispatcher.surroundings.network.connection place).isOpen ≠ true := by
    rw [Connection.isOpen, hbefore]
    simp
  refine h.attends hopen e he ⟨started, place, hruns, Or.inr hbefore, fun hnone => hsome ?_⟩
  show ((happening.apply i s.dispatcher.surroundings.network).connection place).unread = []
  rw [happening.unread_apply, hnone, happening.puts_of_not_isOpen hclosed, ite_self]
  rfl

/-- Whatever else happens at one moment loses nothing. -/
theorem act (h : s.IsPrompt asked wrote) {a : Action} (hclock : a ≠ .clock)
    (hreset : ∀ i, a ≠ .backend i (.finish .reset)) :
    (s.act a).IsPrompt asked fun i => wrote i ++ s.puts i a := by
  refine ⟨h.timely.act hclock, h.faithful.act h.attends a, ?_⟩
  cases a with
  | dispatch m =>
    intro hafter
    have hopen := h.faithful.sound.isOpen_of_act h.faithful.line hafter
    by_cases hreply : m.replyTopic = ""
    · rw [act_dispatch_of_eq s hreply, dispatch_of_eq _ hreply]
      exact h.attends hopen
    · rw [act_dispatch_of_ne s hreply, dispatch_of_ne _ hreply]
      intro e he hloses
      rcases List.mem_append.1 he with he | he
      · exact h.attends hopen e he hloses
      · obtain ⟨started, place, hruns, -⟩ := hloses
        rw [List.mem_singleton.1 he] at hruns
        cases hruns
  | backend i happening => exact h.attends_backend fun heq => hreset i (by rw [heq])
  | clock => exact absurd rfl hclock
  | proceed place =>
    intro hafter
    have hopen := h.faithful.sound.isOpen_of_act h.faithful.line hafter
    exact ((h.faithful.faithful hopen).proceed (h.faithful.orderly hopen) (h.attends hopen) place).2
  | settle => exact (h.faithful.isCaughtUp_settle h.attends).attends
  | receive =>
    intro hafter
    exact h.attends (h.faithful.sound.isOpen_of_act h.faithful.line hafter)
  | close => exact nofun

theorem settle (h : s.IsPrompt asked wrote) : (s.act .settle).IsPrompt asked wrote := by
  have hsettled := h.act (a := .settle) nofun nofun
  simp only [puts, List.append_nil] at hsettled
  exact hsettled

/-- A backend resets a connection when everything that has arrived on it was read. -/
theorem reset (h : s.IsPrompt asked wrote) (i : Nat) :
    ((s.act .settle).act (.backend i (.finish .reset))).IsPrompt asked wrote := by
  have hread : (s.act .settle).IsCaughtUp := h.faithful.isCaughtUp_settle h.attends
  have hsettled := h.settle
  have hfaithful := hsettled.faithful.act hsettled.attends (.backend i (.finish .reset))
  simp only [puts, Happening.puts, ite_self, List.append_nil] at hfaithful
  refine ⟨hsettled.timely.act (by simp), hfaithful, IsCaughtUp.attends ?_⟩
  intro hopen e he started place hruns
  show ((Happening.apply i _ (.finish .reset)).connection place).unread = []
  simp only [Happening.unread_apply, Happening.puts, ite_self, List.append_nil]
  exact hread hopen e he started place hruns

/-- A millisecond passes when everything that has arrived was read. -/
theorem tick (h : s.IsPrompt asked wrote) :
    (((s.act .settle).act .clock).act .settle).IsPrompt asked wrote := by
  have hread : (s.act .settle).IsCaughtUp := h.faithful.isCaughtUp_settle h.attends
  have hlater : ((s.act .settle).act .clock).IsCaughtUp := hread
  have hclock := h.settle.faithful.act h.settle.attends .clock
  have hsettled := hclock.act hlater.attends .settle
  simp only [puts, List.append_nil] at hclock hsettled
  exact ⟨h.timely.tick, hsettled, (hclock.isCaughtUp_settle hlater.attends).attends⟩

theorem attended (h : s.IsPrompt asked wrote) (a : Action) :
    (s.run a.attended).IsPrompt asked fun i => wrote i ++ s.written i a.attended := by
  by_cases hclock : a = .clock
  · have hnothing (i : Nat) : s.written i [.settle, .clock, .settle] = [] := rfl
    rw [hclock]
    simp only [Action.attended, Action.timed, hnothing, List.append_nil]
    exact h.tick
  · by_cases hreset : ∃ i, a = .backend i (.finish .reset)
    · obtain ⟨i, rfl⟩ := hreset
      have hnothing (j : Nat) : s.written j [.settle, .backend i (.finish .reset)] = [] := by
        simp [written, puts, Happening.puts]
      simp only [Action.attended, hnothing, List.append_nil]
      exact h.reset i
    · have hone : a.attended = [a] := by
        unfold Action.attended
        split
        · exact absurd ⟨_, rfl⟩ hreset
        · unfold Action.timed
          split
          · exact absurd rfl hclock
          · rfl
      rw [hone]
      simp only [written, List.append_nil]
      exact h.act hclock fun i hi => hreset ⟨i, hi⟩

/-- As long as exchanges attend to what happens nothing is lost. -/
theorem run (h : s.IsPrompt asked wrote) (schedule : List Action) :
    (s.run (schedule.flatMap Action.attended)).IsPrompt asked fun i =>
      wrote i ++ s.written i (schedule.flatMap Action.attended) := by
  induction schedule generalizing wrote s with
  | nil =>
    simp only [List.flatMap_nil, written, List.append_nil]
    exact h
  | cons a rest ih =>
    have hrest := ih (h.attended a)
    simp only [List.append_assoc] at hrest
    simp only [List.flatMap_cons, written_append, run_append]
    exact hrest

end IsPrompt

theorem isPrompt_start {settings : ExchangeSettings} (hsize : 0 < settings.readChunkSize)
    (routes : RouteTable) (maxConcurrent : Nat) {network : Network}
    (h : network.connections = []) :
    (start settings routes maxConcurrent network).IsPrompt network fun _ => [] := by
  refine ⟨isTimely_start _ _ _ h, isFaithful_start hsize _ _ h, fun _ e he => ?_⟩
  cases he

theorem IsFaithful.mono {lost lost' : Prop} {wrote : Nat → Bytes} {s : Session}
    (h : s.IsFaithful lost wrote) (hlost : lost → lost') : s.IsFaithful lost' wrote := by
  refine ⟨h.sound, h.line, h.account, h.size, fun hopen => ?_⟩
  obtain ⟨hplaces, hfresh, hreads, hended⟩ := h.faithful hopen
  exact ⟨hplaces, hfresh, hreads, fun id m hm hno => (hended id m hm hno).mono hlost⟩

/-- In a session exchanges read what is written, and everything in time if they attend to what
happens. -/
theorem isFaithful_run {settings : ExchangeSettings} (hsize : 0 < settings.readChunkSize)
    (routes : RouteTable) (maxConcurrent : Nat) {network : Network}
    (h : network.connections = []) (actions : List Action) :
    let fresh := start settings routes maxConcurrent network
    (fresh.run actions).IsFaithful (¬ Action.Attended actions) (fun i => fresh.written i actions) ∧
      (Action.Attended actions → (fresh.run actions).IsCaughtUp) := by
  intro fresh
  by_cases hattended : Action.Attended actions
  · obtain ⟨schedule, rfl⟩ := hattended
    have hprompt := (isPrompt_start hsize routes maxConcurrent h).run schedule
    have hsettled := hprompt.settle.faithful
    have hread := hprompt.faithful.isCaughtUp_settle hprompt.attends
    rw [run_append]
    simp only [written_append, List.nil_append] at hsettled ⊢
    simp only [written, puts, List.append_nil]
    exact ⟨hsettled.mono False.elim, fun _ => hread⟩
  · have hfresh : fresh.IsFaithful True fun _ => [] := isFaithful_start hsize _ _ h
    have hfaithful := hfresh.run actions
    simp only [List.nil_append] at hfaithful
    exact ⟨hfaithful.mono fun _ => hattended, fun hno => absurd hno hattended⟩

/-- **Replies carry what the backend has written.** Whatever happens in a session while the bus is
open, an exchange on a connection has published pieces of the size that is set, which are a
beginning of what was written on the connection, and none of them completes the response before the
last one. While the exchange is in flight the last one does not either, and the rest of what was
written can still be read. When it has ended it has made one report, which gives the number of the
bytes, and has published the marker, and it publishes nothing more. It is complete exactly if the
pieces are; then the response ends within the last piece, and is found there by a scan of all that
was or will be written. Otherwise everything was published, unless the exchange broke off because of
its deadline or a reset.

If the exchanges attend to what happens nothing is lost: without a complete response everything that
was written is published, and within the limits there is one exactly if a scan of what was written
finds one. -/
theorem replies_carry_what_is_written (settings : ExchangeSettings) (routes : RouteTable)
    (maxConcurrent : Nat) (reachable : Bool) (backends : List (Port × Behaviour))
    (elsewhere : Behaviour) (hsize : 0 < settings.readChunkSize) (actions : List Action)
    (id place : Nat) (m : Message) (hm : (actions.filterMap Action.begins?)[id]? = some m) :
    let fresh := start settings routes maxConcurrent { reachable, backends, elsewhere }
    let s := fresh.run actions
    let written := fresh.written place actions
    let sent := s.surroundings.publications id
    let reports := s.surroundings.reports id
    let progress := fun payloads => (Framer.ofPieces settings.maxHeaderBytes payloads).progress
    s.surroundings.bus.isOpen = true → .connected id place ∈ s.surroundings.events →
    ∃ payloads : List Bytes,
      (∀ p ∈ payloads, 0 < p.length ∧ p.length ≤ settings.readChunkSize) ∧
      payloads.flatten <+: written ∧
      (∀ n < payloads.length, progress (payloads.take n) = .incomplete) ∧
      (s.IsInFlight id → sent = Reply.chunks m payloads ∧ reports = [] ∧
        progress payloads = .incomplete ∧
        payloads.flatten ++ (s.surroundings.network.connection place).unread = written) ∧
      (¬ s.IsInFlight id → ∃ report, reports = [report] ∧
        sent = Reply.chunks m payloads ++ [Reply.marker m payloads.length] ∧
        (∀ more, (s.run more).surroundings.publications id = sent) ∧
        report.bytesReceived = payloads.flatten.length ∧
        (∀ length, report.outcome = .complete length ↔ progress payloads = .complete length) ∧
        (∀ length, report.outcome = .complete length →
          (∀ more, Framer.scan (written ++ more) = .complete length) ∧
          (written.length < Numeral.wordBound → ∃ early last, payloads = early ++ [last] ∧
            report.bytesReceived - last.length < length ∧ length ≤ report.bytesReceived)) ∧
        (report.outcome.IsPartial →
          payloads.flatten = written ∨ report.outcome.BreaksOff)) ∧
      (Action.Attended actions →
        ((∀ report ∈ reports, report.outcome.IsPartial) → payloads.flatten = written) ∧
        (Framer.WithinLimits settings.maxHeaderBytes written → ∀ length,
          (∃ report ∈ reports, report.outcome = .complete length) ↔
            Framer.scan written = .complete length)) := by
  intro fresh s written sent reports progress hopen hconnected
  have hfresh : ({ reachable, backends, elsewhere } : Network).connections = [] := rfl
  obtain ⟨hfaithful, hread⟩ := isFaithful_run hsize routes maxConcurrent hfresh actions
  have hsettings : s.dispatcher.settings = settings := congrArg (·.1) (fresh.rules_run actions)
  have hbegun : s.begun[id]? = some m := by
    rw [begun_run]
    exact hm
  have hnow := hfaithful.faithful hopen
  obtain ⟨rfl, -⟩ := hnow.places id place hconnected
  by_cases hflight : s.IsInFlight place
  · obtain ⟨e, he, rfl⟩ := hflight
    obtain ⟨payloads, hsent, hreports, hisRead, hincomplete, hwritten, hall⟩ :=
      hfaithful.exists_payloads hopen he hconnected
    have hmessage := hfaithful.sound.message_eq e he
    rw [hbegun, Option.some.injEq] at hmessage
    rw [← hmessage] at hsent
    rw [hsettings] at hisRead hincomplete
    have hnone : reports = [] := hreports
    refine ⟨payloads, hisRead.sizes, ⟨_, hwritten⟩, hisRead.incomplete,
      fun _ => ⟨hsent, hnone, hincomplete, hwritten⟩, fun hno => absurd ⟨e, he, rfl⟩ hno,
      fun hattended => ?_⟩
    have hflatten : payloads.flatten = written := hall (hread hattended hopen e he)
    refine ⟨fun _ => hflatten, fun hlimits length => ?_⟩
    rw [← Framer.ofPieces_progress_iff_scan ⟨_, hwritten⟩ (fun _ => hflatten) hlimits, hincomplete,
      hnone]
    exact ⟨nofun, nofun⟩
  · obtain ⟨payloads, report, hreports, hsent, hfits⟩ :=
      hnow.ended place m hbegun fun e he heq => hflight ⟨e, he, heq⟩
    have hone : reports = [report] := hreports
    have hlt : place < s.begun.length := (List.getElem?_eq_some_iff.1 hbegun).1
    rw [hsettings] at hfits
    refine ⟨payloads, hfits.isRead.sizes, hfits.isPrefix, hfits.isRead.incomplete,
      fun hin => absurd hin hflight, fun _ => ⟨report, hone, hsent, ?_, hfits.received_eq,
        hfits.complete_iff, fun length => hfits.of_complete, ?_⟩, fun hattended => ?_⟩
    · exact hfaithful.sound.publications_run hfaithful.line hlt hflight
    · exact fun hpartial => (hfits.all hpartial).imp_right And.right
    · have hkept : ¬ ¬ Action.Attended actions := not_not_intro hattended
      simp only [hone, List.mem_singleton, forall_eq, exists_eq_left]
      exact ⟨hfits.flatten_eq hkept, hfits.complete_iff_scan hkept⟩

/-- A response that comes in two writes, cut within its header block, and is read in pieces of
sixteen bytes at most. The bytes that follow it at once are published with its last piece; what the
backend writes after that is not. -/
theorem replies_carry_what_is_written_piecewise :
    let settings : ExchangeSettings := { ({} : Config).exchangeSettings with readChunkSize := 16 }
    let network : Network := { backends := [(80, .listen)] }
    let fresh := start settings { defaultPort := 80 } 1 network
    let m : Message := ⟨"status", [103], "reply/0", none⟩
    let head := Bytes.ofString "HTTP/1.1 200 OK\r\nContent-Le"
    let rest := Bytes.ofString "ngth: 1\r\n\r\nabc"
    let schedule : List Action := [
      .dispatch m, .settle, .backend 0 (.write head), .clock, .backend 0 (.write rest), .clock,
      .backend 0 (.write head), .backend 0 (.finish .reset)]
    let actions := schedule.flatMap Action.attended ++ [.settle]
    let s := fresh.run actions
    (0 < settings.readChunkSize ∧ (actions.filterMap Action.begins?)[0]? = some m ∧
      s.surroundings.bus.isOpen = true ∧ .connected 0 0 ∈ s.surroundings.events ∧
      Action.Attended actions ∧ Framer.WithinLimits settings.maxHeaderBytes (head ++ rest)) ∧
    fresh.written 0 actions = head ++ rest ∧ Framer.scan (head ++ rest) = .complete 39 ∧
    ∃ report early last, s.surroundings.reports 0 = [report] ∧ report.outcome = .complete 39 ∧
      report.bytesReceived - last.length < 39 ∧ 39 ≤ report.bytesReceived ∧
      s.surroundings.publications 0 =
        Reply.chunks m (early ++ [last]) ++ [Reply.marker m (early ++ [last]).length] ∧
      report.bytesReceived = (early ++ [last]).flatten.length ∧
      (early ++ [last]).flatten <+: head ++ rest ∧
      ∀ p ∈ early ++ [last], 0 < p.length ∧ p.length ≤ 16 := by
  intro settings network fresh m head rest schedule actions s
  have hsize : 0 < settings.readChunkSize := by decide
  have hm : (actions.filterMap Action.begins?)[0]? = some m := by decide +kernel
  have hopen : s.surroundings.bus.isOpen = true := by decide +kernel
  have hconnected : .connected 0 0 ∈ s.surroundings.events := by decide +kernel
  have hwritten : fresh.written 0 actions = head ++ rest := by decide +kernel
  have hscan : Framer.scan (head ++ rest) = .complete 39 := by decide +kernel
  have hflight : s.dispatcher.inFlight.map (·.id) = [] := by decide +kernel
  have hout : ¬ s.IsInFlight 0 := by
    rintro ⟨e, he, -⟩
    rw [List.map_eq_nil_iff.1 hflight] at he
    cases he
  have hlimits : Framer.WithinLimits settings.maxHeaderBytes (head ++ rest) :=
    .of_length_le (by decide +kernel) (by decide +kernel)
  have hattends : Action.Attended actions := ⟨schedule, rfl⟩
  -- From here on the run is not looked into any more.
  have hs : s = (start settings { defaultPort := 80 } 1 network).run actions := rfl
  clear_value s
  subst hs
  clear_value actions
  obtain ⟨payloads, hsizes, hbegins, -, -, hended, hattended⟩ := replies_carry_what_is_written
    settings { defaultPort := 80 } 1 true [(80, .listen)] .refuse hsize actions 0 0 m hm hopen
    hconnected
  obtain ⟨report, hreports, hsent, -, hreceived, -, hends, -⟩ := hended hout
  obtain ⟨-, hscanned⟩ := hattended hattends
  rw [hwritten] at hbegins hends hscanned
  obtain ⟨other, hmem, hcomplete⟩ := (hscanned hlimits 39).2 hscan
  rw [hreports, List.mem_singleton] at hmem
  rw [hmem] at hcomplete
  obtain ⟨early, last, rfl, hlast, hle⟩ := (hends 39 hcomplete).2 (by decide +kernel)
  exact ⟨⟨hsize, hm, hopen, hconnected, hattends, hlimits⟩, hwritten, hscan, report, early, last,
    hreports, hcomplete, hlast, hle, hsent, hreceived, hbegins, hsizes⟩

end Session

end Dispatcher

end TopicRelay
