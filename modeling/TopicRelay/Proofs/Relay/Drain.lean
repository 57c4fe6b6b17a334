import TopicRelay.Proofs.Relay.Session

/-!
# Stopping and draining

A relay takes messages in the order in which they came, until it stops. From then on no exchange
begins. `Tallies` is the account of the messages; `Progress` says how far a relay has come and is
kept by every step. The looks of a draining relay are told by the numbers of exchanges in flight
that the session has noted: `FindsIdle k` is a look `k` milliseconds after the stop that finds none.
A relay returns with the first such look, or at the end of the time for draining if there is none.

`runs_until_drained` is the main statement.
-/

namespace TopicRelay

namespace Dispatcher

namespace Session

variable {s : Session} {actions : List Action}

/-- Where nothing is in flight, nothing is until an exchange begins. -/
theorem inFlight_run_eq_nil (hno : ∀ m, .dispatch m ∉ actions) (h : s.dispatcher.inFlight = []) :
    (s.run actions).dispatcher.inFlight = [] := by
  induction actions generalizing s with
  | nil => exact h
  | cons a rest ih =>
    refine ih (fun m hmem => hno m (List.mem_cons_of_mem _ hmem)) ?_
    cases a with
    | dispatch m => exact absurd List.mem_cons_self (hno m)
    | proceed place =>
      show (s.dispatcher.proceed place).inFlight = []
      simp only [proceed, h, List.getElem?_nil]
    | settle =>
      show s.dispatcher.settle.inFlight = []
      simp only [settle, h, visitAll]
    | _ => exact h

theorem begun_run_eq (s : Session) (hno : ∀ m, .dispatch m ∉ actions) :
    (s.run actions).begun = s.begun := by
  have hnone : actions.filterMap Action.begins? = [] := by
    refine List.filterMap_eq_nil_iff.2 fun a ha => ?_
    cases a with
    | dispatch m => exact absurd ha (hno m)
    | _ => rfl
  rw [begun_run, hnone, List.append_nil]

theorem now_run_eq (s : Session) (hno : .clock ∉ actions) :
    (s.run actions).dispatcher.now = s.dispatcher.now := by
  induction actions generalizing s with
  | nil => rfl
  | cons a rest ih =>
    rw [List.mem_cons, not_or] at hno
    exact (ih (s.act a) hno.2).trans (s.now_act (Ne.symm hno.1))

/-- Where nothing is in flight, every exchange has made its report and, unless the bus is closed,
has published its whole reply. -/
theorem IsSound.completed (h : s.IsSound) (hnone : s.dispatcher.inFlight = []) {id : Nat}
    {m : Message} (hm : s.begun[id]? = some m) :
    (∃ report, s.surroundings.reports id = [report]) ∧
      (s.surroundings.bus.isOpen = true → ∃ payloads, s.surroundings.publications id =
        Reply.chunks m payloads ++ [Reply.marker m payloads.length]) := by
  obtain ⟨payloads, report, hreports, -, -, hsent⟩ :=
    h.ended id m hm (by simp [hnone])
  refine ⟨⟨report, hreports⟩, fun hopen => ⟨payloads, ?_⟩⟩
  rcases hsent with ⟨-, hsent⟩ | ⟨hclosed, -⟩
  · exact hsent
  · cases hopen.symm.trans hclosed

end Session

end Dispatcher

namespace Relay

namespace Session

variable {s t : Session}

/-! ## The messages -/

/-- The relay takes messages in the order in which they came, and begins an exchange for each that
can be answered. -/
structure Tallies (s : Session) : Prop where
  arrived_eq : s.relay.phase ≠ .returned → s.taken ++ s.relay.inbound = s.arrived
  isPrefix : s.taken <+: s.arrived
  begun_eq : s.begun = s.taken.filter fun m => m.replyTopic ≠ ""
  dispatched_eq : s.relay.dispatched = s.begun.length

theorem tallies_start (settings : ExchangeSettings) (routes : RouteTable) (maxConcurrent : Nat)
    (network : Network) (drainTimeout channelRoom : Nat) :
    (start settings routes maxConcurrent network drainTimeout channelRoom).Tallies :=
  ⟨fun _ => rfl, List.nil_prefix, rfl, rfl⟩

/-- A relay that takes no message keeps its account. -/
theorem Tallies.of_eq (h : s.Tallies) {messages : List Message}
    (harrived : t.arrived = s.arrived ++ messages)
    (hinbound : t.relay.phase ≠ .returned →
      s.relay.phase ≠ .returned ∧ t.relay.inbound = s.relay.inbound ++ messages)
    (htaken : t.taken = s.taken) (hbegun : t.begun = s.begun)
    (hdispatched : t.relay.dispatched = s.relay.dispatched) : t.Tallies := by
  refine ⟨fun hphase => ?_, ?_, ?_, ?_⟩
  · obtain ⟨hbefore, hinbound⟩ := hinbound hphase
    rw [htaken, hinbound, harrived, ← List.append_assoc, h.arrived_eq hbefore]
  · rw [htaken, harrived]
    exact h.isPrefix.trans (List.prefix_append _ _)
  · rw [hbegun, htaken]
    exact h.begun_eq
  · rw [hdispatched, hbegun]
    exact h.dispatched_eq

theorem Tallies.take (h : s.Tallies) {m : Message} {rest : List Message}
    (hphase : s.relay.phase = .dispatching) (hinbound : s.relay.inbound = m :: rest) :
    (s.take m rest).Tallies := by
  have hall : s.taken ++ m :: rest = s.arrived := by
    rw [← hinbound]
    exact h.arrived_eq (by simp [hphase])
  have hmoved : s.taken ++ [m] ++ rest = s.arrived := by
    rw [← hall, List.append_assoc, List.singleton_append]
  refine ⟨fun _ => hmoved, ⟨rest, hmoved⟩, ?_, ?_⟩
  · show (s.view.act (.dispatch m)).begun = (s.taken ++ [m]).filter _
    rw [List.filter_append, ← h.begun_eq]
    by_cases hreply : m.replyTopic = ""
    · rw [Dispatcher.Session.act_dispatch_of_eq _ hreply, List.filter_singleton]
      simp [hreply, view]
    · rw [Dispatcher.Session.act_dispatch_of_ne _ hreply, List.filter_singleton]
      simp [hreply, view]
  · show s.relay.dispatched + (s.relay.dispatcher.dispatch m).1.toList.length =
      (s.view.act (.dispatch m)).begun.length
    rw [h.dispatched_eq]
    by_cases hreply : m.replyTopic = ""
    · rw [Dispatcher.Session.act_dispatch_of_eq _ hreply, Dispatcher.dispatch_of_eq _ hreply]
      rfl
    · rw [Dispatcher.Session.act_dispatch_of_ne _ hreply, Dispatcher.dispatch_of_ne _ hreply,
        List.length_append]
      rfl

theorem dispatched_drain (r : Relay LocalBus) (wait : IdleWait) :
    (r.drain wait).dispatched = r.dispatched := by
  unfold drain
  split <;> rfl

theorem inbound_drain {r : Relay LocalBus} {wait : IdleWait}
    (h : (r.drain wait).phase ≠ .returned) : (r.drain wait).inbound = r.inbound := by
  unfold drain at h ⊢
  split at h
  · rfl
  · exact absurd rfl h

theorem Tallies.withView (h : s.Tallies) {v : Dispatcher.Session} (hbegun : v.begun = s.begun) :
    (s.withView v).Tallies :=
  h.of_eq (List.append_nil _).symm (fun hphase => ⟨hphase, (List.append_nil _).symm⟩) rfl hbegun rfl

theorem Tallies.drain (h : s.Tallies) (hphase : s.relay.phase ≠ .returned) (wait : IdleWait) :
    { s with relay := s.relay.drain wait }.note.Tallies := by
  refine h.of_eq (List.append_nil _).symm (fun hafter => ⟨hphase, ?_⟩) rfl rfl ?_
  · rw [List.append_nil]
    exact inbound_drain hafter
  · exact dispatched_drain _ _

theorem Tallies.look (h : s.Tallies) : s.look.Tallies := by
  by_cases hdraining : ∃ wait, s.relay.phase = .draining wait
  · obtain ⟨wait, hphase⟩ := hdraining
    rw [look_of_draining hphase]
    exact h.drain (by simp [hphase]) _
  · rw [look_of_not_draining fun wait hphase => hdraining ⟨wait, hphase⟩]
    exact h

theorem Tallies.step (h : s.Tallies) (hstep : s.Step t) : t.Tallies := by
  cases hstep with
  | input r messages hengine hinbound =>
    simp only [engine, Prod.mk.injEq] at hengine
    obtain ⟨-, -, hdispatched, hphase⟩ := hengine
    refine h.of_eq rfl (fun hafter => ?_) rfl rfl hdispatched
    have hbefore : s.relay.phase ≠ .returned := hphase ▸ hafter
    exact ⟨hbefore, hinbound hbefore⟩
  | take m rest hphase hinbound => exact h.take hphase hinbound
  | stop hphase =>
    have hstopped : { s with stopped := some s.now }.Tallies := ⟨h.1, h.2, h.3, h.4⟩
    exact hstopped.drain (by simp [hphase]) _
  | goOn doings => exact h.withView (s.view.begun_run_eq (Doing.dispatch_not_mem_map doings))
  | tick doings => exact (h.withView ((s.view.act .clock).begun_run_eq
      (Doing.dispatch_not_mem_map doings))).look

/-! ## The wait -/

/-- A look is due so many milliseconds after the stop, and no exchange is in flight. -/
def FindsIdle (s : Session) (k : Nat) : Prop := IdleWait.interval ∣ k ∧ s.counts[k]? = some 0

/-- How far a relay has come. -/
inductive Progress (s : Session) : Prop
  | dispatching (hphase : s.relay.phase = .dispatching) (hstopped : s.stopped = none)
      (hreturned : s.returned = none) (hcounts : s.counts = [])
  /-- It has stopped, and no look has found that no exchange is in flight. -/
  | draining (stop n : Nat) (hphase : s.relay.phase = .draining ⟨stop, s.relay.drainTimeout, none⟩)
      (hstopped : s.stopped = some stop) (hreturned : s.returned = none) (hnow : s.now = stop + n)
      (hcounts : s.counts.length = n + 1) (hbusy : ∀ k, ¬ s.FindsIdle k)
      (hlt : n < s.relay.drainTimeout)
  /-- It has returned with the first look that found this, or at the end of its time. -/
  | returned (stop n : Nat) (hphase : s.relay.phase = .returned) (hstopped : s.stopped = some stop)
      (hreturned : s.returned = some (stop + n)) (hcounts : s.counts.length = n + 1)
      (hbusy : ∀ k < n, ¬ s.FindsIdle k) (hle : n ≤ s.relay.drainTimeout)
      (hend : s.FindsIdle n ∧ s.relay.dispatcher.inFlight = [] ∨
        ¬ s.FindsIdle n ∧ n = s.relay.drainTimeout)

theorem Progress.of_eq (h : s.Progress) (hphase : t.relay.phase = s.relay.phase)
    (hlimit : t.relay.drainTimeout = s.relay.drainTimeout) (hstopped : t.stopped = s.stopped)
    (hreturned : t.returned = s.returned) (hcounts : t.counts = s.counts)
    (hnow : ∀ wait, s.relay.phase = .draining wait → t.now = s.now)
    (hidle : s.relay.phase = .returned → s.relay.dispatcher.inFlight = [] →
      t.relay.dispatcher.inFlight = []) : t.Progress := by
  cases h with
  | dispatching hphase' hstopped' hreturned' hcounts' =>
    exact .dispatching (hphase.trans hphase') (hstopped.trans hstopped')
      (hreturned.trans hreturned') (hcounts.trans hcounts')
  | draining stop n hphase' hstopped' hreturned' hnow' hcounts' hbusy hlt =>
    refine .draining stop n ?_ (hstopped.trans hstopped') (hreturned.trans hreturned')
      ((hnow _ hphase').trans hnow') ?_ ?_ ?_
    · rw [hphase, hlimit]
      exact hphase'
    · rw [hcounts]
      exact hcounts'
    · simpa only [FindsIdle, hcounts] using hbusy
    · rw [hlimit]
      exact hlt
  | returned stop n hphase' hstopped' hreturned' hcounts' hbusy hle hend =>
    refine .returned stop n (hphase.trans hphase') (hstopped.trans hstopped')
      (hreturned.trans hreturned') ?_ ?_ ?_ ?_
    · rw [hcounts]
      exact hcounts'
    · simpa only [FindsIdle, hcounts] using hbusy
    · rw [hlimit]
      exact hle
    · simp only [FindsIdle, hcounts, hlimit] at hend ⊢
      exact hend.imp_left (And.imp_right (hidle hphase'))

theorem findsIdle_note (s : Session) (k : Nat) :
    s.note.FindsIdle k ↔ s.FindsIdle k ∨
      k = s.counts.length ∧ IdleWait.interval ∣ k ∧ s.relay.dispatcher.inFlight = [] := by
  have hcounts : s.note.counts = s.counts ++ [s.relay.dispatcher.inFlight.length] := rfl
  simp only [FindsIdle, hcounts]
  rcases Nat.lt_trichotomy k s.counts.length with hlt | rfl | hlt
  · rw [List.getElem?_append_left hlt]
    have hne : k ≠ s.counts.length := Nat.ne_of_lt hlt
    simp [hne]
  · simp
  · have hne : k ≠ s.counts.length := Nat.ne_of_gt hlt
    rw [List.getElem?_append_right (by omega), List.getElem?_eq_none (by simp; omega),
      List.getElem?_eq_none (by omega)]
    simp [hne]

/-- A look `n` milliseconds after the stop. -/
theorem Progress.look {stop n : Nat} (hstopped : s.stopped = some stop) (hnow : s.now = stop + n)
    (hcounts : s.counts.length = n) (hbusy : ∀ k, ¬ s.FindsIdle k)
    (hle : n ≤ s.relay.drainTimeout)
    (hactive : s.relay.dispatcher.tracker.active = s.relay.dispatcher.inFlight.length) :
    { s with relay := s.relay.drain (IdleWait.look ⟨stop, s.relay.drainTimeout, none⟩ s.now
      s.relay.dispatcher.tracker.active) }.note.Progress := by
  have helapsed : s.now - stop = n := by omega
  have hfinds (r : Relay LocalBus) (hr : r.dispatcher = s.relay.dispatcher) (k : Nat) :
      { s with relay := r }.note.FindsIdle k ↔
        k = n ∧ IdleWait.interval ∣ n ∧ s.relay.dispatcher.inFlight = [] := by
    rw [findsIdle_note, hr, hcounts]
    refine (or_iff_right (hbusy k)).trans (and_congr_right fun hk => ?_)
    rw [hk]
  have hlength (r : Relay LocalBus) : { s with relay := r }.note.counts.length = n + 1 := by
    rw [← hcounts]
    exact List.length_append
  have hidle : n % IdleWait.interval = 0 ∧ s.relay.dispatcher.tracker.active = 0 ↔
      IdleWait.interval ∣ n ∧ s.relay.dispatcher.inFlight = [] := by
    rw [hactive, List.length_eq_zero_iff, Nat.dvd_iff_mod_eq_zero]
  have hreturns : { s with relay := s.relay.conclude }.note.returned = some (stop + n) := by
    rw [← hnow]
    rfl
  simp only [IdleWait.look, helapsed]
  split
  · rename_i hnone
    refine .returned stop n rfl hstopped hreturns (hlength s.relay.conclude)
      (fun k hk hfound => ?_) hle (Or.inl ⟨?_, (hidle.1 hnone).2⟩)
    · exact absurd ((hfinds s.relay.conclude rfl k).1 hfound).1 (Nat.ne_of_lt hk)
    · exact (hfinds s.relay.conclude rfl n).2 ⟨rfl, hidle.1 hnone⟩
  · rename_i hsome
    have hbusy' (r : Relay LocalBus) (hr : r.dispatcher = s.relay.dispatcher) (k : Nat) :
        ¬ { s with relay := r }.note.FindsIdle k := by
      rw [hfinds r hr]
      exact fun hk => hsome (hidle.2 hk.2)
    split
    · rename_i hlimit
      exact .returned stop n rfl hstopped hreturns (hlength s.relay.conclude)
        (fun k _ => hbusy' s.relay.conclude rfl k) hle
        (Or.inr ⟨hbusy' s.relay.conclude rfl n, Nat.le_antisymm hle hlimit⟩)
    · rename_i hlimit
      exact .draining stop n rfl hstopped rfl hnow (hlength _) (hbusy' _ rfl)
        (Nat.lt_of_not_le hlimit)

theorem Progress.step (h : s.Progress) (hline : s.view.IsInLine) (haccount : s.view.IsAccounted)
    (hstep : s.Step t) : t.Progress := by
  cases hstep with
  | input r messages hengine =>
    simp only [engine, Prod.mk.injEq] at hengine
    obtain ⟨hdispatcher, hlimit, -, hphase⟩ := hengine
    exact h.of_eq hphase hlimit rfl rfl rfl (fun _ _ => congrArg Dispatcher.now hdispatcher)
      fun _ hnone => (congrArg Dispatcher.inFlight hdispatcher).trans hnone
  | take m rest hphase =>
    refine h.of_eq rfl rfl rfl rfl rfl (fun wait hno => ?_) fun hno => ?_
    all_goals
      rw [hphase] at hno
      cases hno
  | stop hphase =>
    cases h with
    | dispatching _ _ _ hcounts =>
      have hnone (k : Nat) : ¬ FindsIdle { s with stopped := some s.now } k := by
        simp [FindsIdle, hcounts]
      exact Progress.look (s := { s with stopped := some s.now }) rfl rfl
        (congrArg List.length hcounts) hnone (Nat.zero_le _) haccount.active_eq
    | draining _ _ hno =>
      rw [hphase] at hno
      cases hno
    | returned _ _ hno =>
      rw [hphase] at hno
      cases hno
  | goOn doings =>
    refine h.of_eq rfl rfl rfl rfl rfl (fun _ _ => ?_) fun _ hnone => ?_
    · exact s.view.now_run_eq (Doing.clock_not_mem_map doings)
    · exact Dispatcher.Session.inFlight_run_eq_nil (Doing.dispatch_not_mem_map doings) hnone
  | tick doings =>
    have hactive := ((haccount.act hline .clock).run (hline.act .clock)
      (doings.map Doing.action)).active_eq
    have hnow := (s.view.act .clock).now_run_eq (Doing.clock_not_mem_map doings)
    unfold Session.tick
    generalize hafter : (s.view.act .clock).run (doings.map Doing.action) = v at hactive hnow ⊢
    cases h with
    | dispatching hphase hstopped hreturned hcounts =>
      rw [look_of_not_draining (by intro wait hno; cases hphase.symm.trans hno)]
      exact .dispatching hphase hstopped hreturned hcounts
    | draining stop n hphase hstopped hreturned hnow' hcounts hbusy hlt =>
      rw [look_of_draining (s := s.withView v) hphase]
      refine Progress.look (s := s.withView v) hstopped ?_ hcounts hbusy hlt hactive
      show v.dispatcher.now = _
      rw [hnow, ← Nat.add_assoc, ← hnow']
      rfl
    | returned stop n hphase hstopped hreturned hcounts hbusy hle hend =>
      rw [look_of_not_draining (by intro wait hno; cases hphase.symm.trans hno)]
      refine .returned stop n hphase hstopped hreturned hcounts hbusy hle
        (hend.imp_left (And.imp_right fun hnone => ?_))
      show v.dispatcher.inFlight = []
      rw [← hafter]
      exact Dispatcher.Session.inFlight_run_eq_nil (Doing.dispatch_not_mem_map doings) hnone

/-! ## Whole sessions -/

/-- The invariant of a session. -/
structure IsOrderly (s : Session) : Prop where
  sound : s.view.IsSound
  line : s.view.IsInLine
  account : s.view.IsAccounted
  tallies : s.Tallies
  progress : s.Progress

theorem isOrderly_start (settings : ExchangeSettings) (routes : RouteTable) (maxConcurrent : Nat)
    (network : Network) (drainTimeout channelRoom : Nat) (hnone : network.connections = []) :
    (start settings routes maxConcurrent network drainTimeout channelRoom).IsOrderly where
  sound := Dispatcher.Session.isSound_start settings routes maxConcurrent network
  line := Dispatcher.Session.isInLine_start settings routes maxConcurrent network
  account := Dispatcher.Session.isAccounted_start settings routes maxConcurrent hnone
  tallies := tallies_start settings routes maxConcurrent network drainTimeout channelRoom
  progress := .dispatching rfl rfl rfl rfl

theorem IsOrderly.step (h : s.IsOrderly) (hstep : s.Step t) : t.IsOrderly := by
  obtain ⟨moves, hview, -⟩ := hstep.exists_moves
  refine ⟨?_, ?_, ?_, h.tallies.step hstep, h.progress.step h.line h.account hstep⟩
  · rw [hview]
    exact h.sound.run moves
  · rw [hview]
    exact h.line.run moves
  · rw [hview]
    exact h.account.run h.line moves

theorem IsOrderly.run (h : s.IsOrderly) (actions : List Action) : (s.run actions).IsOrderly :=
  run_induction (fun _ _ hstep h => h.step hstep) h actions

/-! ## Before and after the stop -/

/-- What the relay has done with messages, and when it stopped. -/
def handled (s : Session) : List Message × List Message × Nat × Option Nat :=
  (s.taken, s.begun, s.relay.dispatched, s.stopped)

theorem withView_handled (s : Session) {v : Dispatcher.Session} (hbegun : v.begun = s.begun) :
    (s.withView v).handled = s.handled :=
  congrArg (fun begun => (s.taken, begun, s.relay.dispatched, s.stopped)) hbegun

theorem look_handled (s : Session) : s.look.handled = s.handled ∧
    (s.relay.phase ≠ .dispatching → s.look.relay.phase ≠ .dispatching) := by
  by_cases hdraining : ∃ wait, s.relay.phase = .draining wait
  · obtain ⟨wait, hphase⟩ := hdraining
    rw [look_of_draining hphase]
    refine ⟨?_, fun _ => phase_drain _ _⟩
    simp only [handled, note, dispatched_drain]
  · rw [look_of_not_draining fun wait hphase => hdraining ⟨wait, hphase⟩]
    exact ⟨rfl, id⟩

/-- A relay that has stopped handles no message any more. -/
theorem Step.handled_eq (hstep : s.Step t) (h : s.relay.phase ≠ .dispatching) :
    t.handled = s.handled ∧ t.relay.phase ≠ .dispatching := by
  cases hstep with
  | input r messages hengine =>
    simp only [engine, Prod.mk.injEq] at hengine
    obtain ⟨-, -, hdispatched, hphase⟩ := hengine
    refine ⟨?_, ?_⟩
    · simp only [handled, hdispatched]
    · rw [← hphase] at h
      exact h
  | take m rest hphase => exact absurd hphase h
  | stop hphase => exact absurd hphase h
  | goOn doings =>
    exact ⟨s.withView_handled (s.view.begun_run_eq (Doing.dispatch_not_mem_map doings)), h⟩
  | tick doings =>
    obtain ⟨hhandled, hphase⟩ :=
      look_handled (s.withView ((s.view.act .clock).run (doings.map Doing.action)))
    refine ⟨hhandled.trans (s.withView_handled ?_), hphase h⟩
    exact (s.view.act .clock).begun_run_eq (Doing.dispatch_not_mem_map doings)

theorem handled_run_eq (h : s.relay.phase ≠ .dispatching) (actions : List Action) :
    (s.run actions).handled = s.handled :=
  (run_induction (P := fun t => t.handled = s.handled ∧ t.relay.phase ≠ .dispatching)
    (fun _ _ hstep hkept => (hstep.handled_eq hkept.2).imp_left (·.trans hkept.1))
    ⟨rfl, h⟩ actions).1

/-- A relay that has returned has done so for good. -/
theorem returned_run_eq (h : s.relay.phase = .returned) (actions : List Action) :
    (s.run actions).relay.phase = .returned ∧ (s.run actions).returned = s.returned := by
  refine run_induction (P := fun t => t.relay.phase = .returned ∧ t.returned = s.returned)
    (fun t u hstep hkept => ?_) ⟨h, rfl⟩ actions
  obtain ⟨hphase, hreturned⟩ := hkept
  cases hstep with
  | input r messages hengine =>
    simp only [engine, Prod.mk.injEq] at hengine
    exact ⟨hengine.2.2.2.trans hphase, hreturned⟩
  | take m rest hno => cases hphase.symm.trans hno
  | stop hno => cases hphase.symm.trans hno
  | goOn doings => exact ⟨hphase, hreturned⟩
  | tick doings =>
    unfold Session.tick
    rw [look_of_not_draining (by intro wait hno; cases hphase.symm.trans hno)]
    exact ⟨hphase, hreturned⟩

/-- A relay stops because of the signal, or because the input has ended and it has taken every
message. -/
theorem Step.stopped_eq (hstep : s.Step t) (h : t.stopped ≠ s.stopped) :
    t.stopped = some s.now ∧
      (s.relay.isSignalled = true ∨ s.relay.inbound = [] ∧ s.relay.isReading = false) := by
  cases hstep with
  | stop _ hwhy => exact ⟨rfl, hwhy⟩
  | tick doings =>
    refine absurd ?_ h
    exact congrArg (·.2.2.2) (look_handled _).1
  | _ => exact absurd rfl h

/-- With the signal, or without input, a relay stops when there is no message left to take. -/
theorem phase_run_choose (choices : List Preference) (s : Session)
    (hwhy : s.relay.isSignalled = true ∨ s.relay.isReading = false)
    (hlength : s.relay.inbound.length < choices.length) :
    (s.run (choices.map .choose)).relay.phase ≠ .dispatching := by
  induction choices generalizing s with
  | nil => exact absurd hlength (Nat.not_lt_zero _)
  | cons prefers rest ih =>
    have hstays {t : Session} (h : t.relay.phase ≠ .dispatching) :
        (t.run (rest.map .choose)).relay.phase ≠ .dispatching :=
      run_induction (fun _ _ hstep h => (hstep.handled_eq h).2) h _
    show ((s.choose prefers).run (rest.map .choose)).relay.phase ≠ .dispatching
    rcases s.choose_cases prefers with ⟨heq, hnothing⟩ |
      ⟨hphase, ⟨m, others, hinbound, heq⟩ | ⟨-, heq⟩⟩
    · rw [heq]
      refine hstays fun hphase => ?_
      obtain ⟨hsignal, -, hreading⟩ := hnothing hphase
      rw [hsignal, hreading] at hwhy
      simp at hwhy
    · rw [heq]
      refine ih (s.take m others) hwhy ?_
      rw [hinbound] at hlength
      exact Nat.lt_of_succ_lt_succ hlength
    · rw [heq]
      exact hstays (phase_stop _)

theorem Progress.stopped_eq_none_iff (h : s.Progress) :
    s.stopped = none ↔ s.relay.phase = .dispatching := by
  cases h with
  | dispatching hphase hstopped => simp [hphase, hstopped]
  | draining _ _ hphase hstopped => simp [hphase, hstopped]
  | returned _ _ hphase hstopped => simp [hphase, hstopped]

theorem Progress.hasReturned_eq (h : s.Progress) : s.relay.hasReturned = s.returned.isSome := by
  cases h with
  | dispatching hphase _ hreturned => simp [hasReturned, hphase, hreturned]
  | draining _ _ hphase _ hreturned => simp [hasReturned, hphase, hreturned]
  | returned _ _ hphase _ hreturned => simp [hasReturned, hphase, hreturned]

theorem drainTimeout_drain (r : Relay LocalBus) (wait : IdleWait) :
    (r.drain wait).drainTimeout = r.drainTimeout := by
  unfold drain
  split <;> rfl

theorem Step.drainTimeout_eq (hstep : s.Step t) : t.relay.drainTimeout = s.relay.drainTimeout := by
  cases hstep with
  | input r messages hengine => exact congrArg (·.2.1) hengine
  | stop => exact drainTimeout_drain _ _
  | tick doings =>
    unfold Session.tick
    by_cases hdraining : ∃ wait, s.relay.phase = .draining wait
    · obtain ⟨wait, hphase⟩ := hdraining
      rw [look_of_draining (s := s.withView _) hphase]
      exact drainTimeout_drain _ _
    · rw [look_of_not_draining (s := s.withView _) fun wait hphase => hdraining ⟨wait, hphase⟩]
      rfl
  | _ => rfl

theorem drainTimeout_run_eq (s : Session) (actions : List Action) :
    (s.run actions).relay.drainTimeout = s.relay.drainTimeout :=
  run_induction (P := fun t => t.relay.drainTimeout = s.relay.drainTimeout)
    (fun _ _ hstep h => hstep.drainTimeout_eq.trans h) rfl actions

theorem now_run_tick (s : Session) (ticks : List (List Doing)) :
    (s.run (ticks.map .tick)).now = s.now + ticks.length := by
  induction ticks generalizing s with
  | nil => rfl
  | cons doings rest ih =>
    have hview : (s.tick doings).view = (s.view.act .clock).run (doings.map Doing.action) :=
      view_look _
    have hnow : (s.tick doings).now = s.now + 1 :=
      (congrArg (·.dispatcher.now) hview).trans
        ((s.view.act .clock).now_run_eq (Doing.clock_not_mem_map doings))
    show ((s.tick doings).run (rest.map .tick)).now = _
    rw [ih, hnow, List.length_cons]
    omega

/-- A relay that has stopped returns when the time for draining has passed, if not before. -/
theorem IsOrderly.phase_run_tick (h : s.IsOrderly) (hphase : s.relay.phase ≠ .dispatching)
    {ticks : List (List Doing)} (hlong : s.relay.drainTimeout ≤ ticks.length) :
    (s.run (ticks.map .tick)).relay.phase = .returned := by
  have hnow := s.now_run_tick ticks
  have hstopped : (s.run (ticks.map .tick)).stopped = s.stopped :=
    congrArg (·.2.2.2) (handled_run_eq hphase _)
  cases (h.run (ticks.map .tick)).progress with
  | dispatching _ hnone =>
    exact absurd (h.progress.stopped_eq_none_iff.1 (hstopped.symm.trans hnone)) hphase
  | draining stop n hdraining hstop _ hafter _ _ hlt =>
    rw [drainTimeout_run_eq] at hlt
    cases h.progress with
    | dispatching hno => exact absurd hno hphase
    | draining stop' n' _ hstop' _ hbefore =>
      obtain rfl : stop' = stop :=
        Option.some.inj ((hstop'.symm.trans hstopped.symm).trans hstop)
      omega
    | returned _ _ hreturned => exact (returned_run_eq hreturned _).1
  | returned _ _ hreturned => exact hreturned

/-- **A relay runs until its exchanges are drained.** Whatever happens, the messages that it takes
are the first ones that came; one exchange begins for each of them that has a reply topic, none for
any other, and the relay counts the exchanges. It stops because of the signal, or because the input
has ended and it has taken everything, and with either it stops when there is nothing left to take,
if not before. From then on it takes nothing, and no exchange begins. It returns with the first look
that is due and finds no exchange in flight; then every exchange has ended, with its marker
published unless the bus is closed. If there is no such look until then, it returns when the time
for draining is up. -/
theorem runs_until_drained (settings : ExchangeSettings) (routes : RouteTable) (maxConcurrent : Nat)
    (reachable : Bool) (backends : List (Port × Behaviour)) (elsewhere : Behaviour)
    (drainTimeout channelRoom : Nat) (actions : List Action) :
    let s := (start settings routes maxConcurrent { reachable, backends, elsewhere } drainTimeout
      channelRoom).run actions
    let inFlight := s.relay.dispatcher.inFlight
    (s.taken <+: s.arrived ∧ s.begun = s.taken.filter (fun m => m.replyTopic ≠ "") ∧
      s.relay.dispatched = s.begun.length ∧
      (s.surroundings.ends ++ inFlight.map Exchange.id).Perm (List.range s.begun.length) ∧
      ∀ e ∈ inFlight, s.begun[e.id]? = some e.message) ∧
    ((s.relay.isSignalled = true ∨ s.relay.isReading = false) → ∀ choices : List Preference,
      s.relay.inbound.length < choices.length → (s.run (choices.map .choose)).stopped ≠ none) ∧
    (∀ a, s.stopped = none → (s.act a).stopped ≠ none → (s.act a).stopped = some s.now ∧
      (s.relay.isSignalled = true ∨ s.relay.isReading = false ∧ s.taken = s.arrived)) ∧
    s.relay.hasReturned = s.returned.isSome ∧ (s.returned ≠ none → s.stopped ≠ none) ∧
    ∀ stop, s.stopped = some stop →
      (∀ more, (s.run more).handled = s.handled) ∧
      (s.returned = none → ∃ n < drainTimeout, s.now = stop + n ∧ s.counts.length = n + 1 ∧
        ∀ k, ¬ s.FindsIdle k) ∧
      ∀ moment, s.returned = some moment → (∀ more, (s.run more).returned = some moment) ∧
        ∃ n ≤ drainTimeout, moment = stop + n ∧ s.counts.length = n + 1 ∧
          (∀ k < n, ¬ s.FindsIdle k) ∧
          (s.FindsIdle n ∧ inFlight = [] ∧ (∀ id m, s.begun[id]? = some m →
              (∃ report, s.surroundings.reports id = [report]) ∧
                (s.surroundings.bus.isOpen = true → ∃ payloads, s.surroundings.publications id =
                  Reply.chunks m payloads ++ [Reply.marker m payloads.length])) ∨
            ¬ s.FindsIdle n ∧ n = drainTimeout) := by
  intro s inFlight
  have hfresh := isOrderly_start settings routes maxConcurrent { reachable, backends, elsewhere }
    drainTimeout channelRoom rfl
  have horderly : s.IsOrderly := hfresh.run actions
  have hlimit : s.relay.drainTimeout = drainTimeout := drainTimeout_run_eq _ actions
  obtain ⟨hsound, hline, -, htallies, hprogress⟩ := horderly
  have hnextId : s.relay.dispatcher.tracker.nextId = s.begun.length := hsound.nextId_eq
  refine ⟨⟨htallies.isPrefix, htallies.begun_eq, htallies.dispatched_eq, ?_, hsound.message_eq⟩,
    ?_, ?_, hprogress.hasReturned_eq, ?_, ?_⟩
  · rw [← hnextId]
    exact hline.all
  · intro hwhy choices hlength
    have horderly' := (hfresh.run actions).run (choices.map .choose)
    rw [ne_eq, horderly'.progress.stopped_eq_none_iff]
    exact phase_run_choose choices s hwhy hlength
  · intro a hnone hstopped
    obtain ⟨hstop, hwhy⟩ := (s.step_act a).stopped_eq (by rw [hnone]; exact hstopped)
    refine ⟨hstop, hwhy.imp_right fun hdone => ⟨hdone.2, ?_⟩⟩
    have harrived := htallies.arrived_eq (by simp [hprogress.stopped_eq_none_iff.1 hnone])
    rwa [hdone.1, List.append_nil] at harrived
  · intro hreturned hnone
    cases hprogress with
    | dispatching _ _ hno => exact hreturned hno
    | draining _ _ _ hstopped => cases hnone.symm.trans hstopped
    | returned _ _ _ hstopped => cases hnone.symm.trans hstopped
  · intro stop hstopped
    have hphase : s.relay.phase ≠ .dispatching := by
      simp [← hprogress.stopped_eq_none_iff, hstopped]
    refine ⟨handled_run_eq hphase, ?_, ?_⟩
    · intro hnone
      cases hprogress with
      | dispatching hno => exact absurd hno hphase
      | draining stop' n _ hstopped' _ hnow hcounts hbusy hlt =>
        obtain rfl : stop' = stop := Option.some.inj (hstopped'.symm.trans hstopped)
        rw [hlimit] at hlt
        exact ⟨n, hlt, hnow, hcounts, hbusy⟩
      | returned _ _ _ _ hreturned => cases hnone.symm.trans hreturned
    · intro moment hmoment
      cases hprogress with
      | dispatching hno => exact absurd hno hphase
      | draining _ _ _ _ hnone => cases hnone.symm.trans hmoment
      | returned stop' n hreturned hstopped' hmoment' hcounts hbusy hle hend =>
        obtain rfl : stop' = stop := Option.some.inj (hstopped'.symm.trans hstopped)
        refine ⟨fun more => (returned_run_eq hreturned more).2.trans hmoment, n, ?_,
          Option.some.inj (hmoment.symm.trans hmoment'), hcounts, hbusy, ?_⟩
        · rwa [hlimit] at hle
        · rw [hlimit] at hend
          exact hend.imp_left (And.imp_right fun hnone =>
            ⟨hnone, fun id m hm => hsound.completed hnone hm⟩)

/-- A relay takes a message and passes over one without a reply topic. It stops because of the
signal while another one is there. Its exchange is answered within a millisecond, and the next look
after that is the one that finds no exchange in flight. -/
theorem runs_until_drained_at_second_look :
    let m : Message := ⟨"status", [103], "reply/0", none⟩
    let arrivals : List Message :=
      [m, ⟨"status", [103], "", none⟩, ⟨"status", [103], "reply/1", none⟩]
    let actions : List Action := arrivals.map .arrive ++
      [.choose .message, .choose .message, .doing .settle, .trigger, .choose .signal,
        .tick [.backend 0 (.write [72]), .backend 0 (.finish .closed), .settle]] ++
      List.replicate 24 (.tick [])
    let s := (start ({} : Config).exchangeSettings { defaultPort := 80 } 2
      { backends := [(80, .listen)] } 30000 2).run actions
    s.arrived = arrivals ∧ s.taken.length = 2 ∧ s.begun = [m] ∧ s.relay.dispatched = 1 ∧
      s.stopped = some 0 ∧ (∀ more, (s.run more).handled = s.handled) ∧
      s.returned = some 25 ∧ (∀ k < 25, ¬ s.FindsIdle k) ∧ s.FindsIdle 25 ∧
      ∃ payloads, s.surroundings.publications 0 =
        Reply.chunks m payloads ++ [Reply.marker m payloads.length] := by
  intro m arrivals actions s
  have harrived : s.arrived = arrivals := by decide +kernel
  have htaken : s.taken.length = 2 := by decide +kernel
  have hbegun : s.begun = [m] := by decide +kernel
  have hdispatched : s.relay.dispatched = 1 := by decide +kernel
  have hstopped : s.stopped = some 0 := by decide +kernel
  have hreturned : s.returned = some 25 := by decide +kernel
  have hopen : s.surroundings.bus.isOpen = true := by decide +kernel
  have hdrained := runs_until_drained ({} : Config).exchangeSettings { defaultPort := 80 } 2 true
    [(80, .listen)] .refuse 30000 2 actions
  have hs : s = (start ({} : Config).exchangeSettings { defaultPort := 80 } 2
      ⟨true, [(80, .listen)], .refuse, []⟩ 30000 2).run actions := rfl
  -- From here on the session is a variable, so that nothing evaluates it again.
  clear_value s
  dsimp only at hdrained
  rw [← hs] at hdrained
  obtain ⟨-, -, -, -, -, hafter⟩ := hdrained
  obtain ⟨hhandled, -, hreturn⟩ := hafter 0 hstopped
  obtain ⟨-, n, -, hn, -, hbusy, ⟨hfinds, -, hcompleted⟩ | ⟨-, hlate⟩⟩ := hreturn 25 hreturned
  · obtain rfl : n = 25 := by omega
    obtain ⟨-, hpublished⟩ := hcompleted 0 m (by rw [hbegun]; rfl)
    exact ⟨harrived, htaken, hbegun, hdispatched, hstopped, hhandled, hreturned, hbusy, hfinds,
      hpublished hopen⟩
  · omega

end Session

end Relay

end TopicRelay
