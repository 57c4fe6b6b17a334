import TopicRelay.Proofs.Dispatch.Polling
import TopicRelay.Proofs.Dispatch.Time

/-!
# How long exchanges take

Exchanges that have their slots end in time, and they are served in the order in which they began.
So whoever waits stands behind as many exchanges as there are slots, all of which end within the
deadline (`InLine.exists_running_before`): the wait for a slot lasts one deadline for every full
round of exchanges before. `IsServed` is the invariant, and `ends_in_time` the whole account.
-/

namespace TopicRelay

namespace Dispatcher

/-! ## Standing in line -/

/-- The first of some ascending numbers is as far below a bound as there are numbers. -/
theorem exists_add_length_le {numbers : List Nat} {bound : Nat}
    (hascending : numbers.Pairwise (· < ·)) (hne : numbers ≠ [])
    (hbound : ∀ i ∈ numbers, i < bound) : ∃ i ∈ numbers, i + numbers.length ≤ bound := by
  induction numbers with
  | nil => exact absurd rfl hne
  | cons first rest ih =>
    refine ⟨first, List.mem_cons_self, ?_⟩
    obtain ⟨hfirst, hrest⟩ := List.pairwise_cons.1 hascending
    rcases rest with _ | ⟨second, rest⟩
    · exact hbound first List.mem_cons_self
    · obtain ⟨i, hi, hle⟩ := ih hrest (List.cons_ne_nil _ _) fun j hj =>
        hbound j (List.mem_cons_of_mem _ hj)
      have hlt := hfirst i hi
      simp only [List.length_cons] at hle ⊢
      omega

section
variable {β : Type} {d : Dispatcher β} {es : List Exchange} {e f : Exchange}

/-- Exchanges that wait began after those that hold a slot. -/
theorem InLine.id_lt (h : InLine es d) (he : e ∈ es) (hf : f ∈ es) (hqueued : e.stage = .queued)
    (hrunning : f.stage ≠ .queued) : f.id < e.id := by
  obtain ⟨started, place, hruns⟩ := Stage.exists_runsOn? hrunning
  have hstarted : f.id ∈ d.surroundings.starts.map Prod.fst :=
    List.mem_map_of_mem (h.runs f hf started place hruns)
  have hwaits : e.id ∈ (es.filter Exchange.isQueued).map Exchange.id :=
    List.mem_map_of_mem (List.mem_filter.2 ⟨he, Exchange.isQueued_iff.2 hqueued⟩)
  have hascending : (List.range d.tracker.nextId).Pairwise (· < ·) := List.pairwise_lt_range
  rw [← h.numbers, List.pairwise_append] at hascending
  exact hascending.2.2 f.id hstarted e.id hwaits

/-- While no slot is free, whoever waits stands behind as many exchanges as there are slots. -/
theorem InLine.exists_running_before (h : InLine es d) (hfree : d.freeSlots = 0)
    (hslots : 0 < d.maxConcurrent) (he : e ∈ es) (hqueued : e.stage = .queued) :
    ∃ f ∈ es, f.stage ≠ .queued ∧ f.id + d.maxConcurrent ≤ e.id := by
  have hall : (es.filter Exchange.isRunning).length = d.maxConcurrent := by
    have hslots := h.slots_eq
    omega
  have hlength : ((es.filter Exchange.isRunning).map Exchange.id).length = d.maxConcurrent := by
    rw [List.length_map, hall]
  have hne : (es.filter Exchange.isRunning).map Exchange.id ≠ [] := by
    intro hnil
    rw [hnil, List.length_nil] at hlength
    omega
  have hbefore : ∀ i ∈ (es.filter Exchange.isRunning).map Exchange.id, i < e.id := by
    intro i hi
    obtain ⟨f, hf, rfl⟩ := List.mem_map.1 hi
    obtain ⟨hf, hrunning⟩ := List.mem_filter.1 hf
    exact h.id_lt he hf hqueued (Exchange.isRunning_iff.1 hrunning)
  have hascending := h.ascending.sublist
    ((List.filter_sublist (p := Exchange.isRunning) (l := es)).map Exchange.id)
  obtain ⟨i, hi, hle⟩ := exists_add_length_le hascending hne hbefore
  obtain ⟨f, hf, rfl⟩ := List.mem_map.1 hi
  obtain ⟨hf, hrunning⟩ := List.mem_filter.1 hf
  rw [hlength] at hle
  exact ⟨f, hf, Exchange.isRunning_iff.1 hrunning, hle⟩

end

/-! ## Getting a slot in time -/

/-- The time by which the exchange of a number has its slot: the exchanges before it that began by
a moment take one deadline for every full round of slots. -/
def dueTime (slots deadline moment id : Nat) : Nat := moment + id / slots * deadline

/-- Who stands behind a full round of slots is due a deadline later. -/
theorem dueTime_add_le {slots deadline moment i j : Nat} (hslots : 0 < slots) (h : i + slots ≤ j) :
    dueTime slots deadline moment i + deadline ≤ dueTime slots deadline moment j := by
  have hround : i / slots + 1 ≤ j / slots := by
    rw [← Nat.add_div_right i hslots]
    exact Nat.div_le_div_right h
  have hmul := Nat.mul_le_mul_right deadline hround
  rw [Nat.add_mul, Nat.one_mul] at hmul
  unfold dueTime
  omega

/-- All who began by a moment are due before the last of their rounds. -/
theorem dueTime_add_le_rounds {slots deadline moment first id : Nat} (hslots : 0 < slots)
    (h : id < first) : dueTime slots deadline moment id + deadline ≤
      moment + (first + slots - 1) / slots * deadline := by
  have hround : id / slots + 1 ≤ (first + slots - 1) / slots := by
    rw [← Nat.add_div_right id hslots]
    exact Nat.div_le_div_right (by omega)
  have hmul := Nat.mul_le_mul_right deadline hround
  rw [Nat.add_mul, Nat.one_mul] at hmul
  unfold dueTime
  omega

/-- The exchange has got its slot by a time, or it waits for it and the time has not passed. -/
def IsServed (now due : Nat) (e : Exchange) : Prop :=
  (e.stage = .queued → now ≤ due) ∧
    ∀ started place, e.stage.runsOn? = some (started, place) → started ≤ due

section
variable {β : Type} [MessageBus β] {d : Dispatcher β} {e : Exchange} {due : Nat}

/-- An exchange that gets its slot gets it now, and keeps it. -/
theorem IsServed.visit (h : IsServed d.now due e) : ∀ f ∈ (d.visit e).1, IsServed d.now due f := by
  intro f hf
  rcases d.visit_turns e with ⟨-, -, hvisit⟩ | ⟨started, place, slots, s, hslot, hturn⟩
  · rw [hvisit, Option.mem_some_iff] at hf
    rw [← hf]
    exact h
  · have hstarted : started ≤ due := by
      rcases hslot with ⟨hqueued, -, rfl, -, -⟩ | ⟨hruns, -, -⟩
      · exact h.1 hqueued
      · exact h.2 started place hruns
    rcases hturn with ⟨stage, t, -, hruns, -, hvisit⟩ | ⟨report, t, -, -, hvisit⟩
    · rw [hvisit, Option.mem_some_iff] at hf
      rw [← hf]
      refine ⟨fun hqueued => ?_, fun started' place' hruns' => ?_⟩
      · change stage = .queued at hqueued
        rw [hqueued] at hruns
        cases hruns
      · change stage.runsOn? = _ at hruns'
        rw [hruns] at hruns'
        cases hruns'
        exact hstarted
    · rw [hvisit] at hf
      cases hf

end

namespace Session

/-- The exchanges that began by a moment, the first ones of the session, get their slots in time. -/
structure IsServed (slots deadline moment first : Nat) (s : Session) : Prop where
  slots_eq : s.dispatcher.maxConcurrent = slots
  deadline_eq : s.dispatcher.settings.deadline = deadline
  begun : first ≤ s.dispatcher.tracker.nextId
  served : ∀ e ∈ s.dispatcher.inFlight, e.id < first →
    Dispatcher.IsServed s.dispatcher.now (dueTime slots deadline moment e.id) e

namespace IsServed

variable {asked : Network} {slots deadline moment first : Nat} {s : Session}

theorem act (h : s.IsServed slots deadline moment first) {a : Action} (ha : a ≠ .clock) :
    (s.act a).IsServed slots deadline moment first := by
  have hrules := s.rules_act a
  simp only [rules, Prod.mk.injEq] at hrules
  refine ⟨hrules.2.2.trans h.slots_eq,
    (congrArg ExchangeSettings.deadline hrules.1).trans h.deadline_eq,
    h.begun.trans (s.nextId_le_act a), ?_⟩
  rw [s.now_act ha]
  refine forall_act (fun d hframe e he f hf hlt => ?_) (fun m hlt => ?_) h.served a
  · have hnow : d.now = s.dispatcher.now := congrArg (·.2.2.2.1) hframe
    rw [id_of_visit f hf] at hlt ⊢
    have he := he hlt
    rw [← hnow] at he ⊢
    exact he.visit f hf
  · exact absurd h.begun (Nat.not_le_of_lt hlt)

/-- Once everybody has gone as far as it comes, those that wait can wait for another millisecond:
they stand behind exchanges that run and have not come to their deadlines. -/
theorem lt_due (h : s.IsServed slots deadline moment first) (hslots : 0 < slots)
    (htimely : s.IsTimely asked) {e : Exchange} (he : e ∈ s.dispatcher.inFlight)
    (hqueued : e.stage = .queued) (hlt : e.id < first) (hfree : s.dispatcher.freeSlots = 0) :
    s.dispatcher.now < dueTime slots deadline moment e.id := by
  obtain ⟨f, hf, hrunning, hle⟩ := InLine.exists_running_before htimely.line hfree
    (by rw [h.slots_eq]; exact hslots) he hqueued
  obtain ⟨started, place, hruns⟩ := Stage.exists_runsOn? hrunning
  rw [h.slots_eq] at hle
  have hstarted := (h.served f hf (by omega)).2 started place hruns
  have hleft := ((htimely.inTime f hf).lt_deadline hruns).2
  rw [h.deadline_eq] at hleft
  have hdue := @dueTime_add_le slots deadline moment f.id e.id hslots hle
  omega

theorem tick (h : s.IsServed slots deadline moment first) (hslots : 0 < slots)
    (htimely : s.IsTimely asked) :
    (((s.act .settle).act .clock).act .settle).IsServed slots deadline moment first := by
  have hsettled := h.act (a := .settle) nofun
  have htimely' := htimely.act (a := .settle) nofun
  have hfree := (InLine.settle htimely.line).2
  refine IsServed.act (s := (s.act .settle).act .clock)
    ⟨hsettled.slots_eq, hsettled.deadline_eq, hsettled.begun,
      fun e he hlt => ⟨fun hqueued => ?_, (hsettled.served e he hlt).2⟩⟩ nofun
  exact hsettled.lt_due hslots htimely' he hqueued hlt (hfree e he hqueued)

theorem run (h : s.IsServed slots deadline moment first) (hslots : 0 < slots)
    (htimely : s.IsTimely asked) (actions : List Action) :
    (s.run (actions.flatMap Action.timed)).IsServed slots deadline moment first :=
  (timed_induction (P := fun s => s.IsServed slots deadline moment first ∧ s.IsTimely asked)
    (fun _ _ ha h => ⟨h.1.act ha, h.2.act ha⟩) (fun _ h => ⟨h.1.tick hslots h.2, h.2.tick⟩) actions
    ⟨h, htimely⟩).1

end IsServed

/-- Nobody starts twice. -/
theorem IsInLine.started_unique {s : Session} (h : s.IsInLine) {id first second : Nat}
    (hfirst : .started id first ∈ s.surroundings.events)
    (hsecond : .started id second ∈ s.surroundings.events) : first = second := by
  have hnumbers := h.numbers
  have hnodup := @List.nodup_range s.dispatcher.tracker.nextId
  rw [← hnumbers, List.nodup_append] at hnodup
  have hpair := List.inj_on_of_nodup_map hnodup.1 (Surroundings.mem_starts.2 hfirst)
    (Surroundings.mem_starts.2 hsecond) rfl
  exact (Prod.mk.inj hpair).2

/-- An exchange in flight that has started has a slot, since then. -/
theorem IsInLine.runs_of_started {s : Session} (h : s.IsInLine) {e : Exchange}
    (he : e ∈ s.dispatcher.inFlight) {started : Nat}
    (hstarted : .started e.id started ∈ s.surroundings.events) :
    ∃ place, e.stage.runsOn? = some (started, place) := by
  have hrunning : e.stage ≠ .queued :=
    h.not_queued he (List.mem_map_of_mem (Surroundings.mem_starts.2 hstarted))
  obtain ⟨started', place, hruns⟩ := Stage.exists_runsOn? hrunning
  have hsame := h.started_unique hstarted (Surroundings.mem_starts.1 (h.runs e he _ _ hruns))
  exact ⟨place, by rw [hsame, hruns]⟩

theorem IsInLine.id_lt_of_started {s : Session} (h : s.IsInLine) {id started : Nat}
    (hstarted : .started id started ∈ s.surroundings.events) :
    id < s.dispatcher.tracker.nextId := by
  have hmem : id ∈ s.surroundings.starts.map Prod.fst :=
    List.mem_map_of_mem (Surroundings.mem_starts.2 hstarted)
  rw [← List.mem_range, ← h.numbers]
  exact List.mem_append_left _ hmem

/-- Whoever has started is in flight or has ended. -/
theorem IsInLine.finished_of_started {s : Session} (h : s.IsInLine) {id started : Nat}
    (hstarted : .started id started ∈ s.surroundings.events) (hout : ¬ s.IsInFlight id) :
    ∃ ended report, .finished id ended report ∈ s.surroundings.events := by
  have hmem := List.mem_range.2 (h.id_lt_of_started hstarted)
  rw [← h.all.mem_iff, List.mem_append] at hmem
  rcases hmem with hended | hflight
  · exact Surroundings.mem_ends.1 hended
  · obtain ⟨e, he, hid⟩ := List.mem_map.1 hflight
    exact absurd ⟨e, he, hid⟩ hout

theorem IsSound.exists_begun {s : Session} (h : s.IsSound) {id : Nat}
    (hlt : id < s.dispatcher.tracker.nextId) : ∃ m, s.begun[id]? = some m := by
  rw [h.nextId_eq] at hlt
  exact ⟨_, List.getElem?_eq_getElem hlt⟩

/-- Whoever has its slot by a moment, or waits for it then, has not waited for too long. -/
theorem IsInLine.isServed {s : Session} (h : s.IsInLine) {moment first : Nat}
    (hfirst : first ≤ s.dispatcher.tracker.nextId) (hnow : s.dispatcher.now ≤ moment) :
    s.IsServed s.dispatcher.maxConcurrent s.dispatcher.settings.deadline moment first := by
  refine ⟨rfl, rfl, hfirst, fun e he _ => ⟨fun _ => ?_, fun started place hruns => ?_⟩⟩
  · exact Nat.le_trans hnow (Nat.le_add_right _ _)
  · have hstarted : started ≤ s.dispatcher.now := h.times_le _ (h.runs e he started place hruns)
    exact Nat.le_trans (Nat.le_trans hstarted hnow) (Nat.le_add_right _ _)

/-- Once its time has come, an exchange that is served in time is no longer in flight. -/
theorem IsServed.not_isInFlight {asked : Network} {slots deadline moment first id : Nat}
    {s : Session} (h : s.IsServed slots deadline moment first) (htimely : s.IsTimely asked)
    (hdeadline : 0 < deadline) (hid : id < first)
    (hdue : dueTime slots deadline moment id + deadline ≤ s.dispatcher.now) :
    ¬ s.IsInFlight id := by
  rintro ⟨e, he, rfl⟩
  obtain ⟨hwaits, hstarts⟩ := h.served e he hid
  rcases hruns : e.stage.runsOn? with _ | ⟨started, place⟩
  · have hnow := hwaits (Stage.runsOn?_eq_none_iff.1 hruns)
    omega
  · have hstarted := hstarts started place hruns
    have hleft := (htimely.inTime e he).lt_deadline hruns
    rw [h.deadline_eq] at hleft
    omega

/-- **Exchanges end in time.** In a session whose clock moves only when every exchange has gone as
far as it comes, an exchange that got its slot has ended at its deadline, whatever its backend does.
When it ended is told by its connection (`Report.InTime`): as a failure to connect if it was
refused, and then at once if the backend refuses at once; as a timeout after the connect timeout or
at the deadline, whichever is earlier, if nothing came of it; and otherwise for lack of time exactly
if that was at the deadline. None of this depends on the poll interval. If `first` exchanges have
begun by a `moment`, all of them have ended one deadline later for every round of slots that they
fill, each with its report and, while the bus is open, its marker. -/
theorem ends_in_time (settings : ExchangeSettings) (routes : RouteTable) (maxConcurrent : Nat)
    (reachable : Bool) (backends : List (Port × Behaviour)) (elsewhere : Behaviour)
    (actions : List Action) :
    let network : Network := { reachable, backends, elsewhere }
    let after (settings : ExchangeSettings) (actions : List Action) :=
      (start settings routes maxConcurrent network).run (actions.flatMap Action.timed)
    let s := after settings actions
    (∀ id started, .started id started ∈ s.surroundings.events →
      let link := (s.surroundings.network.connection id).link
      .connected id id ∈ s.surroundings.events ∧
      (s.IsInFlight id → s.dispatcher.now < started + settings.deadline) ∧
      (¬ s.IsInFlight id → ∃ ended report, .finished id ended report ∈ s.surroundings.events ∧
        s.surroundings.reports id = [report] ∧ report.InTime settings link started ended ∧
        ∀ reason, network.answer report.port = .failed reason →
          ended = started ∧ link = .failed reason)) ∧
    (∀ pollInterval,
      let t := after { settings with pollInterval } actions
      t.surroundings = s.surroundings ∧ t.delivered = s.delivered ∧ t.alert = s.alert) ∧
    (0 < maxConcurrent → 0 < settings.deadline →
      ∀ early later, actions = early ++ later → ∀ first moment,
        first ≤ (after settings early).begun.length →
        (after settings early).dispatcher.now ≤ moment →
        moment + (first + maxConcurrent - 1) / maxConcurrent * settings.deadline ≤
          s.dispatcher.now →
        ∀ id < first, ¬ s.IsInFlight id ∧
          ∃ m, s.begun[id]? = some m ∧ Ended m id s.surroundings) := by
  intro network after s
  have htimely : s.IsTimely network :=
    (isTimely_start settings routes maxConcurrent rfl).run actions
  have hsound : s.IsSound := (isSound_start settings routes maxConcurrent network).run _
  have hsettings : s.dispatcher.settings = settings :=
    congrArg (·.1) (rules_run (start settings routes maxConcurrent network) _)
  refine ⟨fun id started hstarted => ⟨htimely.account.connected id started hstarted, ?_, ?_⟩,
    ?_, ?_⟩
  · rintro ⟨e, he, rfl⟩
    obtain ⟨place, hruns⟩ := htimely.line.runs_of_started he hstarted
    rw [← hsettings]
    exact (htimely.inTime e he).lt_deadline hruns |>.2
  · intro hout
    obtain ⟨ended, report, hfinished⟩ := htimely.line.finished_of_started hstarted hout
    obtain ⟨started', hstarted', hreport, hrefused⟩ :=
      htimely.timely.ended id ended report hfinished
    obtain rfl := htimely.line.started_unique hstarted hstarted'
    rw [hsettings] at hreport
    refine ⟨ended, report, hfinished, ?_, hreport, hrefused⟩
    obtain ⟨m, hm⟩ := hsound.exists_begun (htimely.line.id_lt_of_started hstarted)
    obtain ⟨-, report', hreports, -⟩ := hsound.ended id m hm fun e he hid => hout ⟨e, he, hid⟩
    have hmem : report ∈ s.dispatcher.surroundings.reports id :=
      Surroundings.mem_reports_of_finished hfinished
    rw [hreports, List.mem_singleton] at hmem
    rw [hmem]
    exact hreports
  · intro pollInterval t
    have hsame : t.alert = s.alert :=
      run_start_pollInterval settings routes maxConcurrent network pollInterval _
    have hsurroundings : t.alert.surroundings = s.alert.surroundings := by rw [hsame]
    have hdelivered : t.alert.delivered = s.alert.delivered := by rw [hsame]
    exact ⟨hsurroundings, hdelivered, hsame⟩
  · intro hslots hdeadline early later hsplit first moment hfirst hmoment hrounds id hid
    have hearly : (after settings early).IsTimely network :=
      (isTimely_start settings routes maxConcurrent rfl).run early
    have hrules := rules_run (start settings routes maxConcurrent network)
      (early.flatMap Action.timed)
    simp only [rules, Prod.mk.injEq] at hrules
    have hsound' : (after settings early).IsSound := (isSound_start _ _ _ _).run _
    have hserved := hearly.line.isServed (hfirst.trans_eq hsound'.nextId_eq.symm)
      hmoment
    rw [hrules.1, hrules.2.2] at hserved
    have hrun : s = (after settings early).run (later.flatMap Action.timed) := by
      show (start settings routes maxConcurrent network).run (actions.flatMap Action.timed) = _
      rw [hsplit, List.flatMap_append, run_append]
    have hserved' := hserved.run hslots hearly later
    rw [← hrun] at hserved'
    have hdue := @dueTime_add_le_rounds maxConcurrent settings.deadline moment first id hslots hid
    have hout := hserved'.not_isInFlight htimely hdeadline hid (Nat.le_trans hdue hrounds)
    obtain ⟨m, hm⟩ := hsound.exists_begun (Nat.lt_of_lt_of_le hid hserved'.begun)
    exact ⟨hout, m, hm, hsound.ended id m hm fun e he hid => hout ⟨e, he, hid⟩⟩

/-- With one slot the second of two exchanges waits for the first one, whose backend is silent, and
then for a backend that never answers: both are over after two deadlines. -/
theorem ends_in_time_one_slot :
    let settings : ExchangeSettings :=
      { ({} : Config).exchangeSettings with connectTimeout := 2, deadline := 3, pollInterval := 1 }
    let routes := RouteTable.ofList [("hung", 81)] 80
    let network : Network := { backends := [(80, .listen), (81, .hang)] }
    let early : List Action := [
      .dispatch ⟨"silent", [103], "reply/0", none⟩, .dispatch ⟨"hung", [103], "reply/1", none⟩]
    let later : List Action := List.replicate 6 Action.clock
    let s := (start settings routes 1 network).run ((early ++ later).flatMap Action.timed)
    (0 < 1 ∧ 0 < settings.deadline ∧
      2 ≤ ((start settings routes 1 network).run (early.flatMap Action.timed)).begun.length ∧
      0 + (2 + 1 - 1) / 1 * settings.deadline ≤ s.dispatcher.now) ∧
    (.started 1 3 ∈ s.surroundings.events ∧
      .finished 1 5 ⟨81, .failed (.connectTimeout (.ofMillis 2)), 0, 0, 0, 2⟩ ∈
        s.surroundings.events) ∧
    ∀ id < 2, ¬ s.IsInFlight id ∧ ∃ m, s.begun[id]? = some m ∧ Ended m id s.surroundings := by
  intro settings routes network early later s
  have hbegun : 2 ≤
      ((start settings routes 1 network).run (early.flatMap Action.timed)).begun.length := by
    decide +kernel
  have hnow : 0 + (2 + 1 - 1) / 1 * settings.deadline ≤ s.dispatcher.now := by decide +kernel
  refine ⟨⟨by decide, by decide, hbegun, hnow⟩, ⟨by decide +kernel, by decide +kernel⟩, ?_⟩
  obtain ⟨-, -, hall⟩ := ends_in_time settings routes 1 true [(80, .listen), (81, .hang)] .refuse
    (early ++ later)
  exact hall (by decide) (by decide) early later rfl 2 0 hbegun (by decide +kernel) hnow

end Session

end Dispatcher

end TopicRelay
