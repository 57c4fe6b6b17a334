import TopicRelay.Proofs.Dispatch.Resources
import TopicRelay.Proofs.Exchange.Time

/-!
# Exchanges in time

An exchange in flight is in time if it has time left (`IsInTime`), and one that has ended was in
time if it ended by its deadline, as its connection had it (`Timely`). What happens at one moment
keeps all exchanges in time, and so does the clock as long as every exchange notices each
millisecond (`Action.timed`): the invariant of such a session is `IsTimely`.

A turn touches the connection of its exchange only. `Minds` says what is left alone, and
`minds_visit` that a visit does so.
-/

namespace TopicRelay

open Surroundings (Talks Leaves)

/-! ## Links -/

/-- Whether a backend refuses at once does not depend on the connections. -/
theorem Network.answer_failed_congr {m n : Network} (hreachable : n.reachable = m.reachable)
    (hbackends : n.backends = m.backends) (helsewhere : n.elsewhere = m.elsewhere) (port : Port)
    (reason : String) : n.answer port = .failed reason ↔ m.answer port = .failed reason := by
  unfold answer
  rw [hreachable, behaviour_congr hbackends helsewhere]
  split
  · rfl
  · split <;> simp

namespace Dispatcher

/-- A link is moved only while it is pending and the relay waits for it. -/
theorem Happening.link_change (h : Happening) (n : Network) (c : Connection) :
    (h.change n c).link = c.link ∨ c.link = .pending ∧ c.held = true := by
  cases h with
  | accept =>
    by_cases hif : c.link = .pending ∧ c.held = true
    · exact Or.inr hif
    · exact Or.inl (by simp [change, hif])
  | refuse reason =>
    by_cases hif : c.link = .pending ∧ c.held = true
    · exact Or.inr hif
    · exact Or.inl (by simp [change, hif])
  | allow room => exact Or.inl (by simp only [change]; split <;> rfl)
  | write b => exact Or.inl (by simp only [change]; split <;> rfl)
  | finish ending => exact Or.inl (by simp only [change]; split <;> rfl)

/-- What happens to the link at a place. -/
theorem Happening.link_apply (h : Happening) (n : Network) (i j : Nat) :
    ((h.apply i n).connection j).link = (n.connection j).link ∨
      (n.connection j).link = .pending ∧ (n.connection j).held = true := by
  rw [h.apply_eq, Network.connection_modify]
  split
  · exact h.link_change n (n.connection j)
  · exact Or.inl rfl

/-! ## The doing of one exchange -/

/-- The surroundings `t` have come from `s` by the doing of one exchange, on the connection in the
place of its number, and the exchange has not ended. -/
structure Minds {β : Type} (id : Nat) (s t : Surroundings β) : Prop where
  refuses_iff : ∀ port reason,
    t.network.answer port = .failed reason ↔ s.network.answer port = .failed reason
  others : ∀ i ≠ id, t.network.connection i = s.network.connection i
  events_subset : s.events ⊆ t.events

section
variable {β : Type} {id now : Nat} {s t u : Surroundings β}

theorem Minds.refl (s : Surroundings β) : Minds id s s :=
  ⟨fun _ _ => Iff.rfl, fun _ _ => rfl, fun _ h => h⟩

theorem Minds.trans (h : Minds id s t) (h' : Minds id t u) : Minds id s u where
  refuses_iff port reason := (h'.refuses_iff port reason).trans (h.refuses_iff port reason)
  others i hi := (h'.others i hi).trans (h.others i hi)
  events_subset _ hx := h'.events_subset (h.events_subset hx)

theorem Minds.of_handles (h : s.network.Handles id t.network) (hevents : s.events ⊆ t.events) :
    Minds id s t where
  refuses_iff := Network.answer_failed_congr h.reachable_eq h.backends_eq h.elsewhere_eq
  others := h.others
  events_subset := hevents

theorem Minds.opened {e : Exchange} (hid : e.id = s.network.connections.length) :
    Minds e.id s (s.opened e now) where
  refuses_iff := Network.answer_failed_congr rfl rfl rfl
  others i hi := Network.connection_connect_of_ne (by rw [← hid]; exact hi) e.port
  events_subset _ hx := List.mem_cons_of_mem _ (List.mem_cons_of_mem _ hx)

end

/-! ## Time -/

/-- The exchange is in time at a moment. -/
def IsInTime {β : Type} (d : Dispatcher β) (moment : Nat) (e : Exchange) : Prop :=
  e.stage.InTime d.settings (d.surroundings.network.connection e.id).link moment

/-- An exchange with a slot that is in time has not come to its deadline. -/
theorem IsInTime.lt_deadline {β : Type} {d : Dispatcher β} {e : Exchange}
    {moment started place : Nat} (h : d.IsInTime moment e)
    (hruns : e.stage.runsOn? = some (started, place)) :
    started ≤ moment ∧ moment < started + d.settings.deadline := by
  have hpatience : d.settings.patience ≤ d.settings.deadline := Nat.min_le_right _ _
  unfold IsInTime at h
  rcases hstage : e.stage with _ | ⟨started', place', limit⟩ | c
  · rw [hstage] at hruns
    cases hruns
  · rw [hstage] at h hruns
    cases hruns
    obtain ⟨rfl, hstarted, hlt⟩ := h
    exact ⟨hstarted, by omega⟩
  · rw [hstage] at h hruns
    cases hruns
    exact ⟨h.2.1, h.2.2.1⟩

/-- Every exchange that has ended was in time. The network was `asked` for connections; a backend
that refuses at once ends the exchange at once. -/
structure Timely {β : Type} (asked : Network) (es : List Exchange) (d : Dispatcher β) : Prop where
  refuses_iff : ∀ port reason,
    d.surroundings.network.answer port = .failed reason ↔ asked.answer port = .failed reason
  accepted : ∀ e ∈ es, e.isRunning = true → ∀ reason, asked.answer e.port ≠ .failed reason
  ended : ∀ id ended report, .finished id ended report ∈ d.surroundings.events →
    ∃ started, .started id started ∈ d.surroundings.events ∧
      report.InTime d.settings (d.surroundings.network.connection id).link started ended ∧
      ∀ reason, asked.answer report.port = .failed reason →
        ended = started ∧ (d.surroundings.network.connection id).link = .failed reason

/-- An exchange in flight has not ended. -/
theorem InLine.ne_of_finished {β : Type} {es : List Exchange} {e : Exchange} {d : Dispatcher β}
    (h : InLine es d) (he : e ∈ es) {id ended : Nat} {report : Report}
    (hfinished : .finished id ended report ∈ d.surroundings.events) : id ≠ e.id := by
  have hnodup := h.all.nodup_iff.2 List.nodup_range
  exact (List.nodup_append.1 hnodup).2.2 id (Surroundings.mem_ends.2 ⟨_, _, hfinished⟩) e.id
    (List.mem_map_of_mem he)

section
variable {β : Type} {asked : Network} {before after : List Exchange} {e f : Exchange}
  {d d' : Dispatcher β} {moment : Nat}

theorem IsInTime.of_minds (h : d.IsInTime moment f) (hne : f.id ≠ e.id)
    (hsettings : d'.settings = d.settings) (hminds : Minds e.id d.surroundings d'.surroundings) :
    d'.IsInTime moment f := by
  rw [IsInTime, hsettings, hminds.others f.id hne]
  exact h

/-- A visit touches the connection of the exchange that is visited, and no other. -/
theorem minds_visit [MessageBus β] (hline : InLine (before ++ e :: after) d)
    (haccount : Accounted (before ++ e :: after) d)
    (hmay : d.MayGo before e) :
    Minds e.id d.surroundings (d.visit e).2.surroundings := by
  rcases d.visit_turns e with ⟨-, -, hvisit⟩ | ⟨started, place, slots, s, hslot, hturn⟩
  · rw [hvisit]
    exact .refl _
  · have hopens : place = e.id ∧ Minds e.id d.surroundings s := by
      rcases hslot with ⟨hqueued, hfree, -, rfl, rfl⟩ | ⟨hruns, -, rfl⟩
      · have hid := haccount.id_of_first hline hqueued (hmay.nobody_waits hqueued hfree)
        exact ⟨hid.symm, .opened hid⟩
      · exact ⟨haccount.place_eq e (Keeps.mem_middle.2 (Or.inl rfl)) started place hruns, .refl _⟩
    obtain ⟨rfl, hminds⟩ := hopens
    rcases hturn with ⟨stage, t, -, -, htalks, hvisit⟩ | ⟨report, t, -, hleaves, hvisit⟩
    · rw [hvisit]
      exact hminds.trans (.of_handles htalks.network htalks.events_subset)
    · have hminds' := hminds.trans (.of_handles hleaves.network hleaves.events_subset)
      rw [hvisit]
      exact ⟨hminds'.refuses_iff, hminds'.others, hminds'.events_subset⟩

namespace Timely

/-- One of the exchanges goes on. -/
theorem replace (h : Timely asked (before ++ e :: after) d)
    (hline : InLine (before ++ e :: after) d) (hsettings : d'.settings = d.settings)
    (hminds : Minds e.id d.surroundings d'.surroundings)
    (hfinished : ∀ i ended r, .finished i ended r ∈ d'.surroundings.events →
      .finished i ended r ∈ d.surroundings.events)
    (hf : ∀ reason, asked.answer f.port ≠ .failed reason) :
    Timely asked (before ++ f :: after) d' where
  refuses_iff port reason := (hminds.refuses_iff port reason).trans (h.refuses_iff port reason)
  accepted g hg hruns := by
    rcases Keeps.mem_middle.1 hg with rfl | hg
    · exact hf
    · exact h.accepted g (Keeps.mem_middle.2 (Or.inr hg)) hruns
  ended id ended report hmem := by
    have hold := hfinished id ended report hmem
    have hne := hline.ne_of_finished (Keeps.mem_middle.2 (Or.inl rfl)) hold
    obtain ⟨started, hstarted, hreport⟩ := h.ended id ended report hold
    rw [hsettings, hminds.others id hne]
    exact ⟨started, hminds.events_subset hstarted, hreport⟩

/-- One of the exchanges ends. -/
theorem remove {started now : Nat} {report : Report} (h : Timely asked (before ++ e :: after) d)
    (hline : InLine (before ++ e :: after) d) (hsettings : d'.settings = d.settings)
    (hminds : Minds e.id d.surroundings d'.surroundings)
    (hfinished : ∀ i ended r, .finished i ended r ∈ d'.surroundings.events →
      (i = e.id ∧ ended = now ∧ r = report) ∨ .finished i ended r ∈ d.surroundings.events)
    (hstarted : .started e.id started ∈ d'.surroundings.events)
    (hreport : report.InTime d.settings (d'.surroundings.network.connection e.id).link started now)
    (hrefused : ∀ reason, asked.answer report.port = .failed reason →
      now = started ∧ (d'.surroundings.network.connection e.id).link = .failed reason) :
    Timely asked (before ++ after) d' where
  refuses_iff port reason := (hminds.refuses_iff port reason).trans (h.refuses_iff port reason)
  accepted g hg := h.accepted g (Keeps.mem_middle.2 (Or.inr hg))
  ended id ended r hmem := by
    rw [hsettings]
    rcases hfinished id ended r hmem with ⟨rfl, rfl, rfl⟩ | hold
    · exact ⟨started, hstarted, hreport, hrefused⟩
    · have hne := hline.ne_of_finished (Keeps.mem_middle.2 (Or.inl rfl)) hold
      obtain ⟨started, hstarted, hreport⟩ := h.ended id ended r hold
      rw [hminds.others id hne]
      exact ⟨started, hminds.events_subset hstarted, hreport⟩

variable [MessageBus β]

/-- An exchange that is visited and was in time a millisecond ago at the earliest is in time. -/
theorem visit (h : Timely asked (before ++ e :: after) d)
    (hline : InLine (before ++ e :: after) d) (haccount : Accounted (before ++ e :: after) d)
    (hmay : d.MayGo before e)
    (he : d.IsInTime moment e) (hmoment : moment ≤ d.now) (hnow : d.now ≤ moment + 1) :
    Timely asked (before ++ (d.visit e).1.toList ++ after) (d.visit e).2 ∧
      ∀ f ∈ (d.visit e).1, (d.visit e).2.IsInTime d.now f := by
  have hmiddle : e ∈ before ++ e :: after := Keeps.mem_middle.2 (Or.inl rfl)
  have hminds := minds_visit hline haccount hmay
  rcases d.visit_turns e with ⟨hqueued, -, hvisit⟩ | ⟨started, place, slots, s, hslot, hturn⟩
  · rw [hvisit]
    refine ⟨?_, fun f hf => ?_⟩
    · rw [Option.toList_some, List.append_assoc, List.singleton_append]
      exact h
    · rw [Option.mem_some_iff] at hf
      rw [← hf, IsInTime, hqueued]
      trivial
  · -- What the exchange finds when it goes on with its slot, for the first time or again.
    have hfinds : place = e.id ∧
        (∀ i ended r, .finished i ended r ∈ s.events →
          .finished i ended r ∈ d.surroundings.events) ∧
        .started e.id started ∈ s.events ∧
        (e.advance d.settings d.now d.surroundings).1.InTime d.settings
          (s.network.connection e.id).link started d.now ∧
        ∀ reason, asked.answer e.port = .failed reason →
          d.now = started ∧ (s.network.connection e.id).link = .failed reason := by
      rcases hslot with ⟨hqueued, hfree, rfl, rfl, rfl⟩ | ⟨hruns, -, rfl⟩
      · have hid := haccount.id_of_first hline hqueued (hmay.nobody_waits hqueued hfree)
        refine ⟨hid.symm, fun i ended r => Surroundings.finished_opened_iff.1, ?_, ?_,
          fun reason hrefuses => ⟨rfl, ?_⟩⟩
        · exact List.mem_cons_of_mem _ List.mem_cons_self
        · rw [hid]
          exact e.start_inTime d.settings d.now d.surroundings hqueued
        · rw [hid, ← h.refuses_iff e.port reason |>.2 hrefuses]
          exact congrArg Connection.link (d.surroundings.network.connection_connect_self e.port)
      · have hplace := haccount.place_eq e hmiddle started place hruns
        refine ⟨hplace, fun i ended r hmem => hmem,
          Surroundings.mem_starts.1 (hline.runs e hmiddle started place hruns), ?_,
          fun reason hrefuses => ?_⟩
        · rw [hplace] at hruns
          exact e.advance_inTime d.settings d.now d.surroundings hruns he hmoment hnow
        · have hrunning := Exchange.isRunning_of_runsOn? hruns
          exact absurd hrefuses (h.accepted e hmiddle hrunning reason)
    obtain ⟨rfl, hold, hstarted, hinTime, hrefused⟩ := hfinds
    rcases hturn with ⟨stage, t, hadvance, hruns, htalks, hvisit⟩ |
      ⟨report, t, hadvance, hleaves, hvisit⟩
    · rw [hadvance] at hinTime
      obtain ⟨hstage, hhope⟩ := hinTime
      rw [hvisit] at hminds ⊢
      refine ⟨?_, fun f hf => ?_⟩
      · rw [Option.toList_some, List.append_assoc, List.singleton_append]
        refine h.replace hline rfl hminds (fun i ended r hmem => ?_) fun reason hrefuses => ?_
        · exact hold i ended r (htalks.finished_iff.1 hmem)
        · exact hhope reason (hrefused reason hrefuses).2
      · rw [Option.mem_some_iff] at hf
        rw [← hf, IsInTime]
        show stage.InTime d.settings (t.network.connection e.id).link d.now
        rw [htalks.network.link_eq]
        exact hstage
    · rw [hadvance] at hinTime
      have hport := e.port_of_ends d.settings d.now d.surroundings hadvance
      have hreport : report.InTime d.settings (t.network.connection e.id).link started d.now := by
        rw [hleaves.network.link_eq]
        exact hinTime
      have hrefused' (reason : String) (hrefuses : asked.answer report.port = .failed reason) :
          d.now = started ∧ (t.network.connection e.id).link = .failed reason := by
        rw [hport] at hrefuses
        rw [hleaves.network.link_eq]
        exact hrefused reason hrefuses
      rw [hvisit] at hminds ⊢
      refine ⟨?_, nofun⟩
      rw [Option.toList_none, List.append_nil]
      refine h.remove hline ?_ hminds (fun i ended r hmem => ?_) ?_ hreport hrefused'
      · rfl
      · exact (hleaves.finished_iff.1 hmem).imp_right (hold i ended r)
      · exact hleaves.events_subset hstarted

/-- Once every exchange has gone as far as it comes, all those that were in time a millisecond ago
at the earliest are in time. -/
theorem settle (h : Timely asked d.inFlight d) (hline : InLine d.inFlight d)
    (haccount : Accounted d.inFlight d) (hes : ∀ e ∈ d.inFlight, d.IsInTime moment e)
    (hmoment : moment ≤ d.now) (hnow : d.now ≤ moment + 1) :
    Timely asked d.settle.inFlight d.settle ∧
      ∀ e ∈ d.settle.inFlight, d.settle.IsInTime d.settle.now e := by
  have hvisits := hline.visitAll_induction
    (P := fun before es d => Accounted (before ++ es) d ∧ Timely asked (before ++ es) d ∧
      (∀ f ∈ before, d.IsInTime d.now f) ∧ (∀ f ∈ es, d.IsInTime moment f) ∧
      moment ≤ d.now ∧ d.now ≤ moment + 1)
    ?_ ⟨haccount, h, nofun, hes, hmoment, hnow⟩
  · obtain ⟨-, -, -, hall, hin, -⟩ := hvisits
    rw [List.append_nil] at hall
    exact ⟨⟨hall.refuses_iff, hall.accepted, hall.ended⟩, hin⟩
  · rintro before e after d hline hmay ⟨haccount, h, hbefore, hafter, hmoment, hnow⟩
    have hminds := minds_visit hline haccount hmay
    obtain ⟨hvisit, hkept⟩ :=
      h.visit hline haccount hmay (hafter e List.mem_cons_self) hmoment hnow
    have hsettings := d.settings_visit e
    rw [d.now_visit e]
    refine ⟨haccount.visit hline hmay, hvisit, fun f hf => ?_, fun f hf => ?_, hmoment, hnow⟩
    · rcases List.mem_append.1 hf with hf | hf
      · exact (hbefore f hf).of_minds (hline.id_ne (List.mem_append_left _ hf)) hsettings hminds
      · exact hkept f (Option.mem_toList.1 hf)
    · exact (hafter f (List.mem_cons_of_mem _ hf)).of_minds
        (hline.id_ne (List.mem_append_right _ hf)) hsettings hminds

theorem proceed (h : Timely asked d.inFlight d) (hline : InLine d.inFlight d)
    (haccount : Accounted d.inFlight d) (hes : ∀ e ∈ d.inFlight, d.IsInTime d.now e) (place : Nat) :
    Timely asked (d.proceed place).inFlight (d.proceed place) ∧
      ∀ e ∈ (d.proceed place).inFlight, (d.proceed place).IsInTime (d.proceed place).now e := by
  rcases d.proceed_cases place with heq | ⟨before, e, after, hsplit, hmay, heq⟩
  · rw [heq]
    exact ⟨h, hes⟩
  · rw [heq]
    rw [hsplit] at h hline haccount hes
    have hminds := minds_visit hline haccount hmay
    obtain ⟨hvisit, hkept⟩ := h.visit hline haccount hmay
      (hes e (Keeps.mem_middle.2 (Or.inl rfl))) (Nat.le_refl _) (Nat.le_succ _)
    have hsettings := d.settings_visit e
    refine ⟨⟨hvisit.refuses_iff, hvisit.accepted, hvisit.ended⟩, fun f hf => ?_⟩
    show (d.visit e).2.IsInTime (d.visit e).2.now f
    rw [d.now_visit e]
    rcases mem_visited.1 hf with hf | hf
    · exact hkept f hf
    · exact (hes f (Keeps.mem_middle.2 (Or.inr hf))).of_minds (hline.id_ne hf) hsettings hminds

end Timely

end

/-! ## Sessions -/

/-- Exchanges that are in time stay so when somebody moves a link that is pending. -/
theorem IsInTime.of_link {β : Type} {d d' : Dispatcher β} {moment : Nat} {e : Exchange}
    (h : d.IsInTime moment e) (hsettings : d'.settings = d.settings)
    (hlink : (d'.surroundings.network.connection e.id).link =
        (d.surroundings.network.connection e.id).link ∨
      (d.surroundings.network.connection e.id).link = .pending) : d'.IsInTime moment e := by
  unfold IsInTime at h ⊢
  rw [hsettings]
  cases hstage : e.stage with
  | queued => trivial
  | connecting started place limit =>
    rw [hstage] at h
    exact h
  | conversing c =>
    rw [hstage] at h
    obtain ⟨⟨number, hnumber⟩, hrest⟩ := h
    rcases hlink with hlink | hlink
    · exact ⟨⟨number, hlink.trans hnumber⟩, hrest⟩
    · rw [hlink] at hnumber
      cases hnumber

namespace Timely

variable {β : Type} {asked : Network} {es : List Exchange} {e : Exchange} {d d' : Dispatcher β}

/-- What happens neither to an exchange nor to the network. -/
theorem of_eq (h : Timely asked es d) (hsettings : d'.settings = d.settings)
    (hnetwork : d'.surroundings.network = d.surroundings.network)
    (hevents : ∀ event ∈ d'.surroundings.events, event.exchange?.isSome →
      event ∈ d.surroundings.events)
    (hsubset : d.surroundings.events ⊆ d'.surroundings.events) : Timely asked es d' where
  refuses_iff := by rw [hnetwork]; exact h.refuses_iff
  accepted := h.accepted
  ended id ended report hmem := by
    rw [hnetwork, hsettings]
    obtain ⟨started, hstarted, hreport⟩ := h.ended id ended report (hevents _ hmem rfl)
    exact ⟨started, hsubset hstarted, hreport⟩

/-- An exchange begins, and waits. -/
theorem begin (h : Timely asked es d) (hqueued : e.stage = .queued)
    (hsettings : d'.settings = d.settings)
    (hnetwork : d'.surroundings.network = d.surroundings.network)
    (hevents : d'.surroundings.events = d.surroundings.events) : Timely asked (es ++ [e]) d' where
  refuses_iff := by rw [hnetwork]; exact h.refuses_iff
  accepted f hf hruns := by
    rcases List.mem_append.1 hf with hf | hf
    · exact h.accepted f hf hruns
    · rw [List.mem_singleton.1 hf] at hruns
      exact absurd hqueued (Exchange.isRunning_iff.1 hruns)
  ended id ended report hmem := by
    rw [hnetwork, hsettings, hevents]
    rw [hevents] at hmem
    exact h.ended id ended report hmem

/-- What happens at the far end of a connection. -/
theorem backend (h : Timely asked es d) (hline : InLine es d) (haccount : Accounted es d) (i : Nat)
    (happening : Happening) : Timely asked es (d.onNetwork fun n => happening.apply i n) where
  refuses_iff port reason := by
    rw [← h.refuses_iff]
    apply Network.answer_failed_congr <;> cases happening <;> rfl
  accepted := h.accepted
  ended id ended report hmem := by
    obtain ⟨started, hstarted, hreport⟩ := h.ended id ended report hmem
    refine ⟨started, hstarted, ?_⟩
    show report.InTime d.settings
      ((happening.apply i d.surroundings.network).connection id).link started ended ∧ ∀ reason,
      asked.answer report.port = .failed reason → ended = started ∧
        ((happening.apply i d.surroundings.network).connection id).link = .failed reason
    rcases happening.link_apply d.surroundings.network i id with hlink | ⟨-, hheld⟩
    · rw [hlink]
      exact hreport
    · -- The exchange has ended, so that its connection has no holder.
      obtain ⟨e, he, -, hid⟩ := haccount.holder id hheld
      exact absurd hid.symm (hline.ne_of_finished he hmem)

end Timely

namespace Session

/-- The session is in time. Its network was at first the one that is `asked` for connections. -/
structure IsTimely (asked : Network) (s : Session) : Prop where
  line : s.IsInLine
  account : s.IsAccounted
  timely : Timely asked s.dispatcher.inFlight s.dispatcher
  inTime : ∀ e ∈ s.dispatcher.inFlight, s.dispatcher.IsInTime s.dispatcher.now e

theorem isTimely_start (settings : ExchangeSettings) (routes : RouteTable) (maxConcurrent : Nat)
    {network : Network} (h : network.connections = []) :
    (start settings routes maxConcurrent network).IsTimely network := by
  refine ⟨isInLine_start _ _ _ _, isAccounted_start _ _ _ h, ⟨?_, ?_, ?_⟩, ?_⟩
  · exact fun _ _ => Iff.rfl
  · intro e he
    cases he
  · intro id ended report hmem
    cases hmem
  · intro e he
    cases he

theorem IsTimely.settle {asked : Network} {s : Session} {moment : Nat} (hline : s.IsInLine)
    (haccount : s.IsAccounted) (h : Timely asked s.dispatcher.inFlight s.dispatcher)
    (hes : ∀ e ∈ s.dispatcher.inFlight, s.dispatcher.IsInTime moment e)
    (hmoment : moment ≤ s.dispatcher.now) (hnow : s.dispatcher.now ≤ moment + 1) :
    (s.act .settle).IsTimely asked := by
  obtain ⟨htimely, hin⟩ := Timely.settle h hline haccount hes hmoment hnow
  exact ⟨hline.act .settle, haccount.act hline .settle, htimely, hin⟩

/-- Whatever happens at one moment keeps a session in time. -/
theorem IsTimely.act {asked : Network} {s : Session} (h : s.IsTimely asked) {a : Action}
    (ha : a ≠ .clock) : (s.act a).IsTimely asked := by
  have hline := h.line.act a
  have haccount := h.account.act h.line a
  cases a with
  | dispatch m =>
    by_cases hreply : m.replyTopic = ""
    · refine ⟨hline, haccount, ?_, ?_⟩ <;>
        rw [act_dispatch_of_eq s hreply, dispatch_of_eq _ hreply]
      · refine Timely.of_eq h.timely rfl rfl (fun event hmem hsome => ?_) ?_
        · rcases List.mem_cons.1 hmem with rfl | hmem
          · cases hsome
          · exact hmem
        · exact List.subset_cons_self _ _
      · exact h.inTime
    · refine ⟨hline, haccount, ?_, ?_⟩ <;>
        rw [act_dispatch_of_ne s hreply, dispatch_of_ne _ hreply]
      · exact Timely.begin (e := s.dispatcher.exchangeFor m) h.timely rfl rfl rfl rfl
      · intro e he
        rcases List.mem_append.1 he with he | he
        · exact h.inTime e he
        · rw [List.mem_singleton.1 he]
          trivial
  | backend connection happening =>
    refine ⟨hline, haccount, Timely.backend h.timely h.line h.account connection happening,
      fun e he => ?_⟩
    refine IsInTime.of_link (h.inTime e he) rfl ?_
    exact (happening.link_apply _ connection e.id).imp_right And.left
  | clock => exact absurd rfl ha
  | proceed place =>
    obtain ⟨htimely, hin⟩ := Timely.proceed h.timely h.line h.account h.inTime place
    exact ⟨hline, haccount, htimely, hin⟩
  | settle =>
    exact IsTimely.settle h.line h.account h.timely h.inTime (Nat.le_refl _) (Nat.le_succ _)
  | _ =>
    exact ⟨hline, haccount, Timely.of_eq h.timely rfl rfl (fun _ hmem _ => hmem) fun _ hmem => hmem,
      h.inTime⟩

/-- A millisecond passes, and everybody notices it. -/
theorem IsTimely.tick {asked : Network} {s : Session} (h : s.IsTimely asked) :
    (((s.act .settle).act .clock).act .settle).IsTimely asked := by
  have hsettled : (s.act .settle).IsTimely asked := h.act nofun
  refine @IsTimely.settle asked _ (s.act .settle).dispatcher.now (hsettled.line.act .clock)
    (hsettled.account.act hsettled.line .clock) ?_ hsettled.inTime (Nat.le_succ _) (Nat.le_refl _)
  exact ⟨hsettled.timely.refuses_iff, hsettled.timely.accepted, hsettled.timely.ended⟩

end Session

/-! ## Time that only the clock takes -/

/-- An action in its time: the clock moves on when every exchange has gone as far as it comes, and
then every exchange notices it. -/
def Action.timed : Action → List Action
  | .clock => [.settle, .clock, .settle]
  | a => [a]

namespace Session

/-- What holds of a session and is kept at one moment and by the clock holds at any time. -/
theorem timed_induction {P : Session → Prop} (hact : ∀ s a, a ≠ .clock → P s → P (s.act a))
    (htick : ∀ s, P s → P (((s.act .settle).act .clock).act .settle)) (actions : List Action)
    {s : Session} (h : P s) : P (s.run (actions.flatMap Action.timed)) := by
  induction actions generalizing s with
  | nil => exact h
  | cons a rest ih =>
    rw [List.flatMap_cons, run_append]
    apply ih
    by_cases hclock : a = .clock
    · rw [hclock]
      exact htick s h
    · have htimed : a.timed = [a] := by
        cases a with
        | clock => exact absurd rfl hclock
        | _ => rfl
      rw [htimed]
      exact hact s a hclock h

theorem IsTimely.run {asked : Network} {s : Session} (h : s.IsTimely asked)
    (actions : List Action) : (s.run (actions.flatMap Action.timed)).IsTimely asked :=
  timed_induction (P := IsTimely asked) (fun _ _ ha h => h.act ha) (fun _ h => h.tick) actions h

end Session

end Dispatcher

end TopicRelay
