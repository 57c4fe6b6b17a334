import TopicRelay.Exchange
import TopicRelay.Bus.Local

/-!
# What exchanges have done

The record of what has happened tells the exchanges apart: `history` is the part of it that belongs
to one exchange, and `publications` and `reports` are read off it, first first. `Writes` says that
the surroundings have changed by the doing of one exchange only, with every publication that the bus
has accepted on the record; it is what the other exchanges and the receiver have to know.
-/

namespace TopicRelay

namespace Event

/-- The number of the exchange that the event happened to. -/
def exchange? : Event → Option Nat
  | .started id _ | .connected id _ | .published id _ | .finished id _ _ => some id
  | .dropped _ => none

/-- The publication that the bus accepted. -/
def publication? : Event → Option Publication
  | .published _ p => some p
  | _ => none

/-- The publication that the bus accepted, with the number of the exchange. -/
def entry? : Event → Option (Nat × Publication)
  | .published id p => some (id, p)
  | _ => none

/-- The report of the exchange that ended. -/
def report? : Event → Option Report
  | .finished _ _ r => some r
  | _ => none

end Event

namespace Surroundings

section
variable {β : Type}

/-- What has happened to an exchange, first first. -/
def history (s : Surroundings β) (id : Nat) : List Event :=
  s.events.reverse.filter (·.exchange? = some id)

/-- What an exchange has published. -/
def publications (s : Surroundings β) (id : Nat) : List Publication :=
  (s.history id).filterMap Event.publication?

/-- The reports of an exchange, of which there should be at most one. -/
def reports (s : Surroundings β) (id : Nat) : List Report :=
  (s.history id).filterMap Event.report?

/-- What all exchanges have published, in the order in which the bus accepted it. -/
def published (s : Surroundings β) : List Publication :=
  s.events.reverse.filterMap Event.publication?

/-- What all exchanges have published, each publication with the number of its exchange. -/
def record (s : Surroundings β) : List (Nat × Publication) :=
  s.events.reverse.filterMap Event.entry?

theorem published_eq_record (s : Surroundings β) : s.published = s.record.map Prod.snd := by
  rw [published, record, List.map_filterMap]
  congr 1
  funext e
  cases e <;> rfl

theorem publications_eq_record (s : Surroundings β) (id : Nat) :
    s.publications id = (s.record.filter (·.1 = id)).map Prod.snd := by
  rw [publications, history, record, List.filterMap_filter, List.filter_filterMap,
    List.map_filterMap]
  congr 1
  funext e
  cases e with
  | published other p =>
    by_cases hid : other = id <;>
      simp [Event.exchange?, Event.publication?, Event.entry?, Option.filter, hid]
  | _ => simp [Event.publication?, Event.entry?]

theorem history_log (s : Surroundings β) (e : Event) (id : Nat) :
    (s.log e).history id = s.history id ++ if e.exchange? = some id then [e] else [] := by
  rw [history, log, List.reverse_cons, List.filter_append, history]
  by_cases h : e.exchange? = some id <;> simp [h]

theorem history_log_of_ne {s : Surroundings β} {e : Event} {id : Nat} (h : e.exchange? ≠ some id) :
    (s.log e).history id = s.history id := by
  rw [history_log, if_neg h, List.append_nil]

theorem publications_log {s : Surroundings β} {e : Event} {id : Nat} (h : e.exchange? = some id) :
    (s.log e).publications id = s.publications id ++ e.publication?.toList := by
  rw [publications, history_log, if_pos h, List.filterMap_append, publications]
  rcases he : e.publication? with _ | p <;> simp [he]

theorem reports_log {s : Surroundings β} {e : Event} {id : Nat} (h : e.exchange? = some id) :
    (s.log e).reports id = s.reports id ++ e.report?.toList := by
  rw [reports, history_log, if_pos h, List.filterMap_append, reports]
  rcases he : e.report? with _ | r <;> simp [he]

theorem published_log (s : Surroundings β) (e : Event) :
    (s.log e).published = s.published ++ e.publication?.toList := by
  rw [published, log, List.reverse_cons, List.filterMap_append, published]
  rcases he : e.publication? with _ | p <;> simp [he]

end

/-! ## The doing of one exchange -/

/-- The surroundings `t` have come from `s` by the doing of one exchange: nothing has happened to
the others, and what the bus has accepted since is on the record. A closed bus accepts nothing. -/
structure Writes (id : Nat) (s t : Surroundings LocalBus) : Prop where
  history_eq : ∀ other ≠ id, t.history other = s.history other
  isOpen_eq : t.bus.isOpen = s.bus.isOpen
  accepted : ∃ new, t.published = s.published ++ new ∧ t.bus.waiting = s.bus.waiting ++ new ∧
    (s.bus.isOpen = false → new = [])

namespace Writes

variable {id : Nat} {s t u : Surroundings LocalBus}

/-- What is neither on the bus nor on the record may change at will. -/
theorem of_eq (hbus : t.bus = s.bus) (hevents : t.events = s.events) : Writes id s t := by
  have hhistory (other : Nat) : t.history other = s.history other := by
    rw [history, hevents, history]
  refine ⟨fun other _ => hhistory other, by rw [hbus], [], ?_, ?_, fun _ => rfl⟩
  · rw [published, hevents, published, List.append_nil]
  · rw [hbus, List.append_nil]

theorem refl (s : Surroundings LocalBus) : Writes id s s := of_eq rfl rfl

theorem trans (h : Writes id s t) (h' : Writes id t u) : Writes id s u := by
  obtain ⟨new, hpublished, hwaiting, hclosed⟩ := h.accepted
  obtain ⟨new', hpublished', hwaiting', hclosed'⟩ := h'.accepted
  refine ⟨fun other hne => ?_, h'.isOpen_eq.trans h.isOpen_eq, new ++ new', ?_, ?_, fun hc => ?_⟩
  · rw [h'.history_eq other hne, h.history_eq other hne]
  · rw [hpublished', hpublished, List.append_assoc]
  · rw [hwaiting', hwaiting, List.append_assoc]
  · rw [hclosed hc, hclosed' (by rw [h.isOpen_eq, hc]), List.append_nil]

/-- An event of the exchange that is no publication. -/
theorem log {e : Event} (hid : e.exchange? = some id) (hno : e.publication? = none) :
    Writes id s (s.log e) := by
  refine ⟨fun other hne => history_log_of_ne ?_, rfl, [], ?_, (List.append_nil _).symm,
    fun _ => rfl⟩
  · rw [hid]
    exact fun h => hne (Option.some.inj h).symm
  · rw [published_log, hno]
    rfl

/-- A publication of the exchange that the bus accepts. -/
theorem publish (p : Publication) (hopen : s.bus.isOpen = true) :
    Writes id s ({ s with bus.waiting := s.bus.waiting ++ [p] }.log (.published id p)) := by
  refine ⟨fun other hne => history_log_of_ne ?_, rfl, [p], ?_, rfl, fun hc => ?_⟩
  · exact fun h => hne (Option.some.inj h).symm
  · rw [published_log]
    rfl
  · rw [hopen] at hc
    cases hc

end Writes

end Surroundings

end TopicRelay
