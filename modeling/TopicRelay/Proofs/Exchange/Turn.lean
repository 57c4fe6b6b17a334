import TopicRelay.Proofs.Exchange.History

/-!
# What a turn of an exchange does

An exchange that goes on talks on its own connection and publishes; when it ends it makes its report
and gives the connection up. `Talks` and `Leaves` say which parts of the surroundings this changes,
on any bus. The main statements are `advance_of_runsOn` and `advance_of_queued`: whatever a turn
comes to, it is one of the two, on the connection of the exchange, which is a new one when the
exchange starts.

What a turn of a conversation can be is said once, in `Conversation.advance_cases`.
-/

namespace TopicRelay

/-! ## The number of exchanges in flight as a metric -/

namespace Metrics

theorem get?_add_of_ne {j k : Metric} (h : j ≠ k) (m : Metrics) (v : Nat) :
    (m.add k v).get? j = m.get? j := by
  rw [add, get?_set, if_neg h]

theorem active_setActive (m : Metrics) (n : Nat) :
    (m.setActive n).get? .activeExchanges = some n := by
  rw [setActive, get?_set, if_pos rfl]

theorem active_recordChunk (m : Metrics) (length : Nat) :
    (m.recordChunk length).get? .activeExchanges = m.get? .activeExchanges := by
  simp [recordChunk, get?_add_of_ne]

theorem active_recordExchange (m : Metrics) (outcome : OutcomeLabel) :
    (m.recordExchange outcome).get? .activeExchanges = m.get? .activeExchanges := by
  simp [recordExchange, get?_add_of_ne]

theorem active_recordDropped (m : Metrics) :
    m.recordDropped.get? .activeExchanges = m.get? .activeExchanges := by
  simp [recordDropped, get?_add_of_ne]

end Metrics

/-! ## One connection of many -/

namespace Network

theorem connection_modify (n : Network) (i : Nat) (f : Connection → Connection) (j : Nat) :
    (n.modify i f).connection j =
      if i = j ∧ j < n.connections.length then f (n.connection j) else n.connection j := by
  simp only [connection, modify, List.getD_eq_getElem?_getD, List.getElem?_modify]
  by_cases hj : j < n.connections.length
  · by_cases hij : i = j <;> simp [hij, hj]
  · simp [hj]

theorem connection_modify_of_ne {i j : Nat} (h : j ≠ i) (n : Network)
    (f : Connection → Connection) : (n.modify i f).connection j = n.connection j := by
  rw [connection_modify, if_neg fun hij => h hij.1.symm]

theorem length_modify (n : Network) (i : Nat) (f : Connection → Connection) :
    (n.modify i f).connections.length = n.connections.length := by
  simp [modify]

theorem connection_of_length_le {n : Network} {i : Nat} (h : n.connections.length ≤ i) :
    n.connection i = .absent := by
  simp [connection, List.getD_eq_getElem?_getD, h]

/-- What a change of a connection leaves alone is left alone at every place. -/
theorem connection_modify_congr {α : Type} (p : Connection → α) {f : Connection → Connection}
    (hf : ∀ c, p (f c) = p c) (n : Network) (i j : Nat) :
    p ((n.modify i f).connection j) = p (n.connection j) := by
  rw [connection_modify]
  split
  · exact hf _
  · rfl

theorem behaviour_congr {m n : Network} (hbackends : n.backends = m.backends)
    (helsewhere : n.elsewhere = m.elsewhere) (port : Port) :
    n.behaviour port = m.behaviour port := by
  rw [behaviour, behaviour, hbackends, helsewhere]

/-- What a change of a connection comes to is the same at every place. -/
theorem connection_modify_rel {r : Connection → Connection → Prop} (hrefl : ∀ c, r c c)
    {f : Connection → Connection} (hf : ∀ c, r c (f c)) (n : Network) (i j : Nat) :
    r (n.connection j) ((n.modify i f).connection j) := by
  rw [connection_modify]
  split
  · exact hf _
  · exact hrefl _

/-- A new connection stands in the next place. -/
theorem connection_connect_self (n : Network) (port : Port) :
    (n.connect port).2.connection n.connections.length =
      { port, link := n.answer port, room := n.room port
        held := match n.answer port with
          | .failed _ => false
          | _ => true } := by
  rw [connection, List.getD_eq_getElem?_getD]
  exact congrArg (Option.getD · Connection.absent) List.getElem?_concat_length

theorem connection_connect_of_ne {n : Network} {i : Nat} (h : i ≠ n.connections.length)
    (port : Port) : (n.connect port).2.connection i = n.connection i := by
  simp only [connect, connection, List.getD_eq_getElem?_getD, List.getElem?_append]
  by_cases hlt : i < n.connections.length
  · simp [hlt]
  · have hrest : i - n.connections.length ≠ 0 := by omega
    simp [hlt, hrest]

theorem length_connect (n : Network) (port : Port) :
    (n.connect port).2.connections.length = n.connections.length + 1 := by
  simp [connect]

/-- The relay has done something at its end of the connection at a place, and of no other. -/
structure Handles (place : Nat) (m n : Network) : Prop where
  reachable_eq : n.reachable = m.reachable
  backends_eq : n.backends = m.backends
  elsewhere_eq : n.elsewhere = m.elsewhere
  length_eq : n.connections.length = m.connections.length
  others : ∀ i ≠ place, n.connection i = m.connection i
  port_eq : (n.connection place).port = (m.connection place).port
  link_eq : (n.connection place).link = (m.connection place).link
  ending_eq : (n.connection place).ending = (m.connection place).ending
  request_isPrefix : (m.connection place).request <+: (n.connection place).request
  room_eq_none_iff : (n.connection place).room = none ↔ (m.connection place).room = none

namespace Handles

variable {place : Nat} {l m n : Network}

theorem refl (m : Network) : Handles place m m :=
  ⟨rfl, rfl, rfl, rfl, fun _ _ => rfl, rfl, rfl, rfl, List.prefix_refl _, Iff.rfl⟩

theorem trans (h : Handles place l m) (h' : Handles place m n) : Handles place l n where
  reachable_eq := h'.reachable_eq.trans h.reachable_eq
  backends_eq := h'.backends_eq.trans h.backends_eq
  elsewhere_eq := h'.elsewhere_eq.trans h.elsewhere_eq
  length_eq := h'.length_eq.trans h.length_eq
  others i hi := (h'.others i hi).trans (h.others i hi)
  port_eq := h'.port_eq.trans h.port_eq
  link_eq := h'.link_eq.trans h.link_eq
  ending_eq := h'.ending_eq.trans h.ending_eq
  request_isPrefix := h.request_isPrefix.trans h'.request_isPrefix
  room_eq_none_iff := h'.room_eq_none_iff.trans h.room_eq_none_iff

/-- What the relay does to a connection moves neither its link nor its ending, takes nothing back
that it has sent and sets no limit. -/
theorem modify {f : Connection → Connection} (hport : ∀ c, (f c).port = c.port)
    (hlink : ∀ c, (f c).link = c.link) (hending : ∀ c, (f c).ending = c.ending)
    (hrequest : ∀ c, c.request <+: (f c).request)
    (hroom : ∀ c, (f c).room = none ↔ c.room = none) (m : Network) :
    Handles place m (m.modify place f) where
  reachable_eq := rfl
  backends_eq := rfl
  elsewhere_eq := rfl
  length_eq := length_modify m place f
  others _ hi := connection_modify_of_ne hi m f
  port_eq := connection_modify_congr _ hport m place place
  link_eq := connection_modify_congr _ hlink m place place
  ending_eq := connection_modify_congr _ hending m place place
  request_isPrefix := connection_modify_rel (r := fun c d => c.request <+: d.request)
    (fun _ => List.prefix_refl _) hrequest m place place
  room_eq_none_iff := connection_modify_rel (r := fun c d => d.room = none ↔ c.room = none)
    (fun _ => Iff.rfl) hroom m place place

end Handles

theorem handles_send (n : Network) (i : Nat) (b : Bytes) : n.Handles i (n.send i b).2 :=
  .modify (f := (·.offer b)) (fun _ => rfl) (fun _ => rfl) (fun _ => rfl)
    (fun _ => List.prefix_append _ _) (fun _ => Option.map_eq_none_iff) n

theorem held_send (n : Network) (i : Nat) (b : Bytes) :
    ((n.send i b).2.connection i).held = (n.connection i).held := by
  unfold send
  apply connection_modify_congr Connection.held
  intro c
  rfl

theorem handles_take (n : Network) (i : Nat) : n.Handles i (n.take i).2 :=
  .modify (f := fun c => { c with unread := [] }) (fun _ => rfl) (fun _ => rfl) (fun _ => rfl)
    (fun _ => List.prefix_refl _) (fun _ => Iff.rfl) n

theorem held_take (n : Network) (i : Nat) :
    ((n.take i).2.connection i).held = (n.connection i).held := by
  unfold take
  apply connection_modify_congr Connection.held
  intro c
  rfl

theorem handles_disconnect (n : Network) (i : Nat) : n.Handles i (n.disconnect i) :=
  .modify (f := fun c => { c with held := false }) (fun _ => rfl) (fun _ => rfl) (fun _ => rfl)
    (fun _ => List.prefix_refl _) (fun _ => Iff.rfl) n

theorem held_disconnect (n : Network) (i : Nat) : ((n.disconnect i).connection i).held = false := by
  rw [disconnect, connection_modify]
  split
  · rfl
  · -- There is no such connection, and nobody holds it.
    rename_i hno
    rw [connection_of_length_le (by omega)]
    rfl

end Network

/-! ## Talking and leaving -/

namespace Event

/-- The number of the exchange that got its slot, and when. -/
def start? : Event → Option (Nat × Nat)
  | .started id now => some (id, now)
  | _ => none

/-- The number of the exchange that ended. -/
def end? : Event → Option Nat
  | .finished id _ _ => some id
  | _ => none

end Event

namespace Surroundings

variable {β : Type}

/-- The surroundings `t` have come from `s` because an exchange has talked on its connection. -/
structure Talks (id place : Nat) (s t : Surroundings β) : Prop where
  events_eq : ∃ told : List Publication, t.events = told.map (Event.published id) ++ s.events
  active_eq : t.metrics.get? .activeExchanges = s.metrics.get? .activeExchanges
  network : s.network.Handles place t.network
  held_eq : (t.network.connection place).held = (s.network.connection place).held

/-- The surroundings `t` have come from `s` because an exchange has ended, with its connection. -/
structure Leaves (id place now : Nat) (report : Report) (s t : Surroundings β) : Prop where
  events_eq : ∃ told : List Publication,
    t.events = .finished id now report :: (told.map (Event.published id) ++ s.events)
  active_eq : t.metrics.get? .activeExchanges = s.metrics.get? .activeExchanges
  network : s.network.Handles place t.network
  held_eq : (t.network.connection place).held = false

namespace Talks

variable {id place : Nat} {s t u : Surroundings β}

theorem refl (s : Surroundings β) : Talks id place s s := ⟨⟨[], rfl⟩, rfl, .refl _, rfl⟩

theorem trans (h : Talks id place s t) (h' : Talks id place t u) : Talks id place s u := by
  obtain ⟨told, htold⟩ := h.events_eq
  obtain ⟨more, hmore⟩ := h'.events_eq
  refine ⟨⟨more ++ told, ?_⟩, h'.active_eq.trans h.active_eq, h.network.trans h'.network,
    h'.held_eq.trans h.held_eq⟩
  rw [hmore, htold, List.map_append, List.append_assoc]

/-- The relay sends bytes. -/
theorem send (s : Surroundings β) (b : Bytes) :
    Talks id place s { s with network := (s.network.send place b).2 } :=
  ⟨⟨[], rfl⟩, rfl, s.network.handles_send place b, s.network.held_send place b⟩

/-- The relay takes what can be read. -/
theorem take (s : Surroundings β) :
    Talks id place s { s with network := (s.network.take place).2 } :=
  ⟨⟨[], rfl⟩, rfl, s.network.handles_take place, s.network.held_take place⟩

/-- A chunk that the bus has accepted. -/
theorem chunk (s : Surroundings β) (bus : β) (length : Nat) (p : Publication) :
    Talks id place s
      (Surroundings.log { s with bus, metrics := s.metrics.recordChunk length }
        (.published id p)) :=
  ⟨⟨[p], rfl⟩, s.metrics.active_recordChunk length, .refl _, rfl⟩

/-- The bus may have changed without accepting anything. -/
theorem refuse (s : Surroundings β) (bus : β) : Talks id place s { s with bus } :=
  ⟨⟨[], rfl⟩, rfl, .refl _, rfl⟩

end Talks

theorem Leaves.of_talks {id place now : Nat} {report : Report} {s t u : Surroundings β}
    (h : Talks id place s t) (h' : Leaves id place now report t u) :
    Leaves id place now report s u := by
  obtain ⟨told, htold⟩ := h.events_eq
  obtain ⟨more, hmore⟩ := h'.events_eq
  refine ⟨⟨more ++ told, ?_⟩, h'.active_eq.trans h.active_eq, h.network.trans h'.network,
    h'.held_eq⟩
  rw [hmore, htold, List.map_append, List.append_assoc]

/-- The surroundings in which an exchange has asked for its connection. -/
def opened (s : Surroundings β) (e : Exchange) (now : Nat) : Surroundings β :=
  { (s.log (.started e.id now)).log (.connected e.id s.network.connections.length) with
    network := (s.network.connect e.port).2 }

/-- The exchanges that have got their slots, each with the time, first first. -/
def starts (s : Surroundings β) : List (Nat × Nat) := s.events.reverse.filterMap Event.start?

/-- The exchanges that have ended, first first. -/
def ends (s : Surroundings β) : List Nat := s.events.reverse.filterMap Event.end?

theorem mem_starts {s : Surroundings β} {id now : Nat} :
    (id, now) ∈ s.starts ↔ .started id now ∈ s.events := by
  rw [starts, List.mem_filterMap]
  constructor
  · rintro ⟨event, hmem, heq⟩
    cases event <;> simp only [Event.start?, Option.some.injEq, reduceCtorEq, Prod.mk.injEq] at heq
    obtain ⟨rfl, rfl⟩ := heq
    exact List.mem_reverse.1 hmem
  · intro hmem
    exact ⟨_, List.mem_reverse.2 hmem, rfl⟩

theorem mem_ends {s : Surroundings β} {id : Nat} :
    id ∈ s.ends ↔ ∃ now report, .finished id now report ∈ s.events := by
  rw [ends, List.mem_filterMap]
  constructor
  · rintro ⟨event, hmem, heq⟩
    cases event <;> simp only [Event.end?, Option.some.injEq, reduceCtorEq] at heq
    subst heq
    exact ⟨_, _, List.mem_reverse.1 hmem⟩
  · rintro ⟨now, report, hmem⟩
    exact ⟨_, List.mem_reverse.2 hmem, rfl⟩

theorem mem_reports_of_finished {s : Surroundings β} {id now : Nat} {report : Report}
    (h : .finished id now report ∈ s.events) : report ∈ s.reports id := by
  rw [reports, history, List.mem_filterMap]
  refine ⟨_, List.mem_filter.2 ⟨List.mem_reverse.2 h, ?_⟩, rfl⟩
  exact decide_eq_true rfl

theorem finished_of_mem_reports {s : Surroundings β} {id : Nat} {report : Report}
    (h : report ∈ s.reports id) : ∃ now, .finished id now report ∈ s.events := by
  rw [reports, history, List.mem_filterMap] at h
  obtain ⟨event, hmem, heq⟩ := h
  obtain ⟨hevent, hid⟩ := List.mem_filter.1 hmem
  cases event <;> simp only [Event.report?, Option.some.injEq, reduceCtorEq] at heq
  simp only [Event.exchange?, Option.some.injEq, decide_eq_true_eq] at hid
  rw [← heq, ← hid]
  exact ⟨_, List.mem_reverse.1 hevent⟩

theorem starts_opened (s : Surroundings β) (e : Exchange) (now : Nat) :
    (s.opened e now).starts = s.starts ++ [(e.id, now)] := by
  simp [starts, opened, log, Event.start?]

theorem ends_opened (s : Surroundings β) (e : Exchange) (now : Nat) :
    (s.opened e now).ends = s.ends := by
  simp [ends, opened, log, Event.end?]

section
variable {id place now : Nat} {report : Report} {s t : Surroundings β}

theorem Talks.starts_eq (h : Talks id place s t) : t.starts = s.starts := by
  obtain ⟨told, htold⟩ := h.events_eq
  simp [starts, htold, List.filterMap_map, Function.comp_def, Event.start?]

theorem Talks.ends_eq (h : Talks id place s t) : t.ends = s.ends := by
  obtain ⟨told, htold⟩ := h.events_eq
  simp [ends, htold, List.filterMap_map, Function.comp_def, Event.end?]

theorem Talks.events_subset (h : Talks id place s t) : s.events ⊆ t.events := by
  obtain ⟨told, htold⟩ := h.events_eq
  rw [htold]
  exact List.subset_append_right _ _

theorem Leaves.events_subset (h : Leaves id place now report s t) : s.events ⊆ t.events := by
  obtain ⟨told, htold⟩ := h.events_eq
  rw [htold]
  exact List.subset_cons_of_subset _ (List.subset_append_right _ _)

theorem Talks.finished_iff (h : Talks id place s t) {i ended : Nat} {r : Report} :
    .finished i ended r ∈ t.events ↔ .finished i ended r ∈ s.events := by
  obtain ⟨told, htold⟩ := h.events_eq
  simp [htold]

theorem Leaves.finished_iff (h : Leaves id place now report s t) {i ended : Nat} {r : Report} :
    .finished i ended r ∈ t.events ↔
      (i = id ∧ ended = now ∧ r = report) ∨ .finished i ended r ∈ s.events := by
  obtain ⟨told, htold⟩ := h.events_eq
  simp [htold]

theorem finished_opened_iff {e : Exchange} {i ended : Nat} {r : Report} :
    .finished i ended r ∈ (s.opened e now).events ↔ .finished i ended r ∈ s.events := by
  simp [opened, log]

theorem Talks.connected_iff (h : Talks id place s t) {i j : Nat} :
    .connected i j ∈ t.events ↔ .connected i j ∈ s.events := by
  obtain ⟨told, htold⟩ := h.events_eq
  simp [htold]

theorem Leaves.connected_iff (h : Leaves id place now report s t) {i j : Nat} :
    .connected i j ∈ t.events ↔ .connected i j ∈ s.events := by
  obtain ⟨told, htold⟩ := h.events_eq
  simp [htold]

theorem connected_opened_iff {e : Exchange} {i j : Nat} :
    .connected i j ∈ (s.opened e now).events ↔
      (i = e.id ∧ j = s.network.connections.length) ∨ .connected i j ∈ s.events := by
  simp [opened, log]

theorem Leaves.starts_eq (h : Leaves id place now report s t) : t.starts = s.starts := by
  obtain ⟨told, htold⟩ := h.events_eq
  simp [starts, htold, List.filterMap_map, Function.comp_def, Event.start?]

theorem Leaves.ends_eq (h : Leaves id place now report s t) : t.ends = s.ends ++ [id] := by
  obtain ⟨told, htold⟩ := h.events_eq
  simp [ends, htold, List.filterMap_map, Function.comp_def, Event.end?]

end

end Surroundings

open Surroundings (Talks Leaves)

variable {β : Type} [MessageBus β]

/-! ## Conversations -/

namespace Conversation

variable (settings : ExchangeSettings) (id now : Nat) (c : Conversation) (s : Surroundings β)

/-- A conversation waits on, runs out of time, breaks off, or sends what is left of the request and
reads what has arrived. -/
theorem advance_cases :
    (c.isReady s.network = false ∧ now < c.wake ∧ c.advance settings id now s = (none, c, s)) ∨
    (c.isReady s.network = true ∨ c.wake ≤ now) ∧
      ((c.deadline settings).expired now = true ∧
          c.advance settings id now s = (some .deadlineExceeded, c, s) ∨
        (c.deadline settings).expired now = false ∧
          ((s.network.connection c.connection).ending = some .reset ∧
              c.advance settings id now s =
                (some (.failed (.socket "connection reset")), c, s) ∨
            (s.network.connection c.connection).ending ≠ some .reset ∧
              ((∃ outcome d t,
                  (c.send s).1.receive settings id (c.send s).2 = (some outcome, d, t) ∧
                  c.advance settings id now s = (some outcome, d, t)) ∨
                ∃ d t, (c.send s).1.receive settings id (c.send s).2 = (none, d, t) ∧
                  c.advance settings id now s =
                    (none, { d with
                      wake := now + (d.deadline settings).nextWait settings.pollInterval now },
                      t)))) := by
  unfold advance
  by_cases hwait : c.isReady s.network = false ∧ now < c.wake
  · refine Or.inl ⟨hwait.1, hwait.2, ?_⟩
    rw [if_pos (by simp [hwait.1, hwait.2])]
  · have hgo : c.isReady s.network = true ∨ c.wake ≤ now := by
      rcases hready : c.isReady s.network
      · exact Or.inr (Nat.le_of_not_lt fun hlt => hwait ⟨hready, hlt⟩)
      · exact Or.inl rfl
    refine Or.inr ⟨hgo, ?_⟩
    rw [if_neg (by simp only [Bool.and_eq_true, Bool.not_eq_true', decide_eq_true_eq]; exact hwait)]
    rcases hexpired : (c.deadline settings).expired now
    · refine Or.inr ⟨rfl, ?_⟩
      by_cases hreset : (s.network.connection c.connection).ending = some .reset
      · exact Or.inl ⟨hreset, by simp [hreset]⟩
      · refine Or.inr ⟨hreset, ?_⟩
        simp only [Bool.false_eq_true, if_false, if_neg hreset]
        rcases (c.send s).1.receive settings id (c.send s).2 with ⟨_ | outcome, d, t⟩
        · exact Or.inr ⟨d, t, rfl, rfl⟩
        · exact Or.inl ⟨outcome, d, t, rfl, rfl⟩
    · exact Or.inl ⟨rfl, by simp⟩

/-- What talking has come to belongs to the same conversation. -/
def Continues (r : Option Outcome × Conversation × Surroundings β) : Prop :=
  Talks id c.connection s r.2.2 ∧ r.2.1.connection = c.connection ∧ r.2.1.started = c.started

omit [MessageBus β] in
variable {id c s} in
theorem Continues.of_talks {d : Conversation} {t : Surroundings β}
    {r : Option Outcome × Conversation × Surroundings β} (h : Talks id c.connection s t)
    (hconnection : d.connection = c.connection) (hstarted : d.started = c.started)
    (h' : d.Continues id t r) : c.Continues id s r := by
  obtain ⟨htalks, hconnection', hstarted'⟩ := h'
  rw [hconnection] at htalks
  exact ⟨h.trans htalks, hconnection'.trans hconnection, hstarted'.trans hstarted⟩

theorem publishAll_continues (pieces : List Bytes) :
    c.Continues id s (publishAll id pieces c s) := by
  induction pieces generalizing c s with
  | nil => exact ⟨.refl s, rfl, rfl⟩
  | cons piece rest ih =>
    rw [publishAll]
    rcases c.publisher.publishChunk s.bus piece with ⟨e | ⟨⟩, publisher, bus⟩
    · exact ⟨.refuse s bus, rfl, rfl⟩
    · have hchunk := @Talks.chunk β id c.connection s bus piece.length
        ((c.publisher.chunk piece).toPublication c.publisher.correlation)
      simp only
      split
      · exact ⟨hchunk, rfl, rfl⟩
      · refine Continues.of_talks hchunk ?_ ?_ (ih _ _)
        · rfl
        · rfl

theorem receive_continues : c.Continues id s (c.receive settings id s) := by
  unfold receive
  simp only
  split
  · exact ⟨.refl s, rfl, rfl⟩
  · have htake : Talks id c.connection s { s with network := (s.network.take c.connection).2 } :=
      .take s
    have hall := Continues.of_talks htake rfl rfl (publishAll_continues id c
      { s with network := (s.network.take c.connection).2 }
      (Bytes.pieces settings.readChunkSize (s.network.take c.connection).1))
    generalize @publishAll β _ id _ c _ = r at hall ⊢
    rcases r with ⟨_ | outcome, d, t⟩
    · exact hall
    · exact hall

theorem advance_continues : c.Continues id s (c.advance settings id now s) := by
  have hreceive : c.Continues id s ((c.send s).1.receive settings id (c.send s).2) :=
    Continues.of_talks (.send s c.pending) rfl rfl
      (receive_continues settings id (c.send s).1 (c.send s).2)
  rcases advance_cases settings id now c s with ⟨-, -, heq⟩ | ⟨-, ⟨-, heq⟩ | ⟨-, ⟨-, heq⟩ |
    ⟨-, ⟨outcome, d, t, hreceived, heq⟩ | ⟨d, t, hreceived, heq⟩⟩⟩⟩
  · rw [heq]
    exact ⟨.refl s, rfl, rfl⟩
  · rw [heq]
    exact ⟨.refl s, rfl, rfl⟩
  · rw [heq]
    exact ⟨.refl s, rfl, rfl⟩
  · rw [hreceived] at hreceive
    rw [heq]
    exact hreceive
  · rw [hreceived] at hreceive
    rw [heq]
    exact hreceive

end Conversation

/-! ## Exchanges -/

/-- The start of an exchange that has its slot, and the place of its connection. -/
def Stage.runsOn? : Stage → Option (Nat × Nat)
  | .queued => none
  | .connecting started connection _ => some (started, connection)
  | .conversing c => some (c.started, c.connection)

theorem Stage.runsOn?_eq_none_iff {stage : Stage} : stage.runsOn? = none ↔ stage = .queued := by
  cases stage <;> simp [runsOn?]

theorem Stage.exists_runsOn? {stage : Stage} (h : stage ≠ .queued) :
    ∃ started place, stage.runsOn? = some (started, place) := by
  obtain ⟨⟨started, place⟩, hruns⟩ :=
    Option.ne_none_iff_exists'.1 (mt runsOn?_eq_none_iff.1 h)
  exact ⟨started, place, hruns⟩

namespace Exchange

variable (settings : ExchangeSettings) (e : Exchange) (now : Nat) (s : Surroundings β)

theorem finish_leaves (report : Report) (publisher : Publisher) (place : Nat) :
    ∃ t, e.finish now report publisher { s with network := s.network.disconnect place } =
      (.ends report, t) ∧ Leaves e.id place now report s t := by
  have hnetwork := s.network.handles_disconnect place
  have hcount := s.metrics.active_recordExchange report.outcome.label
  refine ⟨_, rfl, ?_⟩
  simp only
  rcases publisher.finish s.bus with ⟨error | marker, bus⟩
  · exact ⟨⟨[], rfl⟩, hcount, hnetwork, s.network.held_disconnect place⟩
  · exact ⟨⟨[marker.toPublication publisher.correlation], rfl⟩, hcount, hnetwork,
      s.network.held_disconnect place⟩

/-- What a turn of an exchange with a slot came to: it has talked on its connection, and goes on
there or has left it. -/
def Takes (started place : Nat) (r : Turn × Surroundings β) : Prop :=
  match r.1 with
  | .continues stage => stage.runsOn? = some (started, place) ∧ Talks e.id place s r.2
  | .ends report => Leaves e.id place now report s r.2

theorem converse_takes (c : Conversation) :
    e.Takes now s c.started c.connection (e.converse settings now c s) := by
  obtain ⟨htalks, hconnection, hstarted⟩ := Conversation.advance_continues settings e.id now c s
  unfold converse
  generalize Conversation.advance settings e.id now c s = r at htalks hconnection hstarted ⊢
  rcases r with ⟨_ | outcome, d, t⟩
  · refine ⟨?_, htalks⟩
    rw [Stage.runsOn?, hstarted, hconnection]
  · simp only at htalks hconnection ⊢
    obtain ⟨u, heq, hleaves⟩ := e.finish_leaves now t
      ⟨e.port, outcome, d.chunks, d.sent, d.received, now - d.started⟩ d.publisher d.connection
    rw [heq]
    rw [hconnection] at hleaves
    exact .of_talks htalks hleaves

theorem awaitConnection_takes (started connection limit : Nat) :
    e.Takes now s started connection
      (e.awaitConnection settings started connection limit now s) := by
  have hfail (report : Report) : e.Takes now s started connection
      (e.finish now report e.publisher
        { s with network := s.network.disconnect connection }) := by
    obtain ⟨t, heq, hleaves⟩ := e.finish_leaves now s report e.publisher connection
    rw [heq]
    exact hleaves
  unfold awaitConnection
  split
  · exact e.converse_takes settings now s _
  · exact hfail _
  · split
    · exact hfail _
    · exact ⟨rfl, .refl s⟩

/-- An exchange with a slot stays on its connection until it leaves it. -/
theorem advance_of_runsOn {started place : Nat} (h : e.stage.runsOn? = some (started, place)) :
    e.Takes now s started place (e.advance settings now s) := by
  unfold advance
  rcases hstage : e.stage with _ | ⟨started', connection, limit⟩ | c
  · rw [hstage] at h
    cases h
  · rw [hstage] at h
    cases h
    exact e.awaitConnection_takes settings now s started place limit
  · rw [hstage] at h
    cases h
    exact e.converse_takes settings now s c

/-- An exchange that starts asks for a connection first. -/
theorem advance_of_queued (h : e.stage = .queued) :
    e.Takes now (s.opened e now) now s.network.connections.length (e.advance settings now s) := by
  unfold advance
  rw [h]
  exact e.awaitConnection_takes settings now (s.opened e now) now s.network.connections.length _

end Exchange

end TopicRelay
