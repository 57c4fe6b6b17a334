import TopicRelay.Proofs.Dispatch.Time
import TopicRelay.Proofs.Exchange.Places
import TopicRelay.Proofs.Exchange.Sending

/-!
# Where requests go

Every exchange that starts asks for one connection, at the backend that the routes give for its
topic, and sends its payload there and nowhere else. `Forwards` is the invariant behind this, for a
network without connections at the start. Whatever a turn does to the connections it does to the one
in the place of the number of its exchange (`minds_visit`), so that all other exchanges keep what
they have sent.

A backend that listens accepts every connection at once. Its connections are therefore numbered in
the order in which they were asked for (`Network.InOrder`), which is the order in which the messages
came.
-/

namespace TopicRelay

open Surroundings (Talks Leaves)

/-! ## Asking for connections -/

namespace Event

/-- The number of the exchange that asked for a connection, and the place of the connection. -/
def connect? : Event → Option (Nat × Nat)
  | .connected id connection => some (id, connection)
  | _ => none

end Event

namespace Surroundings

variable {β : Type} {id place now : Nat} {report : Report} {s t : Surroundings β}

/-- The connections that exchanges have asked for, first first: the number of the exchange and the
place of the connection. -/
def connects (s : Surroundings β) : List (Nat × Nat) := s.events.reverse.filterMap Event.connect?

theorem connects_opened (s : Surroundings β) (e : Exchange) (now : Nat) :
    (s.opened e now).connects = s.connects ++ [(e.id, s.network.connections.length)] := by
  simp [connects, opened, log, List.filterMap_cons, Event.connect?]

theorem Talks.connects_eq (h : Talks id place s t) : t.connects = s.connects := by
  obtain ⟨told, htold⟩ := h.events_eq
  simp [connects, htold, List.filterMap_map, Function.comp_def, Event.connect?]

theorem Leaves.connects_eq (h : Leaves id place now report s t) : t.connects = s.connects := by
  obtain ⟨told, htold⟩ := h.events_eq
  simp [connects, htold, List.filterMap_map, Function.comp_def, Event.connect?]

end Surroundings

/-! ## Backends that listen -/

namespace Network

/-- Whether the backend at a port accepts every connection at once. -/
def isListening (n : Network) (port : Port) : Bool :=
  n.reachable &&
    match n.behaviour port with
    | .listen | .stall _ => true
    | _ => false

theorem answer_of_isListening {n : Network} {port : Port} (h : n.isListening port = true) :
    n.answer port = .established (n.accepted port) := by
  obtain ⟨hreachable, hlistens⟩ := Bool.and_eq_true_iff.1 h
  unfold answer
  rw [hreachable]
  cases hbehaviour : n.behaviour port <;> rw [hbehaviour] at hlistens
  case listen => rfl
  case stall => rfl
  all_goals cases hlistens

theorem isListening_congr {m n : Network} (hreachable : n.reachable = m.reachable)
    (hbackends : n.backends = m.backends) (helsewhere : n.elsewhere = m.elsewhere) (port : Port) :
    n.isListening port = m.isListening port := by
  rw [isListening, isListening, hreachable, behaviour_congr hbackends helsewhere]

theorem Handles.isListening_eq {place : Nat} {m n : Network} (h : m.Handles place n) (port : Port) :
    n.isListening port = m.isListening port :=
  isListening_congr h.reachable_eq h.backends_eq h.elsewhere_eq port

/-- The backend has accepted all connections that were asked for, and numbered them in that
order. -/
def InOrder (n : Network) (port : Port) : Prop :=
  ∀ k i, n.place? port k = some i → (n.connection i).link = .established k

/-- Links that are established stay so under whatever moves pending links only. -/
theorem InOrder.of_keepsPlaces {m n : Network} {port : Port} (h : m.InOrder port)
    (hplaces : ∀ k, n.place? port k = m.place? port k)
    (hlinks : ∀ i, (n.connection i).link = (m.connection i).link ∨
      (m.connection i).link = .pending) : n.InOrder port := by
  intro k i hplace
  rw [hplaces] at hplace
  have hlink := h k i hplace
  rcases hlinks i with hsame | hpending
  · rw [hsame, hlink]
  · rw [hpending] at hlink
    cases hlink

theorem Handles.inOrder {place : Nat} {m n : Network} {port : Port} (h : m.Handles place n)
    (horder : m.InOrder port) : n.InOrder port := by
  have hsame (i : Nat) : (n.connection i).port = (m.connection i).port ∧
      (n.connection i).link = (m.connection i).link := by
    by_cases hi : i = place
    · rw [hi]
      exact ⟨h.port_eq, h.link_eq⟩
    · rw [h.others i hi]
      exact ⟨rfl, rfl⟩
  exact horder.of_keepsPlaces (place?_congr h.length_eq (fun i => (hsame i).1) port)
    fun i => Or.inl (hsame i).2

theorem exists_place?_of_port {n : Network} {port : Port} {i : Nat}
    (h : i < n.connections.length) (hport : (n.connection i).port = port) :
    ∃ k, n.place? port k = some i := by
  obtain ⟨other, k, hplace⟩ := exists_place? h
  rw [← hport, port_of_place? hplace]
  exact ⟨k, hplace⟩

theorem getElem_eq_connection {n : Network} {i : Nat} (h : i < n.connections.length) :
    n.connections[i] = n.connection i := by
  simp [connection, List.getD_eq_getElem?_getD, h]

theorem place?_inj {n : Network} {port : Port} {j k i : Nat} (h : n.place? port j = some i)
    (h' : n.place? port k = some i) : j = k := by
  obtain ⟨hj, -⟩ := List.getElem?_eq_some_iff.1 h
  exact (List.getElem?_inj hj List.nodup_findIdxs).1 (h.trans h'.symm)

theorem InOrder.accepted_eq {n : Network} {port : Port} (h : n.InOrder port) :
    n.accepted port = (n.connectionsTo port).length := by
  rw [Network.accepted_eq, List.countP_eq_length]
  intro c hc
  obtain ⟨hmem, hport⟩ := List.mem_filter.1 hc
  obtain ⟨i, hi, rfl⟩ := List.getElem_of_mem hmem
  rw [getElem_eq_connection hi] at hport ⊢
  obtain ⟨k, hplace⟩ := exists_place?_of_port hi (of_decide_eq_true hport)
  rw [Connection.isEstablished, h k i hplace]

/-- A backend that listens gives a new connection the next number. -/
theorem InOrder.connect {n : Network} {port : Port} (h : n.InOrder port)
    (hlistens : n.isListening port = true) (other : Port) : (n.connect other).2.InOrder port := by
  intro k i hplace
  by_cases hold : i = n.connections.length
  · -- The new connection, if it is one to this backend.
    have hport := port_of_place? hplace
    rw [hold, connection_connect_self] at hport ⊢
    obtain rfl : other = port := hport
    have hself := n.place?_connect_self other
    rw [hold] at hplace
    obtain rfl : k = (n.connectionsTo other).length := place?_inj hplace hself
    show n.answer other = _
    rw [answer_of_isListening hlistens, h.accepted_eq]
  · -- It has the number that it had before.
    have hport := port_of_place? hplace
    rw [connection_connect_of_ne hold] at hport ⊢
    have hlt : i < n.connections.length := by
      have hmem := List.mem_of_getElem? hplace
      rw [List.mem_findIdxs_iff_exists_getElem_pos] at hmem
      obtain ⟨hlt, -⟩ := hmem
      rw [length_connect] at hlt
      omega
    obtain ⟨k', hplace'⟩ := exists_place?_of_port hlt hport
    obtain rfl := place?_inj hplace (n.keepsPlaces_connect other _ _ _ hplace')
    exact h k i hplace'

/-- The connection that a backend has accepted under a number is the one that was asked for under
it. -/
theorem InOrder.find?_eq {n : Network} {port : Port} (h : n.InOrder port) (k : Nat) :
    n.find? port k = n.place? port k := by
  -- Whatever has the number is the connection that was asked for under it.
  have hnumber {i : Nat} (hi : i < n.connections.length)
      (hfound : (n.connections[i].port = port && n.connections[i].link = .established k) = true) :
      n.place? port k = some i := by
    simp only [Bool.and_eq_true, decide_eq_true_eq, getElem_eq_connection hi] at hfound
    obtain ⟨k', hplace⟩ := exists_place?_of_port hi hfound.1
    have hlink := h k' i hplace
    rw [hfound.2, Link.established.injEq] at hlink
    rw [hlink]
    exact hplace
  unfold find?
  rcases hplace : n.place? port k with _ | i
  · rw [List.findIdx?_eq_none_iff]
    intro c hc
    obtain ⟨i, hi, rfl⟩ := List.getElem_of_mem hc
    rw [← Bool.not_eq_true]
    intro hfound
    rw [hnumber hi hfound] at hplace
    cases hplace
  · have hmem := List.mem_of_getElem? hplace
    rw [List.mem_findIdxs_iff_exists_getElem_pos] at hmem
    obtain ⟨hi, -⟩ := hmem
    rw [List.findIdx?_eq_some_iff_getElem]
    refine ⟨hi, ?_, fun j hj hfound => ?_⟩
    · rw [getElem_eq_connection hi, h k i hplace, port_of_place? hplace]
      simp
    · rw [hnumber (by omega) hfound, Option.some.injEq] at hplace
      omega

end Network

namespace Dispatcher

/-! ## Forwarding -/

theorem InLine.starts_length_le {β : Type} {es : List Exchange} {d : Dispatcher β}
    (h : InLine es d) : d.surroundings.starts.length ≤ d.tracker.nextId := by
  have hstarted : d.surroundings.starts.map Prod.fst <+: List.range d.tracker.nextId :=
    ⟨_, h.numbers⟩
  have hle := hstarted.length_le
  rwa [List.length_map, List.length_range] at hle

/-- The numbers of the exchanges that have started are the first ones. -/
theorem InLine.started_eq {β : Type} {es : List Exchange} {d : Dispatcher β} (h : InLine es d) :
    d.surroundings.starts.map Prod.fst = List.range d.surroundings.starts.length := by
  have hstarted : d.surroundings.starts.map Prod.fst <+: List.range d.tracker.nextId :=
    ⟨_, h.numbers⟩
  rw [List.prefix_iff_eq_take, List.length_map, List.take_range] at hstarted
  rw [hstarted, Nat.min_eq_left h.starts_length_le]

/-- An exchange with a slot has asked for its connection. -/
theorem Accounted.id_lt {β : Type} {es : List Exchange} {d : Dispatcher β} (h : Accounted es d)
    (hline : InLine es d) {e : Exchange} (he : e ∈ es) {started place : Nat}
    (hruns : e.stage.runsOn? = some (started, place)) :
    e.id < d.surroundings.network.connections.length := by
  rw [h.length_eq, ← List.mem_range, ← hline.started_eq]
  exact List.mem_map_of_mem (hline.runs e he started place hruns)

/-- What a visit of an exchange leaves alone: the rules, the backends and the connections of all
others. It asks for one connection for each start. -/
structure Moves {β : Type} (e : Exchange) (d d' : Dispatcher β) : Prop where
  settings_eq : d'.settings = d.settings
  routes_eq : d'.routes = d.routes
  minds : Minds e.id d.surroundings d'.surroundings
  isListening_eq : ∀ port,
    d'.surroundings.network.isListening port = d.surroundings.network.isListening port
  connects_eq : ∃ new, d'.surroundings.starts = d.surroundings.starts ++ new ∧
    d'.surroundings.connects = d.surroundings.connects ++ new.map fun x => (x.1, x.1)
  lt_of_ne : ∀ id ≠ e.id, id < d'.surroundings.network.connections.length →
    id < d.surroundings.network.connections.length

/-- The exchanges `es` in flight send the messages for which they have begun, those in the places of
their numbers among `begun`, to the backends that the routes give, and the exchanges that have ended
have done so. -/
structure Forwards {β : Type} (begun : List Message) (es : List Exchange) (d : Dispatcher β) :
    Prop where
  message_eq : ∀ e ∈ es, begun[e.id]? = some e.message
  port_eq : ∀ e ∈ es, e.port = d.routes.resolve e.message.topic
  connects_eq : d.surroundings.connects = d.surroundings.starts.map fun x => (x.1, x.1)
  target : ∀ id m, begun[id]? = some m → id < d.surroundings.network.connections.length →
    (d.surroundings.network.connection id).port = d.routes.resolve m.topic
  sending : ∀ e ∈ es, e.Sending d.surroundings.network
  sent : ∀ id m ended report, begun[id]? = some m →
    .finished id ended report ∈ d.surroundings.events →
    report.port = d.routes.resolve m.topic ∧
      report.Sent m.payload (d.surroundings.network.connection id)
  /-- A backend that listens gets everything at once, unless it sets a limit. -/
  atOnce : 0 < d.settings.deadline → ∀ id m, begun[id]? = some m →
    id < d.surroundings.network.connections.length →
    d.surroundings.network.isListening (d.surroundings.network.connection id).port = true →
    (d.surroundings.network.connection id).room = none →
    (d.surroundings.network.connection id).request = m.payload

section
variable {β : Type} {begun : List Message} {before after : List Exchange} {e f : Exchange}
  {d d' : Dispatcher β}

theorem visit_moves [MessageBus β] (hline : InLine (before ++ e :: after) d)
    (haccount : Accounted (before ++ e :: after) d) (hmay : d.MayGo before e) :
    Moves e d (d.visit e).2 := by
  suffices hmoves : (∀ port, (d.visit e).2.surroundings.network.isListening port =
        d.surroundings.network.isListening port) ∧
      (∃ new, (d.visit e).2.surroundings.starts = d.surroundings.starts ++ new ∧
        (d.visit e).2.surroundings.connects =
          d.surroundings.connects ++ new.map fun x => (x.1, x.1)) ∧
      ∀ id ≠ e.id, id < (d.visit e).2.surroundings.network.connections.length →
        id < d.surroundings.network.connections.length from
    ⟨d.settings_visit e, d.routes_visit e, minds_visit hline haccount hmay, hmoves.1, hmoves.2.1,
      hmoves.2.2⟩
  rcases d.visit_turns e with ⟨-, -, hvisit⟩ | ⟨started, place, slots, s, hslot, hturn⟩
  · rw [hvisit]
    exact ⟨fun _ => rfl, ⟨[], by simp, by simp⟩, fun _ _ hlt => hlt⟩
  · have hopens : (∀ port,
          s.network.isListening port = d.surroundings.network.isListening port) ∧
        (∃ new, s.starts = d.surroundings.starts ++ new ∧
          s.connects = d.surroundings.connects ++ new.map fun x => (x.1, x.1)) ∧
        ∀ id ≠ e.id, id < s.network.connections.length →
          id < d.surroundings.network.connections.length := by
      rcases hslot with ⟨hqueued, hfree, -, -, rfl⟩ | ⟨-, -, rfl⟩
      · have hid := haccount.id_of_first hline hqueued (hmay.nobody_waits hqueued hfree)
        have hconnects := d.surroundings.connects_opened e d.now
        rw [← hid] at hconnects
        refine ⟨Network.isListening_congr rfl rfl rfl,
          ⟨_, d.surroundings.starts_opened e d.now, hconnects⟩, fun id hne hlt => ?_⟩
        change id < (d.surroundings.network.connect e.port).2.connections.length at hlt
        rw [Network.length_connect] at hlt
        omega
      · exact ⟨fun _ => rfl, ⟨[], by simp, by simp⟩, fun _ _ hlt => hlt⟩
    obtain ⟨hlistens, ⟨new, hstarts, hconnects⟩, hlt⟩ := hopens
    rcases hturn with ⟨stage, t, -, -, htalks, hvisit⟩ | ⟨report, t, -, hleaves, hvisit⟩
    · rw [hvisit]
      refine ⟨fun port => (htalks.network.isListening_eq port).trans (hlistens port),
        ⟨new, htalks.starts_eq.trans hstarts, htalks.connects_eq.trans hconnects⟩, ?_⟩
      rw [htalks.network.length_eq]
      exact hlt
    · rw [hvisit]
      refine ⟨fun port => (hleaves.network.isListening_eq port).trans (hlistens port),
        ⟨new, hleaves.starts_eq.trans hstarts, hleaves.connects_eq.trans hconnects⟩, ?_⟩
      show ∀ id ≠ e.id, id < t.network.connections.length →
        id < d.surroundings.network.connections.length
      rw [hleaves.network.length_eq]
      exact hlt

/-- What an exchange finds when it takes a turn on the connection in this place, its own one, and
what the turn comes to. The surroundings `s` are those after the connection was asked for. -/
structure Finds {β : Type} [MessageBus β] (e : Exchange) (d : Dispatcher β) (place : Nat)
    (s : Surroundings β) : Prop where
  place_eq : place = e.id
  port_eq : (s.network.connection e.id).port = e.port
  of_finished : ∀ id ended report, .finished id ended report ∈ s.events →
    .finished id ended report ∈ d.surroundings.events
  sendsOn : e.SendsOn e.id (e.advance d.settings d.now d.surroundings)
  /-- If the backend listens, the turn sends everything, or everything has been sent before. -/
  sends_all : 0 < d.settings.deadline → d.surroundings.network.isListening e.port = true →
    let after := (e.advance d.settings d.now d.surroundings).2.network.connection e.id
    (after.room = none → after.request = e.message.payload) ∨
      ((s.network.connection e.id).room = none →
        (s.network.connection e.id).request = e.message.payload)

/-- After a turn everything has been sent: what has been sent before is still there, and nothing can
come after it. -/
theorem Finds.atOnce {β : Type} [MessageBus β] {e : Exchange} {d : Dispatcher β} {place : Nat}
    {s t : Surroundings β} (h : Finds e d place s) (hhandles : s.network.Handles e.id t.network)
    (ht : t.network = (e.advance d.settings d.now d.surroundings).2.network)
    (hportion : (t.network.connection e.id).request <+: e.message.payload)
    (hdeadline : 0 < d.settings.deadline)
    (hlistens : d.surroundings.network.isListening e.port = true)
    (hroom : (t.network.connection e.id).room = none) :
    (t.network.connection e.id).request = e.message.payload := by
  rcases h.sends_all hdeadline hlistens with hsent | hsent
  · rw [ht] at hroom ⊢
    exact hsent hroom
  · have hwas := hhandles.request_isPrefix
    rw [hsent (hhandles.room_eq_none_iff.1 hroom)] at hwas
    exact hportion.eq_of_length_le hwas.length_le

namespace Forwards

/-- The others go on forwarding their messages while an exchange is visited. If it ends with the
visit, its report says what it has sent. -/
theorem others (h : Forwards begun (before ++ e :: after) d)
    (hline : InLine (before ++ e :: after) d) (haccount : Accounted (before ++ e :: after) d)
    (hmoves : Moves e d d')
    (hport : (d'.surroundings.network.connection e.id).port = e.port)
    (hsent : ∀ id ended report, .finished id ended report ∈ d'.surroundings.events →
      .finished id ended report ∈ d.surroundings.events ∨ id = e.id ∧ report.port = e.port ∧
        report.Sent e.message.payload (d'.surroundings.network.connection e.id))
    (hatOnce : 0 < d.settings.deadline →
      d.surroundings.network.isListening e.port = true →
      (d'.surroundings.network.connection e.id).room = none →
      (d'.surroundings.network.connection e.id).request = e.message.payload) :
    Forwards begun (before ++ after) d' := by
  have hmiddle : e ∈ before ++ e :: after := Keeps.mem_middle.2 (Or.inl rfl)
  have hmem {f : Exchange} (hf : f ∈ before ++ after) : f ∈ before ++ e :: after :=
    Keeps.mem_middle.2 (Or.inr hf)
  have hown {m : Message} (hm : begun[e.id]? = some m) : e.message = m := by
    rw [h.message_eq e hmiddle, Option.some.injEq] at hm
    exact hm
  refine ⟨fun f hf => h.message_eq f (hmem hf), fun f hf => ?_, ?_, fun id m hm hlt => ?_,
    fun f hf => ?_, fun id m ended report hm hfinished => ?_, ?_⟩
  · rw [hmoves.routes_eq]
    exact h.port_eq f (hmem hf)
  · obtain ⟨new, hstarts, hconnects⟩ := hmoves.connects_eq
    rw [hconnects, hstarts, h.connects_eq, List.map_append]
  · rw [hmoves.routes_eq]
    by_cases hid : id = e.id
    · rw [hid] at hm ⊢
      rw [hport, h.port_eq e hmiddle, hown hm]
    · rw [hmoves.minds.others id hid]
      exact h.target id m hm (hmoves.lt_of_ne id hid hlt)
  · refine Exchange.Sending.of_connection (h.sending f (hmem hf)) fun started place hruns => ?_
    rw [haccount.place_eq f (hmem hf) started place hruns,
      hmoves.minds.others f.id (hline.id_ne hf)]
    exact ⟨rfl, fun hopen => hopen, fun hroom => hroom⟩
  · rw [hmoves.routes_eq]
    rcases hsent id ended report hfinished with hwas | ⟨rfl, hreport, hsent⟩
    · rw [hmoves.minds.others id (hline.ne_of_finished hmiddle hwas)]
      exact h.sent id m ended report hm hwas
    · rw [hreport, ← hown hm]
      exact ⟨h.port_eq e hmiddle, hsent⟩
  · rw [hmoves.settings_eq]
    intro hdeadline id m hm hlt
    rw [hmoves.isListening_eq]
    by_cases hid : id = e.id
    · rw [hid] at hm ⊢
      rw [hport, ← hown hm]
      exact hatOnce hdeadline
    · rw [hmoves.minds.others id hid]
      exact h.atOnce hdeadline id m hm (hmoves.lt_of_ne id hid hlt)

/-- One more exchange that forwards its message. -/
theorem insert (h : Forwards begun (before ++ after) d)
    (hmessage : begun[e.id]? = some e.message) (hport : e.port = d.routes.resolve e.message.topic)
    (hsending : e.Sending d.surroundings.network) : Forwards begun (before ++ e :: after) d := by
  refine ⟨fun f hf => ?_, fun f hf => ?_, h.connects_eq, h.target, fun f hf => ?_, h.sent,
    h.atOnce⟩
  · rcases Keeps.mem_middle.1 hf with rfl | hf
    · exact hmessage
    · exact h.message_eq f hf
  · rcases Keeps.mem_middle.1 hf with rfl | hf
    · exact hport
    · exact h.port_eq f hf
  · rcases Keeps.mem_middle.1 hf with rfl | hf
    · exact hsending
    · exact h.sending f hf

variable [MessageBus β] {started place slots : Nat} {s : Surroundings β}

/-- An exchange takes its turn on its own connection, whether it has just asked for it or holds it.
-/
theorem finds (h : Forwards begun (before ++ e :: after) d)
    (hline : InLine (before ++ e :: after) d) (haccount : Accounted (before ++ e :: after) d)
    (hmay : d.MayGo before e)
    (hslot : e.stage = .queued ∧ d.freeSlots = slots + 1 ∧ started = d.now ∧
        place = d.surroundings.network.connections.length ∧ s = d.surroundings.opened e d.now ∨
      e.stage.runsOn? = some (started, place) ∧ d.freeSlots = slots ∧ s = d.surroundings) :
    Finds e d place s := by
  have hmiddle : e ∈ before ++ e :: after := Keeps.mem_middle.2 (Or.inl rfl)
  rcases hslot with ⟨hqueued, hfree, rfl, rfl, rfl⟩ | ⟨hruns, -, rfl⟩
  · have hid := haccount.id_of_first hline hqueued (hmay.nobody_waits hqueued hfree)
    have hnew := d.surroundings.network.connection_connect_self e.port
    obtain ⟨hsendsOn, hall⟩ :=
      @Exchange.start_sendsOn _ _ d.settings e d.surroundings d.now hqueued
    rw [← hid] at hnew hsendsOn hall
    refine ⟨hid.symm, congrArg Connection.port hnew,
      fun i ended r => Surroundings.finished_opened_iff.1, hsendsOn,
      fun hdeadline hlistens => Or.inl ?_⟩
    exact hall ⟨_, Network.answer_of_isListening hlistens⟩ hdeadline
  · have hplace := haccount.place_eq e hmiddle started place hruns
    have hlt := haccount.id_lt hline hmiddle hruns
    have hmessage := h.message_eq e hmiddle
    have hport : (d.surroundings.network.connection e.id).port = e.port := by
      rw [h.target e.id e.message hmessage hlt, h.port_eq e hmiddle]
    refine ⟨hplace, hport, fun _ _ _ hmem => hmem, ?_, fun hdeadline hlistens => Or.inr ?_⟩
    · rw [hplace] at hruns
      exact Exchange.advance_sendsOn d.now hruns (h.sending e hmiddle)
    · rw [← hport] at hlistens
      exact h.atOnce hdeadline e.id e.message hmessage hlt hlistens

/-- A visit forwards the message of the exchange that is visited, as far as there is room. -/
theorem visit (h : Forwards begun (before ++ e :: after) d)
    (hline : InLine (before ++ e :: after) d) (haccount : Accounted (before ++ e :: after) d)
    (hmay : d.MayGo before e) :
    Forwards begun (before ++ (d.visit e).1.toList ++ after) (d.visit e).2 ∧
      ∀ f ∈ (d.visit e).1, f.HasOffered (d.visit e).2.surroundings.network := by
  have hmiddle : e ∈ before ++ e :: after := Keeps.mem_middle.2 (Or.inl rfl)
  have hmoves := visit_moves hline haccount hmay
  rcases d.visit_turns e with ⟨hqueued, -, hvisit⟩ | ⟨started, place, slots, s, hslot, hturn⟩
  · rw [hvisit]
    refine ⟨?_, fun f hf c hc => ?_⟩
    · rw [Option.toList_some, List.append_assoc, List.singleton_append]
      exact h
    · rw [Option.mem_some_iff] at hf
      rw [← hf, hqueued] at hc
      cases hc
  · have hfinds := h.finds hline haccount hmay hslot
    obtain rfl := hfinds.place_eq
    have hsendsOn := hfinds.sendsOn
    rcases hturn with ⟨stage, t, hadvance, hruns, htalks, hvisit⟩ |
      ⟨report, t, hadvance, hleaves, hvisit⟩
    · rw [hadvance] at hsendsOn
      obtain ⟨hsending, hoffered⟩ := hsendsOn
      have hportion := Exchange.Sending.isPrefix (e := { e with stage }) hsending hruns
      rw [hvisit] at hmoves ⊢
      have hothers := h.others hline haccount hmoves
        (htalks.network.port_eq.trans hfinds.port_eq)
        (fun id ended report hmem =>
          Or.inl (hfinds.of_finished id ended report (htalks.finished_iff.1 hmem)))
        (hfinds.atOnce htalks.network (by rw [hadvance]) hportion)
      refine ⟨?_, fun f hf => ?_⟩
      · rw [Option.toList_some, List.append_assoc, List.singleton_append]
        exact hothers.insert (h.message_eq e hmiddle) (h.port_eq e hmiddle) hsending
      · rw [Option.mem_some_iff] at hf
        rw [← hf]
        exact hoffered
    · rw [hadvance] at hsendsOn
      have hsent : report.Sent e.message.payload (t.network.connection e.id) := hsendsOn
      have hreport := e.port_of_ends d.settings d.now d.surroundings hadvance
      rw [hvisit] at hmoves ⊢
      refine ⟨?_, fun f hf => ?_⟩
      · rw [Option.toList_none, List.append_nil]
        refine h.others hline haccount hmoves (hleaves.network.port_eq.trans hfinds.port_eq)
          (fun id ended r hmem => ?_)
          (hfinds.atOnce hleaves.network (by rw [hadvance]) hsent.isPrefix)
        rcases hleaves.finished_iff.1 hmem with ⟨rfl, rfl, rfl⟩ | hmem
        · exact Or.inr ⟨rfl, hreport, hsent⟩
        · exact Or.inl (hfinds.of_finished id ended r hmem)
      · cases hf

/-- Forwarding goes on when exchanges go on, all of them or one. -/
theorem visits (h : Forwards begun d.inFlight d) (hline : InLine d.inFlight d)
    (haccount : Accounted d.inFlight d) :
    Forwards begun d.settle.inFlight d.settle ∧
      ∀ place, Forwards begun (d.proceed place).inFlight (d.proceed place) := by
  have hall := hline.forall_visits (P := fun es d => Accounted es d ∧ Forwards begun es d)
    (fun _ _ _ _ hline hmay h => ⟨h.1.visit hline hmay, (h.2.visit hline h.1 hmay).1⟩)
    (fun _ _ _ h => ⟨h.1.of_eq rfl rfl rfl rfl fun _ hx => hx, ⟨h.2.message_eq, h.2.port_eq,
      h.2.connects_eq, h.2.target, h.2.sending, h.2.sent, h.2.atOnce⟩⟩) ⟨haccount, h⟩
  exact ⟨hall.1.2, fun place => (hall.2 place).2⟩

/-- Once every exchange has gone as far as it comes, each has sent as much as there is room for. -/
theorem hasOffered_settle (h : Forwards begun d.inFlight d) (hline : InLine d.inFlight d)
    (haccount : Accounted d.inFlight d) :
    ∀ e ∈ d.settle.inFlight, e.HasOffered d.settle.surroundings.network := by
  have hvisits := hline.visitAll_induction
    (P := fun before es d => Accounted (before ++ es) d ∧ Forwards begun (before ++ es) d ∧
      ∀ f ∈ before, f.HasOffered d.surroundings.network) ?_ ⟨haccount, h, nofun⟩
  · exact hvisits.2.2.2.2
  · rintro before e after d hline hmay ⟨haccount, h, hbefore⟩
    obtain ⟨hvisit, hkept⟩ := h.visit hline haccount hmay
    have hmoves := visit_moves hline haccount hmay
    refine ⟨haccount.visit hline hmay, hvisit, fun f hf => ?_⟩
    rcases List.mem_append.1 hf with hf | hf
    · have hmem : f ∈ before ++ after := List.mem_append_left _ hf
      intro c hc
      have hplace := haccount.place_eq f (Keeps.mem_middle.2 (Or.inr hmem)) c.started c.connection
        (by rw [hc]; rfl)
      rw [hplace, hmoves.minds.others f.id (hline.id_ne hmem), ← hplace]
      exact hbefore f hf c hc
    · exact hkept f (Option.mem_toList.1 hf)

end Forwards

end

/-! ## Sessions -/

/-- What is left of a connection when something happens at its far end. It stays with its port, and
nothing is sent on it. A limit can be set, but none is lifted. -/
structure Remains (c c' : Connection) : Prop where
  port_eq : c'.port = c.port
  request_eq : c'.request = c.request
  room_eq_none : c'.room = none → c.room = none
  isEstablished : c.isEstablished = true → c'.isEstablished = true
  eq_of_not_held : c.held = false → c' = c

theorem Remains.refl (c : Connection) : Remains c c :=
  ⟨rfl, rfl, fun h => h, fun h => h, fun _ => rfl⟩

theorem Happening.change_remains (h : Happening) (n : Network) (c : Connection) :
    Remains c (h.change n c) := by
  have hheld (hopen : c.isOpen = true) (hno : c.held = false) : False := by
    simp [Connection.isOpen, hno] at hopen
  cases h with
  | accept =>
    rw [change]
    split
    · rename_i hif
      exact ⟨rfl, rfl, fun h => h, fun _ => rfl, fun hno => by simp [hno] at hif⟩
    · exact .refl c
  | refuse reason =>
    rw [change]
    split
    · rename_i hif
      refine ⟨rfl, rfl, fun h => h, fun hopen => ?_, fun hno => by simp [hno] at hif⟩
      simp only [Bool.and_eq_true, decide_eq_true_eq] at hif
      rw [Connection.isEstablished, hif.1] at hopen
      cases hopen
    · exact .refl c
  | allow room =>
    rw [change]
    split
    · rename_i hopen
      refine ⟨rfl, rfl, fun hnone => ?_, fun h => h, fun hno => (hheld hopen hno).elim⟩
      cases hnone
    · exact .refl c
  | write b | finish ending =>
    rw [change]
    split
    · rename_i hopen
      exact ⟨rfl, rfl, fun h => h, fun h => h, fun hno => (hheld hopen hno).elim⟩
    · exact .refl c

theorem Happening.apply_remains (h : Happening) (n : Network) (i j : Nat) :
    Remains (n.connection j) ((h.apply i n).connection j) := by
  rw [h.apply_eq]
  exact Network.connection_modify_rel Remains.refl (h.change_remains n) n i j

theorem Happening.length_apply (h : Happening) (n : Network) (i : Nat) :
    (h.apply i n).connections.length = n.connections.length := by
  rw [h.apply_eq, Network.length_modify]

theorem Happening.isListening_apply (h : Happening) (n : Network) (i : Nat) (port : Port) :
    (h.apply i n).isListening port = n.isListening port := by
  apply Network.isListening_congr <;> cases h <;> rfl

namespace Forwards

variable {β : Type} {begun : List Message} {es : List Exchange} {e : Exchange}
  {d d' : Dispatcher β}

/-- What happens neither to an exchange nor to the network. -/
theorem of_eq (h : Forwards begun es d) (hsettings : d'.settings = d.settings)
    (hroutes : d'.routes = d.routes)
    (hnetwork : d'.surroundings.network = d.surroundings.network)
    (hconnects : d'.surroundings.connects = d.surroundings.connects)
    (hstarts : d'.surroundings.starts = d.surroundings.starts)
    (hfinished : ∀ id ended report, .finished id ended report ∈ d'.surroundings.events →
      .finished id ended report ∈ d.surroundings.events) : Forwards begun es d' where
  message_eq := h.message_eq
  port_eq := by rw [hroutes]; exact h.port_eq
  connects_eq := by rw [hconnects, hstarts, h.connects_eq]
  target := by rw [hroutes, hnetwork]; exact h.target
  sending := by rw [hnetwork]; exact h.sending
  sent id m ended report hm hmem := by
    rw [hroutes, hnetwork]
    exact h.sent id m ended report hm (hfinished id ended report hmem)
  atOnce := by rw [hsettings, hnetwork]; exact h.atOnce

/-- What happens at the far end of a connection. -/
theorem backend (h : Forwards begun es d) (hline : InLine es d) (haccount : Accounted es d)
    (i : Nat) (happening : Happening) :
    Forwards begun es (d.onNetwork fun n => happening.apply i n) where
  message_eq := h.message_eq
  port_eq := h.port_eq
  connects_eq := h.connects_eq
  target id m hm hlt := by
    change id < (happening.apply i d.surroundings.network).connections.length at hlt
    rw [happening.length_apply] at hlt
    exact (happening.apply_remains d.surroundings.network i id).port_eq.trans
      (h.target id m hm hlt)
  sending e he := by
    refine Exchange.Sending.of_connection (h.sending e he) fun started place _ => ?_
    obtain ⟨-, hrequest, hroom, hopen, -⟩ :=
      happening.apply_remains d.surroundings.network i place
    exact ⟨hrequest, hopen, hroom⟩
  sent id m ended report hm hmem := by
    have hremains := happening.apply_remains d.surroundings.network i id
    -- The exchange has ended, so that its connection has no holder.
    have hheld : (d.surroundings.network.connection id).held = false := by
      rw [← Bool.not_eq_true]
      intro hheld
      obtain ⟨e, he, -, hid⟩ := haccount.holder id hheld
      exact hline.ne_of_finished he hmem hid.symm
    show report.port = d.routes.resolve m.topic ∧ report.Sent m.payload
      ((happening.apply i d.surroundings.network).connection id)
    rw [hremains.eq_of_not_held hheld]
    exact h.sent id m ended report hm hmem
  atOnce hdeadline id m hm hlt hlistens hroom := by
    change id < (happening.apply i d.surroundings.network).connections.length at hlt
    change (happening.apply i d.surroundings.network).isListening
      ((happening.apply i d.surroundings.network).connection id).port = true at hlistens
    change ((happening.apply i d.surroundings.network).connection id).room = none at hroom
    show ((happening.apply i d.surroundings.network).connection id).request = m.payload
    obtain ⟨hport, hrequest, hwas, -, -⟩ := happening.apply_remains d.surroundings.network i id
    rw [happening.length_apply] at hlt
    rw [happening.isListening_apply, hport] at hlistens
    rw [hrequest]
    exact h.atOnce hdeadline id m hm hlt hlistens (hwas hroom)

/-- An exchange begins, and waits. -/
theorem begin (h : Forwards begun es d) (hline : InLine es d) (haccount : Accounted es d)
    (hnext : d.tracker.nextId = begun.length) (hid : e.id = begun.length)
    (hqueued : e.stage = .queued) (hport : e.port = d.routes.resolve e.message.topic)
    (hsettings : d'.settings = d.settings) (hroutes : d'.routes = d.routes)
    (hnetwork : d'.surroundings.network = d.surroundings.network)
    (hevents : d'.surroundings.events = d.surroundings.events) :
    Forwards (begun ++ [e.message]) (es ++ [e]) d' := by
  -- Nothing can have been sent or reported for a message that has just come.
  have hbegun {id : Nat} {m : Message} (hm : (begun ++ [e.message])[id]? = some m)
      (hlt : id < begun.length) : begun[id]? = some m := by
    rw [List.getElem?_append_left hlt] at hm
    exact hm
  have hstarted : d.surroundings.network.connections.length ≤ begun.length := by
    rw [haccount.length_eq, ← hnext]
    exact hline.starts_length_le
  have hended {id ended : Nat} {report : Report}
      (hmem : .finished id ended report ∈ d.surroundings.events) : id < begun.length := by
    rw [← hnext, ← List.mem_range, ← hline.all.mem_iff]
    exact List.mem_append_left _ (Surroundings.mem_ends.2 ⟨_, _, hmem⟩)
  have hwas : Forwards (begun ++ [e.message]) es d := by
    refine ⟨fun f hf => ?_, h.port_eq, h.connects_eq, fun id m hm hlt => ?_, h.sending,
      fun id m ended report hm hmem => ?_, fun hdeadline id m hm hlt => ?_⟩
    · have hmessage := h.message_eq f hf
      rw [List.getElem?_append_left (List.getElem?_eq_some_iff.1 hmessage).1, hmessage]
    · exact h.target id m (hbegun hm (by omega)) hlt
    · exact h.sent id m ended report (hbegun hm (hended hmem)) hmem
    · exact h.atOnce hdeadline id m (hbegun hm (by omega)) hlt
  have hbehind : Forwards (begun ++ [e.message]) (es ++ []) d' := by
    rw [List.append_nil]
    refine hwas.of_eq hsettings hroutes hnetwork ?_ ?_ fun _ _ _ hmem => hevents ▸ hmem
    · rw [Surroundings.connects, hevents, Surroundings.connects]
    · rw [Surroundings.starts, hevents, Surroundings.starts]
  refine hbehind.insert ?_ ?_ ?_
  · rw [hid, List.getElem?_concat_length]
  · rw [hroutes]
    exact hport
  · rw [Exchange.Sending, hqueued]
    trivial

end Forwards

section
variable {β : Type} [MessageBus β] {port : Port} {d : Dispatcher β}

/-- A backend that listens goes on numbering its connections when an exchange is visited. -/
theorem inOrder_visit (h : d.surroundings.network.InOrder port)
    (hlistens : d.surroundings.network.isListening port = true) (e : Exchange) :
    (d.visit e).2.surroundings.network.InOrder port ∧
      (d.visit e).2.surroundings.network.isListening port = true := by
  rcases d.visit_turns e with ⟨-, -, hvisit⟩ | ⟨started, place, slots, s, hslot, hturn⟩
  · rw [hvisit]
    exact ⟨h, hlistens⟩
  · have hopens : s.network.InOrder port ∧ s.network.isListening port = true := by
      rcases hslot with ⟨-, -, -, -, rfl⟩ | ⟨-, -, rfl⟩
      · exact ⟨h.connect hlistens e.port, hlistens⟩
      · exact ⟨h, hlistens⟩
    rcases hturn with ⟨stage, t, -, -, htalks, hvisit⟩ | ⟨report, t, -, hleaves, hvisit⟩
    · rw [hvisit]
      exact ⟨htalks.network.inOrder hopens.1, (htalks.network.isListening_eq port).trans hopens.2⟩
    · rw [hvisit]
      exact ⟨hleaves.network.inOrder hopens.1,
        (hleaves.network.isListening_eq port).trans hopens.2⟩

theorem inOrder_visits (h : d.surroundings.network.InOrder port)
    (hlistens : d.surroundings.network.isListening port = true) :
    (d.settle.surroundings.network.InOrder port ∧
        d.settle.surroundings.network.isListening port = true) ∧
      ∀ place, (d.proceed place).surroundings.network.InOrder port ∧
        (d.proceed place).surroundings.network.isListening port = true := by
  refine ⟨?_, fun place => ?_⟩
  · exact visitAll_induction (P := fun _ _ d => d.surroundings.network.InOrder port ∧
      d.surroundings.network.isListening port = true)
      (fun _ e _ _ h => inOrder_visit h.1 h.2 e) [] d.inFlight d ⟨h, hlistens⟩
  · rcases d.proceed_cases place with heq | ⟨before, e, after, -, -, heq⟩
    · rw [heq]
      exact ⟨h, hlistens⟩
    · rw [heq]
      exact inOrder_visit h hlistens e

end

namespace Session

/-- The session forwards its messages. -/
def IsForwarding (s : Session) : Prop := Forwards s.begun s.dispatcher.inFlight s.dispatcher

theorem isForwarding_start (settings : ExchangeSettings) (routes : RouteTable)
    (maxConcurrent : Nat) (network : Network) :
    (start settings routes maxConcurrent network).IsForwarding := by
  refine ⟨nofun, nofun, rfl, ?_, nofun, ?_, ?_⟩
  · intro id m hm
    cases hm
  · intro id m ended report hm
    cases hm
  · intro hdeadline id m hm
    cases hm

theorem IsForwarding.act {s : Session} (h : s.IsForwarding) (hsound : s.IsSound)
    (hline : s.IsInLine) (haccount : s.IsAccounted) (a : Action) : (s.act a).IsForwarding := by
  cases a with
  | dispatch m =>
    by_cases hreply : m.replyTopic = ""
    · rw [act_dispatch_of_eq s hreply, dispatch_of_eq _ hreply]
      refine Forwards.of_eq h rfl rfl rfl ?_ ?_ fun id ended report hmem => ?_
      · simp [Surroundings.connects, Surroundings.log, Event.connect?]
      · simp [Surroundings.starts, Surroundings.log, Event.start?]
      · refine (List.mem_cons.1 hmem).resolve_left fun hdropped => ?_
        cases hdropped
    · rw [act_dispatch_of_ne s hreply, dispatch_of_ne _ hreply]
      exact Forwards.begin (e := s.dispatcher.exchangeFor m) h hline haccount hsound.nextId_eq
        hsound.nextId_eq rfl rfl rfl rfl rfl rfl
  | backend connection happening => exact Forwards.backend h hline haccount connection happening
  | proceed place => exact (Forwards.visits h hline haccount).2 place
  | settle => exact (Forwards.visits h hline haccount).1
  | _ => exact Forwards.of_eq h rfl rfl rfl rfl rfl fun _ _ _ hmem => hmem

theorem IsForwarding.run {s : Session} (h : s.IsForwarding) (hsound : s.IsSound)
    (hline : s.IsInLine) (haccount : s.IsAccounted) (actions : List Action) :
    (s.run actions).IsForwarding := by
  induction actions generalizing s with
  | nil => exact h
  | cons a rest ih =>
    exact ih (h.act hsound hline haccount a) (hsound.act a) (hline.act a) (haccount.act hline a)

/-- A backend that listens numbers its connections in the order in which they were asked for. -/
theorem inOrder_run {s : Session} {port : Port} (h : s.surroundings.network.InOrder port)
    (hlistens : s.surroundings.network.isListening port = true) (actions : List Action) :
    (s.run actions).surroundings.network.InOrder port ∧
      (s.run actions).surroundings.network.isListening port = true := by
  induction actions generalizing s with
  | nil => exact ⟨h, hlistens⟩
  | cons a rest ih =>
    suffices hact : (s.act a).surroundings.network.InOrder port ∧
        (s.act a).surroundings.network.isListening port = true from ih hact.1 hact.2
    cases a with
    | dispatch m =>
      by_cases hreply : m.replyTopic = ""
      · rw [act_dispatch_of_eq s hreply, dispatch_of_eq _ hreply]
        exact ⟨h, hlistens⟩
      · rw [act_dispatch_of_ne s hreply, dispatch_of_ne _ hreply]
        exact ⟨h, hlistens⟩
    | backend connection happening =>
      have hremains := happening.apply_remains s.surroundings.network connection
      refine ⟨h.of_keepsPlaces (fun k => ?_) fun i => ?_, ?_⟩
      · exact Network.place?_congr (happening.length_apply _ _) (fun i => (hremains i).port_eq)
          port k
      · exact (happening.link_apply s.surroundings.network connection i).imp_right And.left
      · exact (happening.isListening_apply _ _ _).trans hlistens
    | proceed place => exact (inOrder_visits h hlistens).2 place
    | settle => exact (inOrder_visits h hlistens).1
    | _ => exact ⟨h, hlistens⟩

/-- The exchanges for messages to a backend that have got a slot, in the order in which the messages
came. -/
def routed (s : Session) (port : Port) : List Nat :=
  (List.range s.begun.length).filter fun id =>
    s.surroundings.starts.any (·.1 = id) &&
      s.begun[id]?.any fun m => s.dispatcher.routes.resolve m.topic = port

/-- They have asked for the connections to the backend, in this order. -/
theorem IsForwarding.routed_eq {s : Session} (h : s.IsForwarding) (hsound : s.IsSound)
    (hline : s.IsInLine) (haccount : s.IsAccounted) (port : Port) :
    s.routed port = s.surroundings.network.connections.findIdxs (·.port = port) := by
  have hlength : s.surroundings.network.connections.length = s.surroundings.starts.length :=
    haccount.length_eq
  have hids : s.surroundings.starts.map Prod.fst = List.range s.surroundings.starts.length :=
    hline.started_eq
  have hstarted (i : Nat) : (s.surroundings.starts.any (·.1 = i)) = true ↔
      i < s.surroundings.network.connections.length := by
    rw [hlength, ← List.mem_range, ← hids, List.any_eq_true, List.mem_map]
    simp only [decide_eq_true_eq]
  have hbegun : s.surroundings.network.connections.length ≤ s.begun.length := by
    rw [hlength, ← hsound.nextId_eq]
    exact hline.starts_length_le
  have htarget (i : Nat) (m : Message) (hm : s.begun[i]? = some m)
      (hlt : i < s.surroundings.network.connections.length) :
      (s.surroundings.network.connection i).port = s.dispatcher.routes.resolve m.topic :=
    h.target i m hm hlt
  have hplaces : (s.surroundings.network.connections.findIdxs (·.port = port)).Pairwise (· < ·) :=
    List.pairwise_findIdxs
  have hrouted : (s.routed port).Pairwise (· < ·) := List.pairwise_lt_range.filter _
  symm
  apply hplaces.eq_of_mem_iff hrouted
  intro i
  rw [List.mem_findIdxs_iff_exists_getElem_pos, routed, List.mem_filter, List.mem_range,
    Bool.and_eq_true, hstarted]
  constructor
  · rintro ⟨hlt, hport⟩
    have hm := List.getElem?_eq_getElem (Nat.lt_of_lt_of_le hlt hbegun)
    rw [Network.getElem_eq_connection hlt, htarget i _ hm hlt] at hport
    refine ⟨by omega, hlt, ?_⟩
    rw [hm]
    exact hport
  · rintro ⟨hbegins, hlt, hport⟩
    have hm := List.getElem?_eq_getElem hbegins
    rw [hm] at hport
    refine ⟨hlt, ?_⟩
    rw [Network.getElem_eq_connection hlt, htarget i _ hm hlt]
    exact hport

/-- What has arrived on the connection of an exchange, whether or not the exchange is in flight. -/
theorem IsForwarding.carried {s : Session} (h : s.IsForwarding) (hsound : s.IsSound)
    (hline : s.IsInLine) (haccount : s.IsAccounted) {id : Nat} {m : Message}
    (hm : s.begun[id]? = some m) :
    let link := s.surroundings.network.connection id
    link.request <+: m.payload ∧ (link.isEstablished = false → link.request = []) ∧
      (link.room = none → link.request = [] ∨ link.request = m.payload) := by
  intro link
  by_cases hflight : s.IsInFlight id
  · obtain ⟨e, he, rfl⟩ := hflight
    have hmessage := h.message_eq e he
    rw [hm, Option.some.injEq] at hmessage
    have hsending := h.sending e he
    have hnothing (hempty : link.request = []) : link.request <+: m.payload ∧
        (link.isEstablished = false → link.request = []) ∧
        (link.room = none → link.request = [] ∨ link.request = m.payload) := by
      refine ⟨?_, fun _ => hempty, fun _ => Or.inl hempty⟩
      rw [hempty]
      exact List.nil_prefix
    unfold Exchange.Sending at hsending
    rcases hstage : e.stage with _ | ⟨started, place, limit⟩ | c
    · -- It has no connection yet.
      have hnone : s.surroundings.network.connections.length ≤ e.id := by
        rw [← Nat.not_lt]
        intro hlt
        refine InLine.not_queued hline he ?_ hstage
        rw [hline.started_eq, List.mem_range, ← haccount.length_eq]
        exact hlt
      exact hnothing (congrArg Connection.request (Network.connection_of_length_le hnone))
    · obtain rfl := haccount.place_eq e he started place (by rw [hstage]; rfl)
      rw [hstage] at hsending
      exact hnothing hsending
    · have hplace := haccount.place_eq e he c.started c.connection (by rw [hstage]; rfl)
      rw [hstage] at hsending
      simp only [hplace] at hsending
      obtain ⟨hopen, hsends, hunlimited⟩ := hsending
      rw [← hmessage] at hsends
      refine ⟨hsends.isPrefix, fun hno => ?_, fun hroom => Or.inr ?_⟩
      · rw [show link.isEstablished = true from hopen] at hno
        cases hno
      · have hwhole := hsends.whole
        rw [hunlimited hroom, List.append_nil] at hwhole
        exact hwhole
  · obtain ⟨-, report, hreports, -⟩ := hsound.ended id m hm fun e he heq => hflight ⟨e, he, heq⟩
    obtain ⟨ended, hfinished⟩ :=
      Surroundings.finished_of_mem_reports (hreports ▸ List.mem_singleton_self report)
    obtain ⟨-, hsent⟩ := h.sent id m ended report hm hfinished
    exact ⟨hsent.isPrefix, hsent.unconnected, hsent.unlimited⟩

/-- **Requests go where the routes say, unchanged and once.** Whatever happens in a session, every
exchange that starts asks for one connection, the one in the place of its number, at the backend for
its topic or at the default one. What arrives there is a beginning of the payload of its message,
without a connection nothing; together with what is pending it is the whole payload, and on a
connection without a limit it is the whole payload once the exchange converses. The report names the
backend and counts what has arrived, and if the exchange has not broken off this is the whole
payload, or all that there was room for. Whoever has gone as far as it comes has sent as much as
there is room for. A backend that listens accepts the connections of the exchanges for it that have
got a slot, in the order of their messages, and if there is time gets the whole payload at once. -/
theorem requests_are_forwarded (settings : ExchangeSettings) (routes : RouteTable)
    (maxConcurrent : Nat) (reachable : Bool) (backends : List (Port × Behaviour))
    (elsewhere : Behaviour) (actions : List Action) :
    let asked : Network := { reachable, backends, elsewhere }
    let s := (start settings routes maxConcurrent asked).run actions
    let network := s.surroundings.network
    (s.surroundings.connects = s.surroundings.starts.map (fun x => (x.1, x.1)) ∧
      s.surroundings.starts.map Prod.fst = List.range network.connections.length) ∧
    (∀ id m, s.begun[id]? = some m →
      let link := network.connection id
      let port := routes.resolve m.topic
      (id < network.connections.length →
        link.port = port ∧ (routes.contains m.topic = false → link.port = routes.defaultPort)) ∧
      link.request <+: m.payload ∧ (link.isEstablished = false → link.request = []) ∧
      (link.room = none → link.request = [] ∨ link.request = m.payload) ∧
      (∀ e ∈ s.dispatcher.inFlight, e.id = id → ∀ c, e.stage = .conversing c →
        link.request ++ c.pending = m.payload ∧ c.sent = link.request.length ∧
          (link.room = none → c.pending = [])) ∧
      ∀ report ∈ s.surroundings.reports id,
        report.port = port ∧ report.bytesSent = link.request.length ∧
          (link.isEstablished = true → ¬ report.outcome.BreaksOff →
            link.request = m.payload ∨ link.room = some 0)) ∧
    (∀ e ∈ (s.act .settle).dispatcher.inFlight,
      e.HasOffered (s.act .settle).surroundings.network) ∧
    ∀ port, asked.isListening port = true →
      network.accepted port = (s.routed port).length ∧
      (∀ k, network.find? port k = (s.routed port)[k]?) ∧
      (0 < settings.patience → ∀ id m, id ∈ s.routed port → s.begun[id]? = some m →
        (network.connection id).room = none → (network.connection id).request = m.payload) := by
  intro asked s network
  have hsound : s.IsSound := (isSound_start _ _ _ _).run actions
  have hline : s.IsInLine := (isInLine_start _ _ _ _).run actions
  have haccount : s.IsAccounted :=
    (isAccounted_start _ _ _ rfl).run (isInLine_start _ _ _ _) actions
  have hforwards : s.IsForwarding := (isForwarding_start _ _ _ _).run (isSound_start _ _ _ _)
    (isInLine_start _ _ _ _) (isAccounted_start _ _ _ rfl) actions
  have hrules := rules_run (start settings routes maxConcurrent asked) actions
  simp only [rules, Prod.mk.injEq] at hrules
  obtain ⟨hsettings, hroutes, -⟩ := hrules
  change s.dispatcher.settings = settings at hsettings
  change s.dispatcher.routes = routes at hroutes
  have hlength : network.connections.length = s.surroundings.starts.length := haccount.length_eq
  refine ⟨⟨hforwards.connects_eq, ?_⟩, fun id m hm => ?_, ?_, fun port hlistens => ?_⟩
  · rw [hlength]
    exact hline.started_eq
  · intro link port
    obtain ⟨hportion, hunconnected, hunlimited⟩ :=
      hforwards.carried hsound hline haccount hm
    refine ⟨fun hlt => ?_, hportion, hunconnected, hunlimited, fun e he hid c hc => ?_,
      fun report hreport => ?_⟩
    · have htarget := hforwards.target id m hm hlt
      rw [hroutes] at htarget
      refine ⟨htarget, fun hdefault => htarget.trans ?_⟩
      rw [RouteTable.contains, Option.isSome_eq_false_iff, Option.isNone_iff_eq_none] at hdefault
      rw [RouteTable.resolve, hdefault, Option.getD_none]
    · have hmessage := hforwards.message_eq e he
      rw [hid, hm, Option.some.injEq] at hmessage
      have hplace := haccount.place_eq e he c.started c.connection (by rw [hc]; rfl)
      have hsending := hforwards.sending e he
      unfold Exchange.Sending at hsending
      rw [hc] at hsending
      simp only [hplace, hid, ← hmessage] at hsending
      exact ⟨hsending.2.1.whole, hsending.2.1.sent_eq, hsending.2.2⟩
    · obtain ⟨ended, hfinished⟩ := Surroundings.finished_of_mem_reports hreport
      obtain ⟨hport, hsent⟩ := hforwards.sent id m ended report hm hfinished
      rw [hroutes] at hport
      exact ⟨hport, hsent.bytesSent_eq, hsent.offered⟩
  · exact Forwards.hasOffered_settle hforwards hline haccount
  · have hempty : asked.InOrder port := by
      intro k i hplace
      cases hplace
    obtain ⟨horder, hlistens'⟩ := inOrder_run
      (s := start settings routes maxConcurrent asked) hempty hlistens actions
    have hrouted := hforwards.routed_eq hsound hline haccount port
    refine ⟨?_, fun k => ?_, fun htime id m hid hm hroom => ?_⟩
    · rw [hrouted, List.length_findIdxs, List.countP_eq_length_filter]
      exact horder.accepted_eq
    · rw [hrouted]
      exact horder.find?_eq k
    · have hdeadline : 0 < s.dispatcher.settings.deadline := by
        rw [hsettings]
        exact Nat.lt_of_lt_of_le htime (Nat.min_le_right _ _)
      rw [hrouted, List.mem_findIdxs_iff_exists_getElem_pos] at hid
      obtain ⟨hlt, hport⟩ := hid
      rw [Network.getElem_eq_connection hlt, decide_eq_true_eq] at hport
      refine hforwards.atOnce hdeadline id m hm hlt ?_ hroom
      show s.surroundings.network.isListening (s.surroundings.network.connection id).port = true
      rw [hport]
      exact hlistens'

/-- Two requests go to the default backend and one to a backend that has room for two bytes at first
and for one more later. -/
theorem requests_are_forwarded_in_portions :
    let settings := ({} : Config).exchangeSettings
    let routes := RouteTable.ofList [("upload", 81)] 80
    let m : Message := ⟨"upload", [1, 2, 3, 4], "reply/1", none⟩
    let other : Message := ⟨"status", [104], "reply/2", none⟩
    let actions : List Action := [
      .dispatch ⟨"status", [103], "reply/0", none⟩, .dispatch m, .dispatch other, .settle,
      .backend 1 (.allow 1), .settle, .backend 1 (.finish .closed), .settle]
    let asked : Network := { backends := [(80, .listen), (81, .stall 2)] }
    let s := (start settings routes 3 asked).run actions
    let network := s.surroundings.network
    asked.isListening 80 = true ∧ s.routed 80 = [0, 2] ∧ network.find? 80 1 = some 2 ∧
      (network.connection 2).request = [104] ∧
      s.surroundings.reports 1 = [⟨81, .peerClosed, 0, 3, 0, 0⟩] ∧
      (network.connection 1).request <+: m.payload ∧ (network.connection 1).request.length = 3 ∧
      (network.connection 1).room = some 0 := by
  intro settings routes m other actions asked s network
  have hlistens : asked.isListening 80 = true := by decide +kernel
  have hrouted : s.routed 80 = [0, 2] := by decide +kernel
  have hreports : s.surroundings.reports 1 = [⟨81, .peerClosed, 0, 3, 0, 0⟩] := by decide +kernel
  obtain ⟨-, hall, -, hlisten⟩ := requests_are_forwarded settings routes 3 true
    [(80, .listen), (81, .stall 2)] .refuse actions
  obtain ⟨-, hnumbers, hatOnce⟩ := hlisten 80 hlistens
  obtain ⟨-, hportion, -, -, -, hreport⟩ := hall 1 m (by decide +kernel)
  have hmem : Report.mk 81 .peerClosed 0 3 0 0 ∈ s.surroundings.reports 1 := by
    rw [hreports]
    exact List.mem_singleton_self _
  obtain ⟨-, hsent, hoffered⟩ := hreport _ hmem
  have hwhole := hatOnce (by decide +kernel) 2 other
    (by rw [show _ = s.routed 80 from rfl, hrouted]; decide) (by decide +kernel) (by decide +kernel)
  have hfind := hnumbers 1
  rw [show _ = s.routed 80 from rfl, hrouted] at hfind
  refine ⟨hlistens, hrouted, hfind, hwhole, hreports, hportion, hsent.symm, ?_⟩
  exact (hoffered (by decide +kernel) (by rintro (hno | hno) <;> cases hno)).resolve_left
    (by decide +kernel)

end Session

end Dispatcher

end TopicRelay
