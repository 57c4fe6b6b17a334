import TopicRelay.Proofs.Dispatch.Slots
import Mathlib.Data.List.Sort

/-!
# What exchanges hold

An exchange in flight is counted by the tracker; one that has started holds a slot and a connection
besides. `Accounted` is the invariant behind this, for a network without connections at the start:
every start asks for one connection, so that the connection of an exchange stands in the place of
its number, and nobody holds a connection but the exchange that it belongs to. Together with
`InLine`, which keeps the account of the slots, it says that an exchange gives everything back when
it ends, whichever way it ends (`nothing_leaks`).
-/

namespace TopicRelay

open Surroundings (Talks Leaves)

/-! ## Connections -/

/-- The number under which a backend has accepted the connection, if it is a connection to the
port. -/
def Connection.numberAt? (c : Connection) (port : Port) : Option Nat :=
  match c.link with
  | .established number => if c.port = port then some number else none
  | _ => none

namespace Network

/-- The places of the connections that are open at the end of the relay. -/
def openPlaces (n : Network) : List Nat :=
  (List.range n.connections.length).filter fun i =>
    (n.connection i).isEstablished && (n.connection i).held

theorem connections_eq_map (n : Network) :
    n.connections = (List.range n.connections.length).map n.connection := by
  apply List.ext_getElem
  · simp
  · intro i hi hi'
    simp [connection, List.getD_eq_getElem?_getD, hi]

theorem openNumbers_eq (n : Network) (port : Port) :
    n.openNumbers port = n.openPlaces.filterMap fun i => (n.connection i).numberAt? port := by
  rw [openNumbers, connections_eq_map, List.filterMap_map, openPlaces, List.filterMap_filter]
  apply List.filterMap_congr
  intro i _
  simp only [Function.comp_apply, Connection.numberAt?, Connection.isEstablished]
  generalize n.connection i = c
  obtain ⟨target, link, -, -, -, -, held⟩ := c
  cases link with
  | established number => by_cases hport : target = port <;> cases held <;> simp [hport]
  | _ => simp

end Network

namespace Dispatcher

/-- What a backend makes of its end of a connection. -/
def Happening.change (n : Network) : Happening → Connection → Connection
  | .accept, c =>
    if c.link = .pending && c.held then { c with link := .established (n.accepted c.port) } else c
  | .refuse reason, c =>
    if c.link = .pending && c.held then { c with link := .failed reason, held := false } else c
  | .allow room, c => if c.isOpen then { c with room := some room } else c
  | .write b, c => if c.isOpen then { c with unread := c.unread ++ b } else c
  | .finish ending, c => if c.isOpen then { c with ending := some ending } else c

theorem Happening.apply_eq (h : Happening) (i : Nat) (n : Network) :
    h.apply i n = n.modify i (h.change n) := by
  cases h <;> rfl

/-- No backend makes the relay hold a connection. -/
theorem Happening.held_of_held_change {h : Happening} {n : Network} {c : Connection}
    (hheld : (h.change n c).held = true) : c.held = true := by
  cases h <;> simp only [change] at hheld <;> split at hheld <;> simp_all

/-- A connection that is accepted is held, and no backend makes the relay give it up. -/
theorem Happening.held_change {h : Happening} {n : Network} {c : Connection}
    (hkept : c.isEstablished = true → c.held = true)
    (hopen : (h.change n c).isEstablished = true) : (h.change n c).held = true := by
  cases h <;> simp only [change] at hopen ⊢ <;> split at hopen <;> rename_i hif <;>
    simp_all [Connection.isEstablished]

/-! ## The account -/

/-- The exchanges `es` in flight, and nobody else, are counted and hold connections, each the one in
the place of its number. -/
structure Accounted {β : Type} (es : List Exchange) (d : Dispatcher β) : Prop where
  active_eq : d.tracker.active = es.length
  gauge_eq : d.surroundings.metrics.get? .activeExchanges =
    if d.tracker.nextId = 0 then none else some es.length
  length_eq : d.surroundings.network.connections.length = d.surroundings.starts.length
  place_eq : ∀ e ∈ es, ∀ started place, e.stage.runsOn? = some (started, place) → place = e.id
  connected : ∀ id started, .started id started ∈ d.surroundings.events →
    .connected id id ∈ d.surroundings.events
  holder : ∀ i, (d.surroundings.network.connection i).held = true →
    ∃ e ∈ es, e.isRunning = true ∧ e.id = i
  held : ∀ e ∈ es, e.isRunning = true →
    (d.surroundings.network.connection e.id).isEstablished = true →
    (d.surroundings.network.connection e.id).held = true

namespace InLine

variable {β : Type} {before after : List Exchange} {e f : Exchange} {d : Dispatcher β}

/-- Numbers are distinct. -/
theorem id_ne (h : InLine (before ++ e :: after) d) (hf : f ∈ before ++ after) : f.id ≠ e.id := by
  have hascending := h.ascending
  rw [List.map_append, List.map_cons, List.pairwise_append, List.pairwise_cons] at hascending
  obtain ⟨-, ⟨hlater, -⟩, hcross⟩ := hascending
  rcases List.mem_append.1 hf with hf | hf
  · exact Nat.ne_of_lt (hcross f.id (List.mem_map_of_mem hf) e.id List.mem_cons_self)
  · exact Nat.ne_of_gt (hlater f.id (List.mem_map_of_mem hf))

/-- The first in line has the number of those that have started. -/
theorem id_of_first (h : InLine (before ++ e :: after) d) (hqueued : e.stage = .queued)
    (hfirst : ∀ f ∈ before, f.stage ≠ .queued) : e.id = d.surroundings.starts.length := by
  have hnobody : before.filter Exchange.isQueued = [] := by
    rw [List.filter_eq_nil_iff]
    intro g hg hg'
    exact hfirst g hg (Exchange.isQueued_iff.1 hg')
  have hnumbers := h.numbers
  rw [List.filter_append, hnobody, List.nil_append, List.filter_cons,
    if_pos (Exchange.isQueued_iff.2 hqueued), List.map_cons] at hnumbers
  have hget := congrArg (·[d.surroundings.starts.length]?) hnumbers
  rw [List.getElem?_append_right (by simp)] at hget
  simp only [List.length_map, Nat.sub_self, List.getElem?_cons_zero] at hget
  obtain ⟨_, heq⟩ := List.getElem?_eq_some_iff.1 hget.symm
  rw [List.getElem_range] at heq
  exact heq.symm

end InLine

namespace Accounted

section
variable {β : Type} {before after es : List Exchange} {e f : Exchange} {d d' : Dispatcher β}

/-- Where nobody starts, those that have started have their connections. -/
theorem connected_of_starts (h : Accounted es d) {t : Surroundings β}
    (hstarts : t.starts = d.surroundings.starts) (hevents : d.surroundings.events ⊆ t.events) :
    ∀ id started, .started id started ∈ t.events → .connected id id ∈ t.events := by
  intro id started hmem
  rw [← Surroundings.mem_starts, hstarts, Surroundings.mem_starts] at hmem
  exact hevents (h.connected id started hmem)

/-- The account looks neither at the clock nor at the slots. -/
theorem of_eq (h : Accounted es d) (htracker : d'.tracker = d.tracker)
    (hmetrics : d'.surroundings.metrics.get? .activeExchanges =
      d.surroundings.metrics.get? .activeExchanges)
    (hnetwork : d'.surroundings.network = d.surroundings.network)
    (hstarts : d'.surroundings.starts = d.surroundings.starts)
    (hevents : d.surroundings.events ⊆ d'.surroundings.events) : Accounted es d' where
  active_eq := by rw [htracker, h.active_eq]
  gauge_eq := by rw [hmetrics, htracker, h.gauge_eq]
  length_eq := by rw [hnetwork, hstarts, h.length_eq]
  place_eq := h.place_eq
  connected := h.connected_of_starts hstarts hevents
  holder := by rw [hnetwork]; exact h.holder
  held := by rw [hnetwork]; exact h.held

/-- The first in line has the number of the next connection. -/
theorem id_of_first (h : Accounted (before ++ e :: after) d)
    (hline : InLine (before ++ e :: after) d) (hqueued : e.stage = .queued)
    (hfirst : ∀ f ∈ before, f.stage ≠ .queued) :
    e.id = d.surroundings.network.connections.length := by
  rw [hline.id_of_first hqueued hfirst, h.length_eq]

/-- The first in line asks for its connection. -/
theorem opened {slots : Nat} (h : Accounted (before ++ e :: after) d)
    (hline : InLine (before ++ e :: after) d) (hqueued : e.stage = .queued)
    (hfirst : ∀ f ∈ before, f.stage ≠ .queued) (hfid : f.id = e.id)
    (hf : f.stage.runsOn? = some (d.now, d.surroundings.network.connections.length)) :
    Accounted (before ++ f :: after)
      { d with freeSlots := slots, surroundings := d.surroundings.opened e d.now } := by
  have hid : f.id = d.surroundings.network.connections.length := by
    rw [hfid, h.id_of_first hline hqueued hfirst]
  have hrunning := Exchange.isRunning_of_runsOn? hf
  have hother {g : Exchange} (hg : g ∈ before ++ after) :
      g ∈ before ++ e :: after ∧ g.id ≠ d.surroundings.network.connections.length :=
    ⟨Keeps.mem_middle.2 (Or.inr hg), by rw [← hid, hfid]; exact hline.id_ne hg⟩
  refine ⟨?_, ?_, ?_, fun g hg => ?_, fun i started hmem => ?_, fun i hi => ?_,
    fun g hg hruns hopen => ?_⟩
  · rw [h.active_eq]
    simp
  · have hgauge := h.gauge_eq
    simp only [List.length_append, List.length_cons] at hgauge ⊢
    exact hgauge
  · show (d.surroundings.network.connect e.port).2.connections.length = _
    rw [Network.length_connect, h.length_eq, Surroundings.starts_opened]
    simp
  · rcases Keeps.mem_middle.1 hg with rfl | hg
    · intro started place hruns
      rw [hf] at hruns
      cases hruns
      exact hid.symm
    · exact h.place_eq g (hother hg).1
  · simp only [Surroundings.opened, Surroundings.log, List.mem_cons, Event.started.injEq,
      reduceCtorEq, false_or] at hmem
    rcases hmem with ⟨rfl, -⟩ | hmem
    · refine List.mem_cons.2 (Or.inl ?_)
      rw [← hid, hfid]
    · exact List.mem_cons_of_mem _ (List.mem_cons_of_mem _ (h.connected i started hmem))
  · by_cases hnew : i = d.surroundings.network.connections.length
    · exact ⟨f, Keeps.mem_middle.2 (Or.inl rfl), hrunning, hid.trans hnew.symm⟩
    · have hold : (d.surroundings.network.connection i).held = true := by
        rw [← Network.connection_connect_of_ne hnew e.port]
        exact hi
      obtain ⟨g, hg, hruns, hgid⟩ := h.holder i hold
      rcases Keeps.mem_middle.1 hg with rfl | hg
      · exact absurd hqueued (Exchange.isRunning_iff.1 hruns)
      · exact ⟨g, Keeps.mem_middle.2 (Or.inr hg), hruns, hgid⟩
  · show ((d.surroundings.network.connect e.port).2.connection g.id).held = true
    change ((d.surroundings.network.connect e.port).2.connection g.id).isEstablished = true at hopen
    rcases Keeps.mem_middle.1 hg with rfl | hg
    · -- A connection that is accepted at once is held.
      rw [hid, Network.connection_connect_self] at hopen ⊢
      simp only [Connection.isEstablished] at hopen
      split at hopen
      · rename_i hlink
        simp only [hlink]
      · cases hopen
    · rw [Network.connection_connect_of_ne (hother hg).2] at hopen ⊢
      exact h.held g (hother hg).1 hruns hopen

/-- An exchange talks on its connection, and keeps it. -/
theorem talks {started place slots : Nat} {t : Surroundings β}
    (h : Accounted (before ++ e :: after) d) (hline : InLine (before ++ e :: after) d)
    (he : e.stage.runsOn? = some (started, place)) (hfid : f.id = e.id)
    (hf : f.stage.runsOn? = some (started, place)) (ht : Talks e.id place d.surroundings t) :
    Accounted (before ++ f :: after) { d with freeSlots := slots, surroundings := t } := by
  obtain rfl := h.place_eq e (Keeps.mem_middle.2 (Or.inl rfl)) started place he
  have hrunning := Exchange.isRunning_of_runsOn? he
  have hrunning' := Exchange.isRunning_of_runsOn? hf
  refine ⟨?_, ?_, ?_, fun g hg => ?_, h.connected_of_starts ht.starts_eq ht.events_subset,
    fun i hi => ?_, fun g hg hruns hopen => ?_⟩
  · rw [h.active_eq]
    simp
  · rw [ht.active_eq]
    have hgauge := h.gauge_eq
    simp only [List.length_append, List.length_cons] at hgauge ⊢
    exact hgauge
  · rw [ht.network.length_eq, ht.starts_eq]
    exact h.length_eq
  · rcases Keeps.mem_middle.1 hg with rfl | hg
    · intro started' place hruns
      rw [hf] at hruns
      cases hruns
      exact hfid.symm
    · exact h.place_eq g (Keeps.mem_middle.2 (Or.inr hg))
  · by_cases hown : i = e.id
    · exact ⟨f, Keeps.mem_middle.2 (Or.inl rfl), hrunning', hfid.trans hown.symm⟩
    · rw [ht.network.others i hown] at hi
      obtain ⟨g, hg, hruns, hgid⟩ := h.holder i hi
      rcases Keeps.mem_middle.1 hg with rfl | hg
      · exact absurd hgid.symm hown
      · exact ⟨g, Keeps.mem_middle.2 (Or.inr hg), hruns, hgid⟩
  · rcases Keeps.mem_middle.1 hg with rfl | hg
    · rw [hfid, ht.held_eq]
      rw [hfid, Connection.isEstablished, ht.network.link_eq] at hopen
      exact h.held e (Keeps.mem_middle.2 (Or.inl rfl)) hrunning hopen
    · have hne := hline.id_ne hg
      rw [ht.network.others g.id hne] at hopen ⊢
      exact h.held g (Keeps.mem_middle.2 (Or.inr hg)) hruns hopen

/-- An exchange ends, and leaves its connection. -/
theorem leaves {started place now slots : Nat} {report : Report} {t : Surroundings β}
    (h : Accounted (before ++ e :: after) d) (hline : InLine (before ++ e :: after) d)
    (he : e.stage.runsOn? = some (started, place))
    (ht : Leaves e.id place now report d.surroundings t) :
    Accounted (before ++ after) { d with
      tracker := (d.tracker.release t.metrics).1
      freeSlots := slots
      surroundings := { t with metrics := (d.tracker.release t.metrics).2 } } := by
  obtain rfl := h.place_eq e (Keeps.mem_middle.2 (Or.inl rfl)) started place he
  have hactive : d.tracker.active - 1 = (before ++ after).length := by
    rw [h.active_eq]
    simp
  have hsome : d.tracker.nextId ≠ 0 := by
    intro hnone
    have hmem : e.id ∈ List.range d.tracker.nextId := by
      rw [← hline.all.mem_iff]
      exact List.mem_append_right _ (List.mem_map_of_mem (Keeps.mem_middle.2 (Or.inl rfl)))
    rw [hnone] at hmem
    cases hmem
  refine ⟨hactive, ?_, ?_, fun g hg => h.place_eq g (Keeps.mem_middle.2 (Or.inr hg)),
    h.connected_of_starts ht.starts_eq ht.events_subset, fun i hi => ?_,
    fun g hg hruns hopen => ?_⟩
  · show (t.metrics.setActive (d.tracker.active - 1)).get? .activeExchanges =
      if d.tracker.nextId = 0 then none else some (before ++ after).length
    rw [Metrics.active_setActive, if_neg hsome, hactive]
  · show t.network.connections.length = t.starts.length
    rw [ht.network.length_eq, ht.starts_eq]
    exact h.length_eq
  · change (t.network.connection i).held = true at hi
    have hown : i ≠ e.id := by
      intro hown
      rw [hown, ht.held_eq] at hi
      cases hi
    rw [ht.network.others i hown] at hi
    obtain ⟨g, hg, hruns, hgid⟩ := h.holder i hi
    rcases Keeps.mem_middle.1 hg with rfl | hg
    · exact absurd hgid.symm hown
    · exact ⟨g, hg, hruns, hgid⟩
  · change (t.network.connection g.id).isEstablished = true at hopen
    show (t.network.connection g.id).held = true
    rw [ht.network.others g.id (hline.id_ne hg)] at hopen ⊢
    exact h.held g (Keeps.mem_middle.2 (Or.inr hg)) hruns hopen

/-- What happens at the far end of a connection. -/
theorem backend (h : Accounted es d) (i : Nat) (happening : Happening) :
    Accounted es (d.onNetwork fun n => happening.apply i n) := by
  have hconnection (j : Nat) :
      (happening.apply i d.surroundings.network).connection j =
        d.surroundings.network.connection j ∨
      (happening.apply i d.surroundings.network).connection j =
        happening.change d.surroundings.network (d.surroundings.network.connection j) := by
    rw [happening.apply_eq, Network.connection_modify]
    split
    · exact Or.inr rfl
    · exact Or.inl rfl
  refine ⟨h.active_eq, h.gauge_eq, ?_, h.place_eq, h.connected, fun j hj => ?_,
    fun e he hruns hopen => ?_⟩
  · show (happening.apply i d.surroundings.network).connections.length = _
    rw [happening.apply_eq, Network.length_modify]
    exact h.length_eq
  · change ((happening.apply i d.surroundings.network).connection j).held = true at hj
    rcases hconnection j with heq | heq
    · rw [heq] at hj
      exact h.holder j hj
    · rw [heq] at hj
      exact h.holder j (Happening.held_of_held_change hj)
  · change ((happening.apply i d.surroundings.network).connection e.id).isEstablished = true
      at hopen
    show ((happening.apply i d.surroundings.network).connection e.id).held = true
    rcases hconnection e.id with heq | heq
    · rw [heq] at hopen ⊢
      exact h.held e he hruns hopen
    · rw [heq] at hopen ⊢
      exact Happening.held_change (h.held e he hruns) hopen

/-- An exchange begins. -/
theorem begin (h : Accounted es d) (hqueued : e.stage = .queued)
    (htracker : d'.tracker = ⟨d.tracker.active + 1, d.tracker.nextId + 1⟩)
    (hmetrics : d'.surroundings.metrics =
      d.surroundings.metrics.setActive (d.tracker.active + 1))
    (hnetwork : d'.surroundings.network = d.surroundings.network)
    (hevents : d'.surroundings.events = d.surroundings.events) : Accounted (es ++ [e]) d' where
  active_eq := by
    rw [htracker, List.length_append, List.length_singleton, h.active_eq]
  gauge_eq := by
    rw [hmetrics, htracker, Metrics.active_setActive, List.length_append, List.length_singleton,
      h.active_eq]
    rfl
  length_eq := by rw [hnetwork, h.length_eq, Surroundings.starts, Surroundings.starts, hevents]
  connected := by rw [hevents]; exact h.connected
  place_eq g hg started place hruns := by
    rcases List.mem_append.1 hg with hg | hg
    · exact h.place_eq g hg started place hruns
    · rw [List.mem_singleton.1 hg, hqueued] at hruns
      cases hruns
  holder i hi := by
    rw [hnetwork] at hi
    obtain ⟨g, hg, hruns, hgid⟩ := h.holder i hi
    exact ⟨g, List.mem_append_left _ hg, hruns, hgid⟩
  held g hg hruns hopen := by
    rw [hnetwork] at hopen ⊢
    rcases List.mem_append.1 hg with hg | hg
    · exact h.held g hg hruns hopen
    · rw [List.mem_singleton.1 hg] at hruns
      exact absurd hqueued (Exchange.isRunning_iff.1 hruns)

end

/-! ## Visits -/

section
variable {β : Type} [MessageBus β] {before after : List Exchange} {e : Exchange}
  {d : Dispatcher β}

theorem visit (h : Accounted (before ++ e :: after) d) (hline : InLine (before ++ e :: after) d)
    (hmay : d.MayGo before e) :
    Accounted (before ++ (d.visit e).1.toList ++ after) (d.visit e).2 := by
  rcases d.visit_turns e with ⟨-, -, hvisit⟩ | ⟨started, place, slots, s, hslot, hturn⟩
  · rw [hvisit, Option.toList_some, List.append_assoc, List.singleton_append]
    exact h
  · rcases hslot with ⟨hqueued, hfree, rfl, rfl, rfl⟩ | ⟨hruns, -, rfl⟩
    · have hnobody := hmay.nobody_waits hqueued hfree
      -- It has its slot and its connection before anything else happens.
      let on : Exchange :=
        { e with stage := .connecting d.now d.surroundings.network.connections.length 0 }
      have hopened : Accounted (before ++ on :: after)
          { d with freeSlots := slots, surroundings := d.surroundings.opened e d.now } :=
        h.opened hline hqueued hnobody rfl rfl
      have hline' : InLine (before ++ on :: after)
          { d with freeSlots := slots, surroundings := d.surroundings.opened e d.now } :=
        hline.start hqueued hnobody rfl rfl rfl hfree rfl rfl
          (d.surroundings.starts_opened e d.now) (d.surroundings.ends_opened e d.now)
      rcases hturn with ⟨stage, t, -, hstage, htalks, hvisit⟩ | ⟨report, t, -, hleaves, hvisit⟩
      · rw [hvisit, Option.toList_some, List.append_assoc, List.singleton_append]
        exact hopened.talks hline' rfl rfl hstage htalks
      · rw [hvisit, Option.toList_none, List.append_nil]
        exact hopened.leaves hline' rfl hleaves
    · rcases hturn with ⟨stage, t, -, hstage, htalks, hvisit⟩ | ⟨report, t, -, hleaves, hvisit⟩
      · rw [hvisit, Option.toList_some, List.append_assoc, List.singleton_append]
        exact h.talks hline hruns rfl hstage htalks
      · rw [hvisit, Option.toList_none, List.append_nil]
        exact h.leaves hline hruns hleaves

/-- The account stays right when exchanges go on, all of them or one. -/
theorem visits (h : Accounted d.inFlight d) (hline : InLine d.inFlight d) :
    Accounted d.settle.inFlight d.settle ∧
      ∀ place, Accounted (d.proceed place).inFlight (d.proceed place) :=
  hline.forall_visits (P := Accounted) (fun _ _ _ _ hline hmay h => h.visit hline hmay)
    (fun _ _ _ h => h.of_eq rfl rfl rfl rfl fun _ hx => hx) h

end

end Accounted

/-! ## Sessions -/

/-- The places of the connections of the exchanges that run and have connected. -/
def connectedPlaces {β : Type} (d : Dispatcher β) : List Nat :=
  (d.inFlight.filterMap fun e => e.stage.runsOn?.map Prod.snd).filter fun i =>
    (d.surroundings.network.connection i).isEstablished

/-- Every connection that is open at the end of the relay is that of an exchange that runs and has
connected, and each of these has one. -/
theorem Accounted.openPlaces_eq {β : Type} {d : Dispatcher β} (h : Accounted d.inFlight d)
    (hline : InLine d.inFlight d) : d.surroundings.network.openPlaces = d.connectedPlaces := by
  have hids : (d.inFlight.filterMap fun e => e.stage.runsOn?.map Prod.snd) =
      d.running.map Exchange.id := by
    rw [running, ← List.filterMap_eq_filter, List.map_filterMap]
    apply List.filterMap_congr
    intro e he
    rcases hruns : e.stage.runsOn? with _ | ⟨started, place⟩
    · have hqueued := Stage.runsOn?_eq_none_iff.1 hruns
      simp [Exchange.isRunning, Exchange.isQueued, hqueued]
    · rw [h.place_eq e he started place hruns]
      simp [Exchange.isRunning_of_runsOn? hruns]
  have hascending : d.connectedPlaces.Pairwise (· < ·) := by
    rw [connectedPlaces, hids]
    exact (hline.ascending.sublist (List.filter_sublist.map _)).filter _
  have hopen : d.surroundings.network.openPlaces.Pairwise (· < ·) :=
    List.pairwise_lt_range.filter _
  apply hopen.eq_of_mem_iff hascending
  intro i
  rw [Network.openPlaces, connectedPlaces, hids, List.mem_filter, List.mem_filter, List.mem_range,
    Bool.and_eq_true]
  constructor
  · rintro ⟨-, hestablished, hheld⟩
    obtain ⟨e, he, hruns, rfl⟩ := h.holder i hheld
    exact ⟨List.mem_map_of_mem (List.mem_filter.2 ⟨he, hruns⟩), hestablished⟩
  · rintro ⟨hmem, hestablished⟩
    obtain ⟨e, he, rfl⟩ := List.mem_map.1 hmem
    obtain ⟨he, hruns⟩ := List.mem_filter.1 he
    refine ⟨?_, hestablished, h.held e he hruns hestablished⟩
    -- There is nothing at the places behind the last one.
    apply Nat.lt_of_not_le
    intro hle
    rw [Network.connection_of_length_le hle] at hestablished
    cases hestablished

/-- The exchanges that have started are those that have ended and those that hold a slot, each
once. -/
theorem InLine.started_perm {β : Type} {d : Dispatcher β} (h : InLine d.inFlight d) :
    (d.surroundings.ends ++ d.running.map Exchange.id).Perm
      (d.surroundings.starts.map Prod.fst) := by
  have hsplit : (d.running.map Exchange.id ++ d.waiting.map Exchange.id).Perm
      (d.inFlight.map Exchange.id) := by
    rw [← List.map_append]
    apply List.Perm.map
    exact List.perm_append_comm.trans (List.filter_append_perm Exchange.isQueued d.inFlight)
  rw [← List.perm_append_right_iff (d.waiting.map Exchange.id), List.append_assoc]
  have hnumbers := h.numbers
  refine ((List.Perm.append_left _ hsplit).trans h.all).trans ?_
  rw [← hnumbers]
  rfl

namespace Session

/-- The account of the session is right. -/
def IsAccounted (s : Session) : Prop := Accounted s.dispatcher.inFlight s.dispatcher

theorem isAccounted_start (settings : ExchangeSettings) (routes : RouteTable) (maxConcurrent : Nat)
    {network : Network} (h : network.connections = []) :
    (start settings routes maxConcurrent network).IsAccounted := by
  refine ⟨rfl, rfl, ?_, ?_, ?_, ?_, ?_⟩
  · exact congrArg List.length h
  · intro e he
    cases he
  · intro id started hmem
    cases hmem
  · intro i hi
    have hnone : network.connection i = .absent :=
      Network.connection_of_length_le (by rw [h]; exact Nat.zero_le i)
    change (network.connection i).held = true at hi
    rw [hnone] at hi
    cases hi
  · intro e he
    cases he

theorem IsAccounted.act {s : Session} (h : s.IsAccounted) (hline : s.IsInLine) (a : Action) :
    (s.act a).IsAccounted := by
  cases a with
  | dispatch m =>
    by_cases hreply : m.replyTopic = ""
    · rw [act_dispatch_of_eq s hreply, dispatch_of_eq _ hreply]
      refine Accounted.of_eq h rfl ?_ rfl ?_ ?_
      · exact Metrics.active_recordDropped _
      · simp [Surroundings.starts, Surroundings.log, Event.start?]
      · exact List.subset_cons_self _ _
    · rw [act_dispatch_of_ne s hreply, dispatch_of_ne _ hreply]
      exact Accounted.begin (e := s.dispatcher.exchangeFor m) h rfl rfl rfl rfl rfl
  | backend connection happening => exact Accounted.backend h connection happening
  | proceed place => exact (Accounted.visits h hline).2 place
  | settle => exact (Accounted.visits h hline).1
  | _ => exact Accounted.of_eq h rfl rfl rfl rfl fun _ hx => hx

theorem IsAccounted.run {s : Session} (h : s.IsAccounted) (hline : s.IsInLine)
    (actions : List Action) : (s.run actions).IsAccounted := by
  induction actions generalizing s with
  | nil => exact h
  | cons a rest ih => exact ih (h.act hline a) (hline.act a)

/-- **Nothing leaks.** Whatever happens in a session, the slots are those that exchanges hold and
those that are free. An exchange begins for every message that can be answered, and the exchanges
counted as active, by the tracker and by the metric once there has been one, are those that have
begun and not ended. The connections open at the end of the relay are those of the exchanges that
run and have connected, one each. Every exchange that has started has ended or holds its slot, and
not both; one that has ended has made one report and holds no connection. -/
theorem nothing_leaks (settings : ExchangeSettings) (routes : RouteTable) (maxConcurrent : Nat)
    (reachable : Bool) (backends : List (Port × Behaviour)) (elsewhere : Behaviour)
    (actions : List Action) :
    let s := (start settings routes maxConcurrent { reachable, backends, elsewhere }).run actions
    let d := s.dispatcher
    let network := s.surroundings.network
    d.running.length + d.freeSlots = maxConcurrent ∧
    (s.begun = actions.filterMap Action.begins? ∧
      (s.surroundings.ends ++ d.inFlight.map Exchange.id).Perm (List.range s.begun.length) ∧
      d.tracker.active = d.inFlight.length ∧
      s.surroundings.metrics.get? .activeExchanges =
        if s.begun = [] then none else some d.tracker.active) ∧
    (network.openPlaces = d.connectedPlaces ∧
      ∀ port, network.openNumbers port =
        d.connectedPlaces.filterMap fun i => (network.connection i).numberAt? port) ∧
    (s.surroundings.ends ++ d.running.map Exchange.id).Perm (s.surroundings.starts.map Prod.fst) ∧
    ∀ id ∈ s.surroundings.ends,
      (∃ report, s.surroundings.reports id = [report]) ∧ (network.connection id).held = false := by
  intro s d network
  have hline : s.IsInLine := (isInLine_start _ _ _ _).run actions
  have haccount : s.IsAccounted :=
    (isAccounted_start _ _ _ rfl).run (isInLine_start _ _ _ _) actions
  have hsound : s.IsSound := (isSound_start _ _ _ _).run actions
  have hmax : d.maxConcurrent = maxConcurrent := by
    have hrules := rules_run
      (start settings routes maxConcurrent { reachable, backends, elsewhere }) actions
    simp only [rules, Prod.mk.injEq] at hrules
    exact hrules.2.2
  have hall : (s.surroundings.ends ++ d.inFlight.map Exchange.id).Perm
      (List.range s.begun.length) := by
    rw [← hsound.nextId_eq]
    exact hline.all
  have hopen : network.openPlaces = d.connectedPlaces := haccount.openPlaces_eq hline
  refine ⟨?_, ⟨begun_run_start _ _ _ _ actions, hall, haccount.active_eq, ?_⟩,
    ⟨hopen, fun port => ?_⟩, hline.started_perm, fun id hid => ?_⟩
  · rw [← hmax, ← hline.slots_eq]
    exact Nat.add_comm _ _
  · have hnone : s.dispatcher.tracker.nextId = 0 ↔ s.begun = [] := by
      rw [hsound.nextId_eq, List.length_eq_zero_iff]
    have hgauge := haccount.gauge_eq
    rw [← haccount.active_eq] at hgauge
    simp only [hnone] at hgauge
    exact hgauge
  · rw [← hopen]
    exact network.openNumbers_eq port
  · have hnodup := (hall.nodup_iff.2 List.nodup_range)
    have hout : ∀ e ∈ d.inFlight, e.id ≠ id := by
      intro e he heq
      refine (List.nodup_append.1 hnodup).2.2 id hid e.id (List.mem_map_of_mem he) heq.symm
    refine ⟨?_, ?_⟩
    · have hlt : id < s.begun.length := by
        rw [← List.mem_range, ← hall.mem_iff]
        exact List.mem_append_left _ hid
      obtain ⟨-, report, hreports, -⟩ := hsound.ended id _ (List.getElem?_eq_getElem hlt) hout
      exact ⟨report, hreports⟩
    · rcases hheld : (network.connection id).held
      · rfl
      · obtain ⟨e, he, -, heq⟩ := haccount.holder id hheld
        exact absurd heq (hout e he)

end Session

end Dispatcher

end TopicRelay
