import TopicRelay.Proofs.Exchange.Turn
import Mathlib.Data.List.Basic

/-!
# Connections by their backends

The place of a connection among all connections depends on what is asked for at other backends. Its
number among the connections to its own backend does not, so that `place?` finds a connection again
in another network. Two networks that agree outside a backend (`AgreesOutside`) have the same
connections to every other backend under the same numbers, and go on to agree when the same is done
to connections of the same number (`AgreesOutside.modify`, `AgreesOutside.connect`).
-/

namespace TopicRelay

/-! ## Members of a list by their numbers -/

section
variable {α : Type} {p : α → Bool}

theorem getElem?_findIdxs_middle {x : α} (before after : List α) (hx : p x = true) :
    ((before ++ x :: after).findIdxs p)[before.countP p]? = some before.length := by
  rw [List.findIdxs_append, List.getElem?_append_right (Nat.le_of_eq List.length_findIdxs),
    List.length_findIdxs, Nat.sub_self, List.findIdxs_cons, if_pos hx, List.getElem?_cons_zero,
    Nat.zero_add]

/-- The member that is the `k`-th to have a property has `k` others with it before it. -/
theorem exists_middle_of_findIdxs {l : List α} {k i : Nat} (h : (l.findIdxs p)[k]? = some i) :
    ∃ before x after, l = before ++ x :: after ∧ before.length = i ∧ p x = true ∧
      before.countP p = k := by
  obtain ⟨hk, -⟩ := List.getElem?_eq_some_iff.1 h
  obtain ⟨hi, hx⟩ := List.mem_findIdxs_iff_exists_getElem_pos.1 (List.mem_of_getElem? h)
  have hsplit : l = l.take i ++ l[i] :: l.drop (i + 1) := by
    rw [List.getElem_cons_drop, List.take_append_drop]
  have hlength : (l.take i).length = i := List.length_take_of_le (Nat.le_of_lt hi)
  refine ⟨_, _, _, hsplit, hlength, hx, ?_⟩
  have hmiddle := getElem?_findIdxs_middle (l.take i) (l.drop (i + 1)) hx
  rw [← hsplit, hlength, ← h] at hmiddle
  exact ((List.getElem?_inj hk List.nodup_findIdxs).1 hmiddle.symm).symm

/-- The numbers depend on nothing but what the members are counted by. -/
theorem findIdxs_congr_map {β : Type} [DecidableEq β] {f : α → β} {l l' : List α}
    (h : l.map f = l'.map f) (b : β) :
    l.findIdxs (fun x => decide (f x = b)) = l'.findIdxs (fun x => decide (f x = b)) := by
  have hfind (l : List α) : l.findIdxs (fun x => decide (f x = b)) =
      (l.map f).findIdxs (fun y => decide (y = b)) := by
    rw [List.findIdxs_map]
    rfl
  rw [hfind, hfind, h]

end

namespace Network

/-! ## Connections to one backend -/

/-- The connections to a backend, in the order in which they were asked for. -/
def connectionsTo (n : Network) (port : Port) : List Connection :=
  n.connections.filter (·.port = port)

/-- The place of the connection to a backend that has this number among them. -/
def place? (n : Network) (port : Port) (k : Nat) : Option Nat :=
  (n.connections.findIdxs (·.port = port))[k]?

theorem exists_place? {n : Network} {i : Nat} (h : i < n.connections.length) :
    ∃ port k, n.place? port k = some i := by
  have hmem : i ∈ n.connections.findIdxs (·.port = (n.connections[i]).port) := by
    rw [List.mem_findIdxs_iff_exists_getElem_pos]
    exact ⟨h, decide_eq_true rfl⟩
  obtain ⟨k, hk, heq⟩ := List.getElem_of_mem hmem
  exact ⟨_, k, by rw [place?, List.getElem?_eq_getElem hk, heq]⟩

theorem place?_eq_none_iff {n : Network} {port : Port} {k : Nat} :
    n.place? port k = none ↔ (n.connectionsTo port).length ≤ k := by
  rw [place?, List.getElem?_eq_none_iff, List.length_findIdxs, connectionsTo,
    List.countP_eq_length_filter]

theorem connection_middle {n : Network} {before after : List Connection} {c : Connection}
    (h : n.connections = before ++ c :: after) : n.connection before.length = c := by
  simp [connection, h]

/-- A connection stands behind as many connections to its backend as its number says. -/
theorem exists_middle {n : Network} {port : Port} {k i : Nat} (h : n.place? port k = some i) :
    ∃ before c after, n.connections = before ++ c :: after ∧ before.length = i ∧
      n.connection i = c ∧ c.port = port ∧ (before.filter (·.port = port)).length = k := by
  obtain ⟨before, c, after, hsplit, hlength, hport, hcount⟩ := exists_middle_of_findIdxs h
  refine ⟨before, c, after, hsplit, hlength, ?_, of_decide_eq_true hport, ?_⟩
  · rw [← hlength]
    exact connection_middle hsplit
  · rw [← List.countP_eq_length_filter, hcount]

theorem port_of_place? {n : Network} {port : Port} {k i : Nat} (h : n.place? port k = some i) :
    (n.connection i).port = port := by
  obtain ⟨before, c, after, -, -, hc, hport, -⟩ := exists_middle h
  rw [hc, hport]

theorem modify_middle {n : Network} {before after : List Connection} {c : Connection}
    (h : n.connections = before ++ c :: after) (f : Connection → Connection) :
    (n.modify before.length f).connections = before ++ f c :: after := by
  rw [modify, h]
  rw [List.modify_eq_take_cons_drop (by simp)]
  simp

/-- What is done to a connection leaves the connections to other backends as they are. -/
theorem connectionsTo_modify_of_ne {n : Network} {port other : Port} {k i : Nat}
    (h : n.place? port k = some i) {f : Connection → Connection}
    (hf : (f (n.connection i)).port = port) (hne : other ≠ port) :
    (n.modify i f).connectionsTo other = n.connectionsTo other := by
  obtain ⟨before, c, after, hsplit, rfl, hc, hport, -⟩ := exists_middle h
  rw [hc] at hf
  rw [connectionsTo, modify_middle hsplit, connectionsTo, hsplit]
  simp [hf, hport, Ne.symm hne]

theorem ext_connection {m n : Network} (hlength : n.connections.length = m.connections.length)
    (h : ∀ i, n.connection i = m.connection i) : n.connections = m.connections := by
  apply List.ext_getElem hlength
  intro i hi hi'
  simpa [connection, List.getD_eq_getElem?_getD, hi, hi'] using h i

/-- The places depend on nothing but the backends of the connections. -/
theorem place?_congr {m n : Network} (hlength : n.connections.length = m.connections.length)
    (hport : ∀ i, (n.connection i).port = (m.connection i).port) (port : Port) (k : Nat) :
    n.place? port k = m.place? port k := by
  have hports : n.connections.map Connection.port = m.connections.map Connection.port := by
    apply List.ext_getElem
    · rw [List.length_map, List.length_map, hlength]
    · intro i hi hi'
      rw [List.length_map] at hi hi'
      simpa [connection, List.getD_eq_getElem?_getD, hi, hi'] using hport i
  rw [place?, place?, findIdxs_congr_map hports]

/-- Every connection that has a place in the first network has the same place in the second one. -/
def KeepsPlaces (m n : Network) : Prop :=
  ∀ port k i, m.place? port k = some i → n.place? port k = some i

theorem KeepsPlaces.refl (m : Network) : m.KeepsPlaces m := fun _ _ _ hi => hi

theorem KeepsPlaces.trans {l m n : Network} (h : l.KeepsPlaces m) (h' : m.KeepsPlaces n) :
    l.KeepsPlaces n :=
  fun _ _ _ hi => h' _ _ _ (h _ _ _ hi)

theorem keepsPlaces_modify {f : Connection → Connection} (hf : ∀ c, (f c).port = c.port)
    (n : Network) (i : Nat) : n.KeepsPlaces (n.modify i f) := by
  intro port k place hplace
  rw [place?_congr (length_modify n i f) (connection_modify_congr _ hf n i), hplace]

/-- Whoever talks on a connection leaves all connections in their places. -/
theorem Handles.keepsPlaces {place : Nat} {m n : Network} (h : m.Handles place n) :
    m.KeepsPlaces n := by
  intro port k i hi
  rw [place?_congr h.length_eq fun j => ?_, hi]
  by_cases hj : j = place
  · rw [hj, h.port_eq]
  · rw [h.others j hj]

/-- A new connection takes no other from its place. -/
theorem keepsPlaces_connect (n : Network) (port : Port) : n.KeepsPlaces (n.connect port).2 := by
  intro other k i h
  obtain ⟨hk, -⟩ := List.getElem?_eq_some_iff.1 h
  rw [place?, connect, List.findIdxs_append, List.getElem?_append_left hk]
  exact h

/-- A new connection has the next number. -/
theorem place?_connect_self (n : Network) (port : Port) :
    (n.connect port).2.place? port (n.connectionsTo port).length = some n.connections.length := by
  rw [place?, connect, connectionsTo, ← List.countP_eq_length_filter]
  exact getElem?_findIdxs_middle n.connections [] (decide_eq_true rfl)

theorem connectionsTo_connect (n : Network) (port other : Port) :
    (n.connect port).2.connectionsTo other = n.connectionsTo other ++
      if port = other then [(n.connect port).2.connection n.connections.length] else [] := by
  rw [connection_connect_self, connectionsTo, connect, List.filter_append, connectionsTo]
  congr 1
  rw [List.filter_cons, List.filter_nil]
  exact ite_congr (propext decide_eq_true_iff) (fun _ => rfl) fun _ => rfl

theorem accepted_eq (n : Network) (port : Port) :
    n.accepted port = (n.connectionsTo port).countP Connection.isEstablished := by
  rw [accepted, connectionsTo, List.countP_filter]
  congr 1
  funext c
  exact Bool.and_comm _ _

theorem openNumbers_eq_connectionsTo (n : Network) (port : Port) :
    n.openNumbers port = (n.connectionsTo port).filterMap fun c =>
      match c.link with
      | .established number => if c.held then some number else none
      | _ => none := by
  rw [openNumbers, connectionsTo, List.filterMap_filter]
  congr 1
  funext c
  obtain ⟨target, link, -, -, -, -, held⟩ := c
  cases link with
  | established number => by_cases hport : target = port <;> simp [hport]
  | _ => simp

/-! ## Two networks -/

/-- The networks are the same as far as backends other than this one are concerned. -/
structure AgreesOutside (port : Port) (m n : Network) : Prop where
  reachable_eq : n.reachable = m.reachable
  backends_eq : n.backends = m.backends
  elsewhere_eq : n.elsewhere = m.elsewhere
  connectionsTo_eq : ∀ other ≠ port, n.connectionsTo other = m.connectionsTo other

/-- The place in one network and the place in the other are those of connections to a backend that
have the same number. -/
def SamePlace (port : Port) (m n : Network) (i j : Nat) : Prop :=
  ∃ k, m.place? port k = some i ∧ n.place? port k = some j

theorem SamePlace.of_keepsPlaces {port : Port} {m m' n n' : Network} {i j : Nat}
    (h : SamePlace port m n i j) (hm : m.KeepsPlaces m') (hn : n.KeepsPlaces n') :
    SamePlace port m' n' i j := by
  obtain ⟨k, hi, hj⟩ := h
  exact ⟨k, hm _ _ _ hi, hn _ _ _ hj⟩

namespace AgreesOutside

variable {port other : Port} {l m n : Network} {i j : Nat}

theorem refl (m : Network) : AgreesOutside port m m := ⟨rfl, rfl, rfl, fun _ _ => rfl⟩

theorem symm (h : AgreesOutside port m n) : AgreesOutside port n m where
  reachable_eq := h.reachable_eq.symm
  backends_eq := h.backends_eq.symm
  elsewhere_eq := h.elsewhere_eq.symm
  connectionsTo_eq other hne := (h.connectionsTo_eq other hne).symm

theorem trans (h : AgreesOutside port l m) (h' : AgreesOutside port m n) :
    AgreesOutside port l n where
  reachable_eq := h'.reachable_eq.trans h.reachable_eq
  backends_eq := h'.backends_eq.trans h.backends_eq
  elsewhere_eq := h'.elsewhere_eq.trans h.elsewhere_eq
  connectionsTo_eq other hne := (h'.connectionsTo_eq other hne).trans (h.connectionsTo_eq other hne)

/-- What happens on a connection to the backend is not seen outside. -/
theorem of_modify {k : Nat} (h : m.place? port k = some i) {f : Connection → Connection}
    (hf : (f (m.connection i)).port = port) : AgreesOutside port m (m.modify i f) :=
  ⟨rfl, rfl, rfl, fun _ hne => connectionsTo_modify_of_ne h hf hne⟩

theorem of_handles {k : Nat} (h : m.place? port k = some i) (hhandles : m.Handles i n) :
    AgreesOutside port m n := by
  have hport : (n.connection i).port = port := hhandles.port_eq.trans (port_of_place? h)
  have heq : n.connections = (m.modify i fun _ => n.connection i).connections := by
    apply ext_connection
    · rw [length_modify, hhandles.length_eq]
    · intro j
      rw [connection_modify]
      split
      · rename_i hij
        rw [hij.1]
      · by_cases hij : j = i
        · have hlen : m.connections.length ≤ j := by omega
          rw [connection_of_length_le hlen, connection_of_length_le (hhandles.length_eq ▸ hlen)]
        · exact hhandles.others j hij
  refine ⟨hhandles.reachable_eq, hhandles.backends_eq, hhandles.elsewhere_eq, fun other hne => ?_⟩
  rw [connectionsTo, heq]
  exact connectionsTo_modify_of_ne h (f := fun _ => n.connection i) hport hne

/-- A connection that is asked for at the backend is not seen outside. -/
theorem of_connect (m : Network) : AgreesOutside port m (m.connect port).2 := by
  refine ⟨rfl, rfl, rfl, fun other hne => ?_⟩
  rw [connectionsTo_connect, if_neg (Ne.symm hne), List.append_nil]

/-- Connections of the same number are in the same state, and so are those before them and those
behind them. -/
theorem middle (h : AgreesOutside port m n) (hne : other ≠ port)
    (hplace : SamePlace other m n i j) :
    ∃ before c after before' after',
      m.connections = before ++ c :: after ∧ before.length = i ∧
      n.connections = before' ++ c :: after' ∧ before'.length = j ∧ c.port = other ∧
      before'.filter (·.port = other) = before.filter (·.port = other) ∧
      after'.filter (·.port = other) = after.filter (·.port = other) := by
  obtain ⟨k, hi, hj⟩ := hplace
  obtain ⟨before, c, after, hm, hlength, -, hc, hk⟩ := exists_middle hi
  obtain ⟨before', c', after', hn, hlength', -, hc', hk'⟩ := exists_middle hj
  have hfilter {x : Connection} (hx : x.port = other) (a b : List Connection) :
      (a ++ x :: b).filter (·.port = other) =
        a.filter (·.port = other) ++ x :: b.filter (·.port = other) := by
    simp [hx]
  have heq := h.connectionsTo_eq other hne
  rw [connectionsTo, hn, connectionsTo, hm, hfilter hc, hfilter hc'] at heq
  obtain ⟨hbefore, hrest⟩ := List.append_inj heq (hk'.trans hk.symm)
  obtain ⟨rfl, hafter⟩ := List.cons.inj hrest
  exact ⟨before, c', after, before', after', hm, hlength, hn, hlength', hc, hbefore, hafter⟩

theorem connection_eq (h : AgreesOutside port m n) (hne : other ≠ port)
    (hplace : SamePlace other m n i j) : n.connection j = m.connection i := by
  obtain ⟨before, c, after, before', after', hm, rfl, hn, rfl, -⟩ := h.middle hne hplace
  rw [connection_middle hm, connection_middle hn]

/-- The same is done to connections of the same number. -/
theorem modify (h : AgreesOutside port m n) (hne : other ≠ port) (hplace : SamePlace other m n i j)
    {f g : Connection → Connection} (hf : ∀ c, (f c).port = c.port)
    (hfg : ∀ c, c.port = other → g c = f c) : AgreesOutside port (m.modify i f) (n.modify j g) := by
  obtain ⟨before, c, after, before', after', hm, hi, hn, hj, hc, hbefore, hafter⟩ :=
    h.middle hne hplace
  refine ⟨h.reachable_eq, h.backends_eq, h.elsewhere_eq, fun p hp => ?_⟩
  by_cases hpo : p = other
  · subst hpo
    rw [← hi, ← hj, connectionsTo, connectionsTo, modify_middle hm, modify_middle hn, hfg c hc,
      List.filter_append, List.filter_append, List.filter_cons, List.filter_cons, hbefore, hafter]
  · obtain ⟨k, hk, hk'⟩ := hplace
    have hfc : (f (m.connection i)).port = other := (hf _).trans (port_of_place? hk)
    have hgc : (g (n.connection j)).port = other := by
      rw [hfg _ (port_of_place? hk'), hf, port_of_place? hk']
    rw [connectionsTo_modify_of_ne hk hfc hpo, connectionsTo_modify_of_ne hk' hgc hpo,
      h.connectionsTo_eq p hp]

theorem answer_eq (h : AgreesOutside port m n) (hne : other ≠ port) :
    n.answer other = m.answer other := by
  rw [answer, answer, h.reachable_eq, behaviour_congr h.backends_eq h.elsewhere_eq, accepted_eq,
    accepted_eq, h.connectionsTo_eq other hne]

theorem room_eq (h : AgreesOutside port m n) (other : Port) : n.room other = m.room other := by
  rw [room, room, behaviour_congr h.backends_eq h.elsewhere_eq]

/-- A connection is asked for at the same backend. -/
theorem connect (h : AgreesOutside port m n) (hne : other ≠ port) :
    AgreesOutside port (m.connect other).2 (n.connect other).2 := by
  refine ⟨h.reachable_eq, h.backends_eq, h.elsewhere_eq, fun p hp => ?_⟩
  rw [connectionsTo_connect, connectionsTo_connect, connection_connect_self,
    connection_connect_self, h.connectionsTo_eq p hp, h.answer_eq hne, h.room_eq]

theorem samePlace_connect (h : AgreesOutside port m n) (hne : other ≠ port) :
    SamePlace other (m.connect other).2 (n.connect other).2 m.connections.length
      n.connections.length := by
  refine ⟨_, m.place?_connect_self other, ?_⟩
  rw [← h.connectionsTo_eq other hne]
  exact n.place?_connect_self other

end AgreesOutside

end Network

end TopicRelay
