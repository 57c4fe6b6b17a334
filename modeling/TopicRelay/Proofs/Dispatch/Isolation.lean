import TopicRelay.Proofs.Dispatch.Resources
import TopicRelay.Proofs.Exchange.Isolation
import Mathlib.Data.List.Forall2

/-!
# Isolation

What happens at one backend makes no difference to the exchanges with others as long as there is a
slot for everybody. A run is a list of `Move`s, which name connections and exchanges by their
backends, so that it can be compared with the same run without those that concern one backend.

`Mirrors` relates a dispatcher to one that knows nothing of a backend. A visit to an exchange with
the backend leaves the second one as it is (`Mirrors.visit_unseen`), and any other visit is made in
both (`Mirrors.visit`).
-/

namespace TopicRelay

open Surroundings (Alike)

/-! ## Lists side by side -/

theorem forall₂_middle {α β : Type} {R : α → β → Prop} {before after : List α}
    {before' after' : List β} {x : α} {y : β} (hlength : before.length = before'.length)
    (h : List.Forall₂ R (before ++ x :: after) (before' ++ y :: after')) :
    List.Forall₂ R before before' ∧ R x y ∧ List.Forall₂ R after after' := by
  induction before generalizing before' with
  | nil =>
    obtain rfl : before' = [] := List.length_eq_zero_iff.1 hlength.symm
    obtain ⟨hxy, hafter⟩ := List.forall₂_cons.1 h
    exact ⟨.nil, hxy, hafter⟩
  | cons z before ih =>
    rcases before' with _ | ⟨w, before'⟩
    · cases hlength
    · obtain ⟨hzw, hrest⟩ := List.forall₂_cons.1 h
      obtain ⟨hbefore, hxy, hafter⟩ := ih (Nat.succ.inj hlength) hrest
      exact ⟨.cons hzw hbefore, hxy, hafter⟩

/-- Members with a property `q` have the same numbers among those that are kept, if all of them are
kept. -/
theorem getElem?_findIdxs_filter {α : Type} {p q : α → Bool} (h : ∀ x, q x = true → p x = true)
    (l : List α) (k : Nat) :
    ((l.filter p).findIdxs q)[k]? =
      ((l.findIdxs q)[k]?).map fun i => ((l.take i).filter p).length := by
  have hcount (l : List α) : (l.filter p).countP q = l.countP q := by
    rw [List.countP_filter]
    congr 1
    funext x
    rcases hq : q x
    · rfl
    · simp [h x hq]
  rcases hplace : (l.findIdxs q)[k]? with _ | i
  · rw [List.getElem?_eq_none_iff, List.length_findIdxs] at hplace
    rw [Option.map_none, List.getElem?_eq_none_iff, List.length_findIdxs, hcount]
    exact hplace
  · obtain ⟨before, x, after, rfl, rfl, hx, rfl⟩ := exists_middle_of_findIdxs hplace
    rw [Option.map_some, List.take_left', List.filter_append,
      List.filter_cons_of_pos (h x hx), ← hcount before]
    · exact getElem?_findIdxs_middle _ _ hx
    · rfl

namespace Dispatcher

/-- The network of a dispatcher. -/
abbrev network {β : Type} (d : Dispatcher β) : Network := d.surroundings.network

section
variable {β : Type} [MessageBus β] {before after : List Exchange} {d : Dispatcher β} {e : Exchange}

/-- A visit takes no connection from its place. -/
theorem keepsPlaces_visit (d : Dispatcher β) (e : Exchange) :
    d.network.KeepsPlaces (d.visit e).2.network := by
  rcases d.visit_turns e with ⟨-, -, hvisit⟩ | ⟨started, place, slots, s, hslot, hturn⟩
  · rw [hvisit]
    exact .refl _
  · have hs : d.network.KeepsPlaces s.network := by
      rcases hslot with ⟨-, -, -, -, rfl⟩ | ⟨-, -, rfl⟩
      · exact d.network.keepsPlaces_connect e.port
      · exact .refl _
    rcases hturn with ⟨stage, t, -, -, htalks, hvisit⟩ | ⟨report, t, -, hleaves, hvisit⟩
    · rw [hvisit]
      exact hs.trans htalks.network.keepsPlaces
    · rw [hvisit]
      exact hs.trans hleaves.network.keepsPlaces

/-- A visit changes neither the backend of an exchange nor its message. -/
theorem same_of_visit {d : Dispatcher β} {e : Exchange} :
    ∀ f ∈ (d.visit e).1, f.port = e.port ∧ f.message = e.message := by
  intro f hf
  rcases d.visit_cases e with ⟨-, -, hvisit⟩ | ⟨slots, -, ⟨stage, t, -, hvisit⟩ |
    ⟨report, t, -, hvisit⟩⟩
  · rw [hvisit, Option.mem_some_iff] at hf
    rw [← hf]
    exact ⟨rfl, rfl⟩
  · rw [hvisit, Option.mem_some_iff] at hf
    rw [← hf]
    exact ⟨rfl, rfl⟩
  · rw [hvisit] at hf
    cases hf

/-- After a visit the exchange is on a connection to its own backend. -/
theorem isPlaced_visit (h : e.IsPlaced d.network) :
    ∀ f ∈ (d.visit e).1, f.IsPlaced (d.visit e).2.network := by
  intro f hf
  rcases d.visit_turns e with ⟨-, -, hvisit⟩ | ⟨started, place, slots, s, hslot, hturn⟩
  · rw [hvisit, Option.mem_some_iff] at hf
    rw [hvisit, ← hf]
    exact h
  · have hs : ∃ k, s.network.place? e.port k = some place := by
      rcases hslot with ⟨-, -, -, rfl, rfl⟩ | ⟨hruns, -, rfl⟩
      · exact ⟨_, d.network.place?_connect_self e.port⟩
      · exact h started place hruns
    rcases hturn with ⟨stage, t, -, hstage, htalks, hvisit⟩ | ⟨report, t, -, -, hvisit⟩
    · rw [hvisit, Option.mem_some_iff] at hf
      rw [hvisit, ← hf]
      intro started' place' hruns
      obtain ⟨k, hk⟩ := hs
      have heq := hstage.symm.trans hruns
      simp only [Option.some.injEq, Prod.mk.injEq] at heq
      rw [← heq.2]
      exact ⟨k, htalks.network.keepsPlaces _ _ _ hk⟩
    · rw [hvisit] at hf
      cases hf

/-- No exchange comes from a visit. -/
theorem length_visit_le :
    (before ++ (d.visit e).1.toList ++ after).length ≤ (before ++ e :: after).length := by
  have hle : (d.visit e).1.toList.length ≤ 1 := Option.length_toList_le
  simp only [List.length_append, List.length_cons]
  omega

/-- The slots that are free and those that are held stay as many as there are. -/
theorem slots_visit
    (h : d.freeSlots + ((before ++ e :: after).filter Exchange.isRunning).length =
      d.maxConcurrent) :
    (d.visit e).2.freeSlots +
        ((before ++ (d.visit e).1.toList ++ after).filter Exchange.isRunning).length =
      (d.visit e).2.maxConcurrent := by
  rcases d.visit_turns e with ⟨-, -, hvisit⟩ | ⟨started, place, slots, s, hslot, hturn⟩
  · rw [hvisit, Option.toList_some, List.append_assoc]
    exact h
  · have hrunning : e.isRunning = true ∧ d.freeSlots = slots ∨
        e.isRunning = false ∧ d.freeSlots = slots + 1 := by
      rcases hslot with ⟨hqueued, hfree, -⟩ | ⟨hruns, hfree, -⟩
      · exact Or.inr ⟨by simp [Exchange.isRunning, Exchange.isQueued_iff.2 hqueued], hfree⟩
      · exact Or.inl ⟨Exchange.isRunning_of_runsOn? hruns, hfree⟩
    rcases hturn with ⟨stage, t, -, hstage, -, hvisit⟩ | ⟨report, t, -, -, hvisit⟩
    · have hkept : { e with stage : Exchange }.isRunning = true :=
        Exchange.isRunning_of_runsOn? hstage
      rw [hvisit]
      rcases hrunning with ⟨he, hfree⟩ | ⟨he, hfree⟩ <;>
        simp only [List.filter_append, List.filter_cons, Option.toList_some, he, hkept,
          List.length_append, List.length_cons, List.filter_nil, List.length_nil, if_true,
          Bool.false_eq_true, if_false] at h ⊢ <;>
        omega
    · rw [hvisit]
      rcases hrunning with ⟨he, hfree⟩ | ⟨he, hfree⟩ <;>
        simp only [List.filter_append, List.filter_cons, Option.toList_none, he,
          List.length_append, List.length_cons, List.filter_nil, List.length_nil, if_true,
          Bool.false_eq_true, if_false] at h ⊢ <;>
        omega

end

/-- An exchange that waits holds no slot. -/
theorem filter_isRunning_concat {es : List Exchange} {e : Exchange} (h : e.stage = .queued) :
    (es ++ [e]).filter Exchange.isRunning = es.filter Exchange.isRunning := by
  have hwaits : [e].filter Exchange.isRunning = [] := by simp [Exchange.isRunning_iff, h]
  rw [List.filter_append, hwaits, List.append_nil]

/-- An exchange that waits for a slot finds one if there are as many slots as exchanges. -/
theorem exists_slot {β : Type} {d : Dispatcher β} {es : List Exchange} {e : Exchange}
    (h : d.freeSlots + (es.filter Exchange.isRunning).length = d.maxConcurrent)
    (hroom : es.length ≤ d.maxConcurrent) (he : e ∈ es) (hqueued : e.stage = .queued) :
    d.freeSlots ≠ 0 := by
  have hlt : (es.filter Exchange.isRunning).length < es.length := by
    rw [List.length_filter_lt_length_iff_exists]
    exact ⟨e, he, by rw [Exchange.isRunning_iff]; exact fun hno => hno hqueued⟩
  omega

/-! ## Visits -/

/-- The exchanges with other backends. -/
def others (port : Port) (es : List Exchange) : List Exchange := es.filter (·.port ≠ port)

section
variable {port : Port} {es fs : List Exchange}

theorem others_append : others port (es ++ fs) = others port es ++ others port fs :=
  List.filter_append es fs

theorem others_of_eq (h : ∀ e ∈ es, e.port = port) : others port es = [] :=
  List.filter_eq_nil_iff.2 fun e he => by simp [h e he]

theorem others_cons_of_eq {e : Exchange} (h : e.port = port) :
    others port (e :: es) = others port es :=
  List.filter_cons_of_neg (by simp [h])

theorem others_cons_of_ne {e : Exchange} (h : e.port ≠ port) :
    others port (e :: es) = e :: others port es :=
  List.filter_cons_of_pos (by simp [h])

theorem others_visit {d : Dispatcher LocalBus} {e : Exchange} (h : e.port = port) :
    others port (d.visit e).1.toList = [] :=
  others_of_eq fun f hf => (same_of_visit f (Option.mem_toList.1 hf)).1.trans h

end

/-- The exchanges `es` of the first dispatcher are those `fs` of the second one and others that are
unseen, with one backend and for messages with one reply topic. In everything else the dispatchers
are alike, and there are enough slots. -/
structure Mirrors (port : Port) (topic : String) (es fs : List Exchange)
    (d d' : Dispatcher LocalBus) : Prop where
  settings_eq : d'.settings = d.settings
  routes_eq : d'.routes = d.routes
  max_eq : d'.maxConcurrent = d.maxConcurrent
  now_eq : d'.now = d.now
  alike : Alike port topic d.surroundings d'.surroundings
  matched : List.Forall₂ (Exchange.Matches d.network d'.network) (others port es) fs
  unseen : ∀ e ∈ es, e.port = port → e.message.replyTopic = topic ∧ e.IsPlaced d.network
  slots_eq : d.freeSlots + (es.filter Exchange.isRunning).length = d.maxConcurrent
  slots_eq' : d'.freeSlots + (fs.filter Exchange.isRunning).length = d'.maxConcurrent
  room : es.length ≤ d.maxConcurrent

/-- A visit is not seen by those who look neither at the backend nor at the reply topic. -/
theorem alike_visit (d : Dispatcher LocalBus) {e : Exchange} (h : e.OnCourse d.surroundings)
    (hplaced : e.IsPlaced d.network) :
    Alike e.port e.message.replyTopic d.surroundings (d.visit e).2.surroundings := by
  have hadvance := Exchange.advance_unseen d.settings d.now h hplaced
  rcases d.visit_cases e with ⟨-, -, heq⟩ | ⟨slots, -, ⟨stage, s, hturn, heq⟩ |
    ⟨report, s, hturn, heq⟩⟩
  · rw [heq]
    exact .refl _
  · rw [hturn] at hadvance
    rw [heq]
    exact hadvance
  · rw [hturn] at hadvance
    rw [heq]
    exact ⟨hadvance.network, hadvance.isOpen_eq, hadvance.published_eq⟩

/-- Exchanges with a slot that are the same are visited in the same way. -/
theorem visit_alike {port : Port} {topic : String} {d d' : Dispatcher LocalBus} {e f : Exchange}
    (hsettings : d'.settings = d.settings) (hnow : d'.now = d.now)
    (h : Alike port topic d.surroundings d'.surroundings) (hne : e.port ≠ port)
    (hsame : e.Matches d.network d'.network f)
    (hslot : e.stage = .queued → d.freeSlots ≠ 0) (hslot' : f.stage = .queued → d'.freeSlots ≠ 0) :
    Alike port topic (d.visit e).2.surroundings (d'.visit f).2.surroundings ∧
      ((d.visit e).1 = none ∧ (d'.visit f).1 = none ∨
        ∃ e' f', (d.visit e).1 = some e' ∧ (d'.visit f).1 = some f' ∧
          e'.Matches (d.visit e).2.network (d'.visit f).2.network f') := by
  obtain ⟨halike, hturn⟩ := Exchange.advance_alike d.settings d.now h hne hsame
  rcases d.visit_cases e with ⟨hqueued, hfree, -⟩ | ⟨slots, -, hvisit⟩
  · exact absurd hfree (hslot hqueued)
  rcases d'.visit_cases f with ⟨hqueued, hfree, -⟩ | ⟨slots', -, hvisit'⟩
  · exact absurd hfree (hslot' hqueued)
  rw [hsettings, hnow] at hvisit'
  rcases hvisit with ⟨stage, s, hadvance, heq⟩ | ⟨report, s, hadvance, heq⟩ <;>
    rcases hvisit' with ⟨stage', s', hadvance', heq'⟩ | ⟨report', s', hadvance', heq'⟩ <;>
    rw [hadvance, hadvance'] at hturn halike
  · obtain ⟨hstage⟩ := hturn
    rw [heq, heq']
    exact ⟨halike, Or.inr ⟨_, _, rfl, rfl, hsame.port_eq, hsame.message_eq, hstage⟩⟩
  · cases hturn
  · cases hturn
  · rw [heq, heq']
    exact ⟨⟨halike.network, halike.isOpen_eq, halike.published_eq⟩, Or.inl ⟨rfl, rfl⟩⟩

namespace Mirrors

variable {port : Port} {topic : String} {begun : List Message} {delivered : List Publication}
  {before after es before' after' fs : List Exchange} {e f : Exchange}
  {d d' : Dispatcher LocalBus}

/-- A visit to an exchange with the backend is not seen. -/
theorem visit_unseen (hkeeps : Keeps begun delivered (before ++ e :: after) d)
    (h : Mirrors port topic (before ++ e :: after) fs d d') (he : e.port = port) :
    Mirrors port topic (before ++ (d.visit e).1.toList ++ after) fs (d.visit e).2 d' := by
  have hmiddle : e ∈ before ++ e :: after := Keeps.mem_middle.2 (Or.inl rfl)
  obtain ⟨htopic, hplaced⟩ := h.unseen e hmiddle he
  have hplaces := d.keepsPlaces_visit e
  have halike := d.alike_visit (hkeeps.onCourse e hmiddle) hplaced
  rw [he, htopic] at halike
  have hothers : others port (before ++ (d.visit e).1.toList ++ after) =
      others port (before ++ e :: after) := by
    rw [others_append, others_append, others_visit he, List.append_nil, others_append,
      others_cons_of_eq he]
  refine ⟨by rw [settings_visit, h.settings_eq], by rw [routes_visit, h.routes_eq],
    by rw [maxConcurrent_visit, h.max_eq], by rw [now_visit, h.now_eq],
    halike.symm.trans h.alike, ?_, fun x hx hport => ?_, slots_visit h.slots_eq, h.slots_eq', ?_⟩
  · rw [hothers]
    exact h.matched.imp fun x y hxy => hxy.of_keepsPlaces hplaces (.refl _)
  · rcases mem_visited.1 hx with hx | hx
    · exact ⟨by rw [(same_of_visit x hx).2, htopic], isPlaced_visit hplaced x hx⟩
    · obtain ⟨hx, hplaced⟩ := h.unseen x (Keeps.mem_middle.2 (Or.inr hx)) hport
      exact ⟨hx, hplaced.of_keepsPlaces hplaces⟩
  · rw [maxConcurrent_visit]
    exact length_visit_le.trans h.room

/-- A visit to any other exchange is made in both dispatchers. -/
theorem visit (h : Mirrors port topic (before ++ e :: after) (before' ++ f :: after') d d')
    (he : e.port ≠ port) (hlength : (others port before).length = before'.length) :
    Mirrors port topic (before ++ (d.visit e).1.toList ++ after)
        (before' ++ (d'.visit f).1.toList ++ after') (d.visit e).2 (d'.visit f).2 ∧
      (others port (before ++ (d.visit e).1.toList)).length =
        (before' ++ (d'.visit f).1.toList).length := by
  have hmatched := h.matched
  rw [others_append, others_cons_of_ne he] at hmatched
  obtain ⟨hbefore, hsame, hafter⟩ := forall₂_middle hlength hmatched
  have hroom' : (before' ++ f :: after').length ≤ d'.maxConcurrent := by
    rw [← h.matched.length_eq, h.max_eq]
    exact (List.length_filter_le _ _).trans h.room
  obtain ⟨halike, hkept⟩ := visit_alike h.settings_eq h.now_eq h.alike he hsame
    (exists_slot h.slots_eq h.room (Keeps.mem_middle.2 (Or.inl rfl)))
    (exists_slot h.slots_eq' hroom' (Keeps.mem_middle.2 (Or.inl rfl)))
  have hplaces := d.keepsPlaces_visit e
  have hplaces' := d'.keepsPlaces_visit f
  -- What is kept of the two exchanges stands in the same place.
  have hmiddle : List.Forall₂ (Exchange.Matches (d.visit e).2.network (d'.visit f).2.network)
      (others port (d.visit e).1.toList) (d'.visit f).1.toList := by
    rcases hkept with ⟨hnone, hnone'⟩ | ⟨e', f', hsome, hsome', hmatch⟩
    · rw [hnone, hnone']
      exact .nil
    · have hne : e'.port ≠ port := by
        rw [(same_of_visit e' hsome).1]
        exact he
      rw [hsome, hsome', Option.toList_some, Option.toList_some, others_cons_of_ne hne]
      exact .cons hmatch .nil
  have hmono {xs ys : List Exchange}
      (h : List.Forall₂ (Exchange.Matches d.network d'.network) xs ys) :
      List.Forall₂ (Exchange.Matches (d.visit e).2.network (d'.visit f).2.network) xs ys :=
    h.imp fun x y hxy => hxy.of_keepsPlaces hplaces hplaces'
  refine ⟨⟨by rw [settings_visit, settings_visit, h.settings_eq],
    by rw [routes_visit, routes_visit, h.routes_eq],
    by rw [maxConcurrent_visit, maxConcurrent_visit, h.max_eq],
    by rw [now_visit, now_visit, h.now_eq], halike, ?_, fun x hx hport => ?_,
    slots_visit h.slots_eq, slots_visit h.slots_eq', ?_⟩, ?_⟩
  · rw [others_append, others_append]
    exact List.rel_append (List.rel_append (hmono hbefore) hmiddle) (hmono hafter)
  · rcases mem_visited.1 hx with hx | hx
    · exact absurd ((same_of_visit x hx).1.symm.trans hport) he
    · obtain ⟨hx, hplaced⟩ := h.unseen x (Keeps.mem_middle.2 (Or.inr hx)) hport
      exact ⟨hx, hplaced.of_keepsPlaces hplaces⟩
  · rw [maxConcurrent_visit]
    exact length_visit_le.trans h.room
  · rw [others_append, List.length_append, List.length_append, hlength, hmiddle.length_eq]

/-- Visiting all exchanges, each dispatcher its own. -/
theorem visitAll (hkeeps : Keeps begun delivered (before ++ es) d)
    (h : Mirrors port topic (before ++ es) (before' ++ fs) d d')
    (hlength : (others port before).length = before'.length) :
    Mirrors port topic (before ++ (Dispatcher.visitAll es d).1)
      (before' ++ (Dispatcher.visitAll fs d').1) (Dispatcher.visitAll es d).2
      (Dispatcher.visitAll fs d').2 := by
  -- What was visited joins those before, in both dispatchers or in the first one only.
  induction es generalizing before before' fs d d' with
  | nil =>
    have hall := h.matched.length_eq
    rw [List.append_nil, hlength, List.length_append] at hall
    obtain rfl : fs = [] := List.length_eq_zero_iff.1 (by omega)
    exact h
  | cons e rest ih =>
    have hvisited := hkeeps.visit
    by_cases he : e.port = port
    · have hunseen := h.visit_unseen hkeeps he
      rw [Dispatcher.visitAll]
      simp only
      rw [← List.append_assoc]
      refine ih hvisited hunseen ?_
      rw [others_append, others_visit he, List.append_nil, hlength]
    · have hall := h.matched.length_eq
      rw [others_append, others_cons_of_ne he] at hall
      rcases fs with _ | ⟨f, fs⟩
      · simp only [List.length_append, List.length_cons, List.length_nil] at hall
        omega
      · obtain ⟨hvisit, hlength'⟩ := h.visit he hlength
        rw [Dispatcher.visitAll, Dispatcher.visitAll]
        simp only
        rw [← List.append_assoc, ← List.append_assoc]
        exact ih hvisited hvisit hlength'

/-- What is neither an exchange nor a slot may change in both, if they stay alike. -/
theorem of_alike {d₁ d₁' : Dispatcher LocalBus} (h : Mirrors port topic es fs d d')
    (hrules : (d₁.settings, d₁.routes, d₁.maxConcurrent, d₁.freeSlots) =
      (d.settings, d.routes, d.maxConcurrent, d.freeSlots))
    (hrules' : (d₁'.settings, d₁'.routes, d₁'.maxConcurrent, d₁'.freeSlots) =
      (d'.settings, d'.routes, d'.maxConcurrent, d'.freeSlots))
    (hnow : d₁'.now = d₁.now) (halike : Alike port topic d₁.surroundings d₁'.surroundings)
    (hplaces : d.network.KeepsPlaces d₁.network) (hplaces' : d'.network.KeepsPlaces d₁'.network) :
    Mirrors port topic es fs d₁ d₁' := by
  simp only [Prod.mk.injEq] at hrules hrules'
  obtain ⟨hsettings, hroutes, hmax, hfree⟩ := hrules
  obtain ⟨hsettings', hroutes', hmax', hfree'⟩ := hrules'
  refine ⟨by rw [hsettings, hsettings', h.settings_eq], by rw [hroutes, hroutes', h.routes_eq],
    by rw [hmax, hmax', h.max_eq], hnow, halike, ?_, fun x hx hport => ?_,
    by rw [hfree, hmax, h.slots_eq], by rw [hfree', hmax', h.slots_eq'], by rw [hmax]; exact h.room⟩
  · exact h.matched.imp fun x y hxy => hxy.of_keepsPlaces hplaces hplaces'
  · obtain ⟨hx, hplaced⟩ := h.unseen x hx hport
    exact ⟨hx, hplaced.of_keepsPlaces hplaces⟩

/-- An exchange with the backend begins unseen. -/
theorem begin_unseen (h : Mirrors port topic es fs d d') (he : e.port = port)
    (htopic : e.message.replyTopic = topic) (hqueued : e.stage = .queued)
    (hroom : (es ++ [e]).length ≤ d.maxConcurrent) : Mirrors port topic (es ++ [e]) fs d d' := by
  have hnone : others port [e] = [] := others_of_eq fun x hx => by rw [List.mem_singleton.1 hx, he]
  refine { h with matched := ?_, unseen := fun x hx hport => ?_, slots_eq := ?_, room := hroom }
  · rw [others_append, hnone, List.append_nil]
    exact h.matched
  · rcases List.mem_append.1 hx with hx | hx
    · exact h.unseen x hx hport
    · rw [List.mem_singleton.1 hx]
      refine ⟨htopic, fun started place hruns => ?_⟩
      rw [hqueued] at hruns
      cases hruns
  · rw [filter_isRunning_concat hqueued]
    exact h.slots_eq

/-- An exchange with another backend begins in both dispatchers. -/
theorem begin (h : Mirrors port topic es fs d d') (he : e.port ≠ port)
    (hsame : e.Matches d.network d'.network f) (hqueued : e.stage = .queued)
    (hroom : (es ++ [e]).length ≤ d.maxConcurrent) :
    Mirrors port topic (es ++ [e]) (fs ++ [f]) d d' := by
  refine { h with
    matched := ?_, unseen := fun x hx hport => ?_, slots_eq := ?_, slots_eq' := ?_, room := hroom }
  · rw [others_append, others_cons_of_ne he]
    exact List.rel_append h.matched (.cons hsame .nil)
  · rcases List.mem_append.1 hx with hx | hx
    · exact h.unseen x hx hport
    · rw [List.mem_singleton.1 hx] at hport
      exact absurd hport he
  · rw [filter_isRunning_concat hqueued]
    exact h.slots_eq
  · rw [filter_isRunning_concat (hsame.queued_iff.2 hqueued)]
    exact h.slots_eq'

/-- All exchanges go as far as they come. -/
theorem settle (hkeeps : Keeps begun delivered d.inFlight d)
    (h : Mirrors port topic d.inFlight d'.inFlight d d') :
    Mirrors port topic d.settle.inFlight d'.settle.inFlight d.settle d'.settle := by
  have hall : Mirrors port topic ([] ++ (Dispatcher.visitAll d.inFlight d).1)
      ([] ++ (Dispatcher.visitAll d'.inFlight d').1) (Dispatcher.visitAll d.inFlight d).2
      (Dispatcher.visitAll d'.inFlight d').2 := visitAll hkeeps h rfl
  exact hall.of_alike rfl rfl hall.now_eq hall.alike (.refl _) (.refl _)

/-- An exchange with another backend has the same number in both dispatchers. -/
theorem findIdxs_eq (h : Mirrors port topic es fs d d') {other : Port} (hne : other ≠ port)
    (k : Nat) :
    (fs.findIdxs (·.port = other))[k]? =
      ((es.findIdxs (·.port = other))[k]?).map fun i => (others port (es.take i)).length := by
  have hports : fs.map Exchange.port = (others port es).map Exchange.port := by
    have hmatched := h.matched
    clear h
    generalize others port es = xs at hmatched
    induction hmatched with
    | nil => rfl
    | cons hsame _ ih => rw [List.map_cons, List.map_cons, hsame.port_eq, ih]
  rw [findIdxs_congr_map hports]
  apply getElem?_findIdxs_filter
  intro e he
  rw [decide_eq_true_eq] at he ⊢
  rw [he]
  exact hne

end Mirrors

/-! ## What backends do -/

/-- No connection changes its backend. -/
theorem Happening.port_change (h : Happening) {n : Network} {c : Connection} :
    (h.change n c).port = c.port := by
  cases h <;> simp only [change] <;> split <;> rfl

/-- What a backend does takes no connection from its place. -/
theorem Happening.keepsPlaces_apply (h : Happening) (i : Nat) (n : Network) :
    n.KeepsPlaces (h.apply i n) := by
  rw [Happening.apply_eq]
  exact n.keepsPlaces_modify (fun _ => h.port_change) i

/-- The dispatcher after a backend has done something with a connection. -/
def happened (d : Dispatcher LocalBus) (i : Nat) (h : Happening) : Dispatcher LocalBus :=
  { d with surroundings := { d.surroundings with network := h.apply i d.network } }

namespace Mirrors

variable {port other : Port} {topic : String} {es fs : List Exchange} {d d' : Dispatcher LocalBus}
  {i j k : Nat}

/-- What the backend does is not seen. -/
theorem happened_unseen (h : Mirrors port topic es fs d d') (hi : d.network.place? port k = some i)
    (happening : Happening) : Mirrors port topic es fs (d.happened i happening) d' := by
  have hchange : d.network.AgreesOutside port (happening.apply i d.network) := by
    rw [Happening.apply_eq]
    exact .of_modify hi (happening.port_change.trans (Network.port_of_place? hi))
  refine h.of_alike rfl rfl h.now_eq ?_ (happening.keepsPlaces_apply i d.network) (.refl _)
  exact ⟨hchange.symm.trans h.alike.network, h.alike.isOpen_eq, h.alike.published_eq⟩

/-- What another backend does happens in both dispatchers. -/
theorem happened (h : Mirrors port topic es fs d d') (hne : other ≠ port)
    (hi : d.network.place? other k = some i) (hj : d'.network.place? other k = some j)
    (happening : Happening) :
    Mirrors port topic es fs (d.happened i happening) (d'.happened j happening) := by
  have haccepted : d'.network.accepted other = d.network.accepted other := by
    rw [Network.accepted_eq, Network.accepted_eq]
    exact congrArg (List.countP Connection.isEstablished)
      (h.alike.network.connectionsTo_eq other hne)
  have hchange (c : Connection) (hc : c.port = other) :
      happening.change d'.network c = happening.change d.network c := by
    cases happening with
    | accept => rw [Happening.change, Happening.change, hc, haccepted]
    | _ => rfl
  have hnetwork : (happening.apply i d.network).AgreesOutside port
      (happening.apply j d'.network) := by
    rw [Happening.apply_eq, Happening.apply_eq]
    exact h.alike.network.modify hne ⟨k, hi, hj⟩ (fun _ => happening.port_change) hchange
  exact h.of_alike rfl rfl h.now_eq ⟨hnetwork, h.alike.isOpen_eq, h.alike.published_eq⟩
    (happening.keepsPlaces_apply i d.network) (happening.keepsPlaces_apply j d'.network)

end Mirrors

/-! ## Moves -/

/-- Lets the exchange at a place of those in flight go on, whoever waits for a slot before it. -/
def turn {β : Type} [MessageBus β] (d : Dispatcher β) (place : Nat) : Dispatcher β :=
  match d.inFlight[place]? with
  | none => d
  | some e =>
    let (kept, visited) := d.visit e
    { visited with
      inFlight := d.inFlight.take place ++ kept.toList ++ d.inFlight.drop (place + 1) }

/-- The place of the exchange in flight with a backend that has this number among them. -/
def place? {β : Type} (d : Dispatcher β) (port : Port) (k : Nat) : Option Nat :=
  (d.inFlight.findIdxs (·.port = port))[k]?

theorem turn_middle {β : Type} [MessageBus β] {d : Dispatcher β} {before after : List Exchange}
    {e : Exchange} (h : d.inFlight = before ++ e :: after) :
    d.turn before.length =
      { (d.visit e).2 with inFlight := before ++ (d.visit e).1.toList ++ after } := by
  have hget : d.inFlight[before.length]? = some e := by simp [h]
  have htake : d.inFlight.take before.length = before := by simp [h]
  have hdrop : d.inFlight.drop (before.length + 1) = after := by simp [h]
  unfold turn
  rw [hget]
  simp only [htake, hdrop]

/-- One thing that happens, to an exchange or a connection that is named by its backend and by its
number among those with that backend. -/
inductive Move where
  /-- A message comes. -/
  | dispatch (m : Message)
  /-- A backend does something with one of its connections. -/
  | backend (port : Port) (connection : Nat) (h : Happening)
  /-- An exchange goes on. -/
  | turn (port : Port) (exchange : Nat)
  | clock
  | settle
  | receive
  | close
deriving DecidableEq, Repr

/-- Whether the move concerns a connection to the backend or an exchange with it. -/
def Move.isAddressedTo (port : Port) : Move → Bool
  | .backend p _ _ => p = port
  | .turn p _ => p = port
  | _ => false

/-- The moves without the one at a place and without those that are addressed to a backend. -/
def Move.without (port : Port) (j : Nat) (moves : List Move) : List Move :=
  (moves.eraseIdx j).filter fun a => !a.isAddressedTo port

theorem Move.without_concat_self {port : Port} {j : Nat} {moves : List Move}
    (h : moves.length = j) (a : Move) : without port j (moves ++ [a]) = without port j moves := by
  rw [without, without, List.eraseIdx_append_of_length_le (Nat.le_of_eq h),
    List.eraseIdx_of_length_le (Nat.le_of_eq h), h, Nat.sub_self, List.eraseIdx_zero,
    List.tail_cons, List.append_nil]

theorem Move.without_concat_of_ne {port : Port} {j : Nat} {moves : List Move}
    (h : moves.length ≠ j) (a : Move) :
    without port j (moves ++ [a]) =
      without port j moves ++ if a.isAddressedTo port then [] else [a] := by
  have herase : (moves ++ [a]).eraseIdx j = moves.eraseIdx j ++ [a] := by
    rcases Nat.lt_or_gt_of_ne h with hlt | hgt
    · rw [List.eraseIdx_of_length_le (by simp; omega), List.eraseIdx_of_length_le (by omega)]
    · exact List.eraseIdx_append_of_lt_length hgt [a]
  rw [without, herase, List.filter_append, ← without]
  rcases ha : a.isAddressedTo port <;> simp [ha]

namespace Session

/-- The session after a move. Nothing happens to what does not exist. -/
def make (s : Session) : Move → Session
  | .dispatch m => s.act (.dispatch m)
  | .backend port connection h =>
    match s.surroundings.network.place? port connection with
    | none => s
    | some place => s.act (.backend place h)
  | .turn port exchange =>
    match s.dispatcher.place? port exchange with
    | none => s
    | some place => { s with dispatcher := s.dispatcher.turn place }
  | .clock => s.act .clock
  | .settle => s.act .settle
  | .receive => s.act .receive
  | .close => s.act .close

/-- The session after moves. -/
def play (s : Session) (moves : List Move) : Session := moves.foldl make s

/-- Every action of a session is a move, or nothing at all. -/
theorem exists_move (s : Session) (a : Action) : s.act a = s ∨ ∃ move, s.make move = s.act a := by
  cases a with
  | dispatch m => exact Or.inr ⟨.dispatch m, rfl⟩
  | backend place h =>
    by_cases hlt : place < s.surroundings.network.connections.length
    · obtain ⟨port, k, hplace⟩ := Network.exists_place? hlt
      refine Or.inr ⟨.backend port k h, ?_⟩
      rw [make, hplace]
    · -- There is no such connection.
      have hle : s.dispatcher.network.connections.length ≤ place := Nat.le_of_not_lt hlt
      have hsame : h.apply place s.dispatcher.network = s.dispatcher.network := by
        rw [Happening.apply_eq, Network.modify, List.modify_eq_self hle]
      refine Or.inl ?_
      show { s with dispatcher := s.dispatcher.happened place h } = s
      rw [happened, hsame]
  | proceed place =>
    rcases s.dispatcher.proceed_cases place with heq | ⟨before, e, after, hsplit, -, heq⟩
    · exact Or.inl (congrArg (fun d => { s with dispatcher := d }) heq)
    · refine Or.inr ⟨.turn e.port (before.countP (·.port = e.port)), ?_⟩
      have hplace : s.dispatcher.place? e.port (before.countP (·.port = e.port)) =
          some before.length := by
        rw [place?, hsplit]
        exact getElem?_findIdxs_middle before after (decide_eq_true rfl)
      rw [make, hplace]
      simp only [turn_middle hsplit]
      exact congrArg (fun d => { s with dispatcher := d }) heq.symm
  | clock => exact Or.inr ⟨.clock, rfl⟩
  | settle => exact Or.inr ⟨.settle, rfl⟩
  | receive => exact Or.inr ⟨.receive, rfl⟩
  | close => exact Or.inr ⟨.close, rfl⟩

/-- Every run is made of moves. -/
theorem exists_play (s : Session) (actions : List Action) :
    ∃ moves, s.play moves = s.run actions := by
  induction actions generalizing s with
  | nil => exact ⟨[], rfl⟩
  | cons a actions ih =>
    obtain ⟨moves, hmoves⟩ := ih (s.act a)
    rcases s.exists_move a with hnothing | ⟨move, hmove⟩
    · rw [hnothing] at hmoves
      exact ⟨moves, hmoves.trans (congrArg (·.run actions) hnothing).symm⟩
    · exact ⟨move :: moves, (congrArg (·.play moves) hmove).trans hmoves⟩

theorem make_backend (s : Session) (port : Port) (k : Nat) (h : Happening) :
    s.surroundings.network.place? port k = none ∧ s.make (.backend port k h) = s ∨
      ∃ place, s.surroundings.network.place? port k = some place ∧
        s.make (.backend port k h) = s.act (.backend place h) := by
  rw [make]
  rcases s.surroundings.network.place? port k with _ | place
  · exact Or.inl ⟨rfl, rfl⟩
  · exact Or.inr ⟨place, rfl, rfl⟩

theorem make_turn (s : Session) (port : Port) (k : Nat) :
    s.dispatcher.place? port k = none ∧ s.make (.turn port k) = s ∨
      ∃ before e after, s.dispatcher.inFlight = before ++ e :: after ∧
        s.dispatcher.place? port k = some before.length ∧ e.port = port ∧
        s.make (.turn port k) = { s with dispatcher := { (s.dispatcher.visit e).2 with
          inFlight := before ++ (s.dispatcher.visit e).1.toList ++ after } } := by
  rw [make]
  rcases hplace : s.dispatcher.place? port k with _ | place
  · exact Or.inl ⟨rfl, rfl⟩
  · obtain ⟨before, e, after, hsplit, rfl, he, -⟩ := exists_middle_of_findIdxs hplace
    refine Or.inr ⟨before, e, after, hsplit, rfl, of_decide_eq_true he, ?_⟩
    simp only [turn_middle hsplit]

/-- The session stays sound whatever moves are made. -/
theorem IsSound.make {s : Session} (h : s.IsSound) (move : Move) : (s.make move).IsSound := by
  cases move with
  | dispatch m => exact h.act (.dispatch m)
  | backend port k happening =>
    rcases s.make_backend port k happening with ⟨-, heq⟩ | ⟨place, -, heq⟩
    · rw [heq]
      exact h
    · rw [heq]
      exact h.act _
  | turn port k =>
    rcases s.make_turn port k with ⟨-, heq⟩ | ⟨before, e, after, hsplit, -, -, heq⟩
    · rw [heq]
      exact h
    · have hkeeps : Keeps s.begun s.delivered s.dispatcher.inFlight s.dispatcher := h
      rw [hsplit] at hkeeps
      rw [heq]
      exact hkeeps.visit.of_history rfl (fun _ => rfl) id hkeeps.visit.delivers
  | clock => exact h.act .clock
  | settle => exact h.act .settle
  | receive => exact h.act .receive
  | close => exact h.act .close

theorem rules_make (s : Session) (move : Move) : (s.make move).rules = s.rules := by
  cases move with
  | dispatch m => exact s.rules_act _
  | backend port k happening =>
    rcases s.make_backend port k happening with ⟨-, heq⟩ | ⟨place, -, heq⟩
    · rw [heq]
    · rw [heq]
      exact s.rules_act _
  | turn port k =>
    rcases s.make_turn port k with ⟨-, heq⟩ | ⟨before, e, after, -, -, -, heq⟩
    · rw [heq]
    · rw [heq, rules, rules, settings_visit, routes_visit, maxConcurrent_visit]
  | clock => exact s.rules_act _
  | settle => exact s.rules_act _
  | receive => exact s.rules_act _
  | close => exact s.rules_act _

/-- The second session is the first one without a backend and a reply topic. -/
def IsMirrored (port : Port) (topic : String) (s t : Session) : Prop :=
  Mirrors port topic s.dispatcher.inFlight t.dispatcher.inFlight s.dispatcher t.dispatcher

namespace IsMirrored

variable {port : Port} {topic : String} {s t : Session}

/-- A message that comes for the backend is not seen. -/
theorem dispatch_unseen (h : s.IsMirrored port topic t) {m : Message}
    (hport : s.dispatcher.routes.resolve m.topic = port) (htopic : m.replyTopic = topic)
    (hroom : (s.make (.dispatch m)).dispatcher.inFlight.length ≤ s.dispatcher.maxConcurrent) :
    (s.make (.dispatch m)).IsMirrored port topic t := by
  unfold IsMirrored
  rw [make] at hroom ⊢
  by_cases hreply : m.replyTopic = ""
  · rw [act_dispatch_of_eq s hreply, dispatch_of_eq _ hreply]
    refine Mirrors.of_alike h rfl rfl h.now_eq ?_ (.refl _) (.refl _)
    exact h.alike.publish [] h.alike.network rfl rfl (Surroundings.published_log _ _)
      (List.append_nil _).symm
  · rw [act_dispatch_of_ne s hreply, dispatch_of_ne _ hreply] at hroom ⊢
    have hbegin := Mirrors.begin_unseen (e := s.dispatcher.exchangeFor m) h hport htopic rfl hroom
    refine hbegin.of_alike rfl rfl h.now_eq ?_ (.refl _) (.refl _)
    exact ⟨h.alike.network, h.alike.isOpen_eq, h.alike.published_eq⟩

/-- Any other message comes in both sessions. -/
theorem dispatch (h : s.IsMirrored port topic t) {m : Message}
    (hport : m.replyTopic ≠ "" → s.dispatcher.routes.resolve m.topic ≠ port)
    (hroom : (s.make (.dispatch m)).dispatcher.inFlight.length ≤ s.dispatcher.maxConcurrent) :
    (s.make (.dispatch m)).IsMirrored port topic (t.make (.dispatch m)) := by
  unfold IsMirrored
  rw [make] at hroom ⊢
  rw [make]
  by_cases hreply : m.replyTopic = ""
  · rw [act_dispatch_of_eq s hreply, dispatch_of_eq _ hreply, act_dispatch_of_eq t hreply,
      dispatch_of_eq _ hreply]
    refine Mirrors.of_alike h rfl rfl h.now_eq ?_ (.refl _) (.refl _)
    exact h.alike.publish [] h.alike.network rfl rfl (Surroundings.published_log _ _)
      (Surroundings.published_log _ _)
  · rw [act_dispatch_of_ne s hreply, dispatch_of_ne _ hreply] at hroom ⊢
    rw [act_dispatch_of_ne t hreply, dispatch_of_ne _ hreply]
    have hsame : (s.dispatcher.exchangeFor m).Matches s.dispatcher.network t.dispatcher.network
        (t.dispatcher.exchangeFor m) := by
      refine ⟨?_, rfl, .queued⟩
      rw [exchangeFor, exchangeFor, h.routes_eq]
    have hbegin := Mirrors.begin h (hport hreply) hsame rfl hroom
    refine hbegin.of_alike rfl rfl h.now_eq ?_ (.refl _) (.refl _)
    exact ⟨h.alike.network, h.alike.isOpen_eq, h.alike.published_eq⟩

/-- A move that is addressed to the backend is not seen. -/
theorem addressed (hsound : s.IsSound) (h : s.IsMirrored port topic t) {move : Move}
    (hmove : move.isAddressedTo port = true) : (s.make move).IsMirrored port topic t := by
  cases move with
  | backend p k happening =>
    obtain rfl : p = port := of_decide_eq_true hmove
    rcases s.make_backend p k happening with ⟨-, heq⟩ | ⟨place, hplace, heq⟩
    · rw [heq]
      exact h
    · rw [heq]
      exact Mirrors.happened_unseen h hplace happening
  | turn p k =>
    obtain rfl : p = port := of_decide_eq_true hmove
    rcases s.make_turn p k with ⟨-, heq⟩ | ⟨before, e, after, hsplit, -, he, heq⟩
    · rw [heq]
      exact h
    · have hkeeps : Keeps s.begun s.delivered s.dispatcher.inFlight s.dispatcher := hsound
      have hmirrors : Mirrors p topic s.dispatcher.inFlight t.dispatcher.inFlight s.dispatcher
        t.dispatcher := h
      rw [hsplit] at hkeeps hmirrors
      have hvisit := hmirrors.visit_unseen hkeeps he
      rw [heq]
      exact hvisit.of_alike rfl rfl hvisit.now_eq hvisit.alike (.refl _) (.refl _)
  | _ => cases hmove

/-- Any other move is made in both sessions. -/
theorem not_addressed (hsound : s.IsSound) (h : s.IsMirrored port topic t) {move : Move}
    (hmove : move.isAddressedTo port = false) (hdispatch : ∀ m, move ≠ .dispatch m) :
    (s.make move).IsMirrored port topic (t.make move) := by
  cases move with
  | dispatch m => exact absurd rfl (hdispatch m)
  | backend p k happening =>
    have hne : p ≠ port := of_decide_eq_false hmove
    have hnetwork := h.alike.network
    have hnone : t.surroundings.network.place? p k = none ↔
        s.surroundings.network.place? p k = none := by
      have hconnections := hnetwork.connectionsTo_eq p hne
      rw [Network.place?_eq_none_iff, Network.place?_eq_none_iff]
      exact iff_of_eq (congrArg (fun l : List Connection => l.length ≤ k) hconnections)
    rcases s.make_backend p k happening with ⟨hplace, heq⟩ | ⟨i, hi, heq⟩ <;>
      rcases t.make_backend p k happening with ⟨hplace', heq'⟩ | ⟨j, hj, heq'⟩
    · rw [heq, heq']
      exact h
    · rw [hnone.2 hplace] at hj
      cases hj
    · rw [hnone.1 hplace'] at hi
      cases hi
    · rw [heq, heq']
      exact Mirrors.happened h hne hi hj happening
  | turn p k =>
    have hne : p ≠ port := of_decide_eq_false hmove
    have hplaces : t.dispatcher.place? p k = (s.dispatcher.place? p k).map fun i =>
        (others port (s.dispatcher.inFlight.take i)).length := Mirrors.findIdxs_eq h hne k
    rcases s.make_turn p k with ⟨hnone, heq⟩ | ⟨before, e, after, hsplit, hplace, he, heq⟩ <;>
      rcases t.make_turn p k with ⟨hnone', heq'⟩ |
        ⟨before', f, after', hsplit', hplace', -, heq'⟩
    · rw [heq, heq']
      exact h
    · rw [hnone, hplace'] at hplaces
      cases hplaces
    · rw [hnone', hplace] at hplaces
      cases hplaces
    · rw [hplace, hplace', hsplit, Option.map_some, List.take_left', Option.some.injEq] at hplaces
      · have hmirrors : Mirrors port topic s.dispatcher.inFlight t.dispatcher.inFlight s.dispatcher
          t.dispatcher := h
        rw [hsplit, hsplit'] at hmirrors
        obtain ⟨hvisit, -⟩ := hmirrors.visit (he ▸ hne) hplaces.symm
        rw [heq, heq']
        exact hvisit.of_alike rfl rfl hvisit.now_eq hvisit.alike (.refl _) (.refl _)
      · rfl
  | clock =>
    exact Mirrors.of_alike h rfl rfl (congrArg (· + 1) h.now_eq) h.alike (.refl _) (.refl _)
  | settle => exact Mirrors.settle hsound h
  | receive =>
    obtain ⟨-, hopen⟩ := s.surroundings.bus.receive_waiting
    obtain ⟨-, hopen'⟩ := t.surroundings.bus.receive_waiting
    refine Mirrors.of_alike h rfl rfl h.now_eq ?_ (.refl _) (.refl _)
    exact ⟨h.alike.network, hopen'.trans (h.alike.isOpen_eq.trans hopen.symm), h.alike.published_eq⟩
  | close =>
    refine Mirrors.of_alike h rfl rfl h.now_eq ?_ (.refl _) (.refl _)
    exact ⟨h.alike.network, rfl, h.alike.published_eq⟩

end IsMirrored

theorem play_concat (s : Session) (moves : List Move) (move : Move) :
    s.play (moves ++ [move]) = (s.play moves).make move := List.foldl_concat _ _ _ _

/-- The run without a message, and without what is addressed to its backend, mirrors the whole
run. -/
theorem isMirrored_play {settings : ExchangeSettings} {routes : RouteTable} {maxConcurrent : Nat}
    {network : Network} {moves : List Move} {j : Nat} {m : Message}
    (hm : moves[j]? = some (.dispatch m))
    (halone : ∀ i m', i ≠ j → moves[i]? = some (.dispatch m') → m'.replyTopic ≠ "" →
      routes.resolve m'.topic ≠ routes.resolve m.topic)
    (hslots : ∀ i, ((start settings routes maxConcurrent network).play
      (moves.take i)).dispatcher.inFlight.length ≤ maxConcurrent) (i : Nat) :
    let port := routes.resolve m.topic
    let s := (start settings routes maxConcurrent network).play (moves.take i)
    let t := (start settings routes maxConcurrent network).play
      (Move.without port j (moves.take i))
    s.IsSound ∧ s.rules = (settings, routes, maxConcurrent) ∧
      s.IsMirrored port m.replyTopic t := by
  intro port
  induction i with
  | zero =>
    refine ⟨isSound_start settings routes maxConcurrent network, rfl, rfl, rfl, rfl, rfl, .refl _,
      ?_, ?_, rfl, rfl, Nat.zero_le _⟩
    · exact .nil
    · intro e he
      cases he
  | succ i ih =>
    obtain ⟨hsound, hrules, hmirrors⟩ := ih
    rcases hmove : moves[i]? with _ | move
    · have hend : moves.take (i + 1) = moves.take i := by
        rw [List.take_add_one, hmove, Option.toList_none, List.append_nil]
      rw [hend]
      exact ⟨hsound, hrules, hmirrors⟩
    · have hnext : moves.take (i + 1) = moves.take i ++ [move] := by
        rw [List.take_add_one, hmove, Option.toList_some]
      have hlength : (moves.take i).length = i :=
        List.length_take_of_le (Nat.le_of_lt (List.getElem?_eq_some_iff.1 hmove).1)
      have hslots' := hslots (i + 1)
      rw [hnext, play_concat] at hslots' ⊢
      refine ⟨hsound.make move, (rules_make _ move).trans hrules, ?_⟩
      simp only [rules, Prod.mk.injEq] at hrules
      obtain ⟨-, hroutes, hmax⟩ := hrules
      have hroom := hslots'.trans (Nat.le_of_eq hmax.symm)
      by_cases hij : i = j
      · -- This is the message.
        subst hij
        rw [hm] at hmove
        obtain rfl := Option.some.inj hmove
        rw [Move.without_concat_self hlength]
        exact hmirrors.dispatch_unseen (by rw [hroutes]) rfl hroom
      · rw [Move.without_concat_of_ne (by rw [hlength]; exact hij)]
        rcases haddressed : move.isAddressedTo port
        · rw [if_neg Bool.false_ne_true, play_concat]
          cases move with
          | dispatch m' =>
            refine hmirrors.dispatch (fun hreply => ?_) hroom
            rw [hroutes]
            exact halone i m' hij hmove hreply
          | _ => exact hmirrors.not_addressed hsound haddressed fun _ => Move.noConfusion
        · rw [if_pos rfl, List.append_nil]
          exact hmirrors.addressed hsound haddressed

/-- **Exchanges are isolated.** Take a run in which one message alone goes to its backend, and in
which there are never more exchanges in flight than slots. Without the message, and without all that
happens on connections to its backend and all that its exchange does, the run comes step by step to
the same: the publications on all other topics are the same in the same order, and every other
backend has the same connections, on which the same request bytes have arrived, and of which the
same are open. -/
theorem exchanges_are_isolated (settings : ExchangeSettings) (routes : RouteTable)
    (maxConcurrent : Nat) (network : Network) (moves : List Move) {j : Nat} {m : Message}
    (hm : moves[j]? = some (.dispatch m))
    (halone : ∀ i m', i ≠ j → moves[i]? = some (.dispatch m') → m'.replyTopic ≠ "" →
      routes.resolve m'.topic ≠ routes.resolve m.topic)
    (hslots : ∀ i, ((start settings routes maxConcurrent network).play
      (moves.take i)).dispatcher.inFlight.length ≤ maxConcurrent) (i : Nat) :
    let port := routes.resolve m.topic
    let s := (start settings routes maxConcurrent network).play (moves.take i)
    let t := (start settings routes maxConcurrent network).play
      (Move.without port j (moves.take i))
    t.surroundings.published.filter (·.topic ≠ m.replyTopic) =
        s.surroundings.published.filter (·.topic ≠ m.replyTopic) ∧
      ∀ other ≠ port,
        t.surroundings.network.connectionsTo other = s.surroundings.network.connectionsTo other ∧
        t.surroundings.network.openNumbers other = s.surroundings.network.openNumbers other := by
  intro port s t
  obtain ⟨-, -, hmirrors⟩ := isMirrored_play hm halone hslots i
  refine ⟨hmirrors.alike.published_eq, fun other hne => ?_⟩
  have hconnections := hmirrors.alike.network.connectionsTo_eq other hne
  refine ⟨hconnections, ?_⟩
  rw [Network.openNumbers_eq_connectionsTo, Network.openNumbers_eq_connectionsTo]
  exact congrArg _ hconnections

/-- A backend that is slow to accept, sends what is no answer and goes away keeps no other from
answering. -/
theorem exchanges_are_isolated_fast_one :
    let settings : ExchangeSettings := ({} : Config).exchangeSettings
    let routes := RouteTable.ofList [("slow", 81)] 80
    let network : Network := { backends := [(80, .listen), (81, .hang)] }
    let fresh := start settings routes 2 network
    let m : Message := ⟨"slow", [103], "reply/0", none⟩
    let answer := Bytes.ofString "HTTP/1.1 204 No Content\r\n\r\n"
    let moves : List Move := [
      .dispatch m, .dispatch ⟨"fast", [104], "reply/1", none⟩, .settle, .clock,
      .backend 81 0 .accept, .turn 81 0, .backend 80 0 (.write answer),
      .backend 81 0 (.write [0, 10, 13]), .turn 81 0, .backend 81 0 (.finish .reset), .turn 80 0,
      .clock, .settle]
    let s := fresh.play moves
    let t := fresh.play (Move.without 81 0 moves)
    (moves[0]? = some (.dispatch m) ∧ routes.resolve m.topic = 81 ∧
      ∀ i, (fresh.play (moves.take i)).dispatcher.inFlight.length ≤ 2) ∧
    s.surroundings.published.map Publication.topic = ["reply/0", "reply/1", "reply/1", "reply/0"] ∧
    t.surroundings.published.filter (·.topic ≠ "reply/0") =
        s.surroundings.published.filter (·.topic ≠ "reply/0") ∧
      t.surroundings.network.connectionsTo 80 = s.surroundings.network.connectionsTo 80 ∧
      t.surroundings.network.openNumbers 80 = s.surroundings.network.openNumbers 80 := by
  intro settings routes network fresh m answer moves s t
  have hport : routes.resolve m.topic = 81 := by decide +kernel
  have halone : ∀ i m', i ≠ 0 → moves[i]? = some (.dispatch m') → m'.replyTopic ≠ "" →
      routes.resolve m'.topic ≠ routes.resolve m.topic := by
    rintro (_ | i) m' hi hget -
    · exact absurd rfl hi
    · have hrest : .dispatch m' ∈ moves.tail := List.mem_of_getElem? hget
      simp only [moves, List.tail_cons, List.mem_cons, Move.dispatch.injEq, reduceCtorEq,
        List.not_mem_nil, or_false] at hrest
      rw [hrest]
      decide +kernel
  have hslots : ∀ i, (fresh.play (moves.take i)).dispatcher.inFlight.length ≤ 2 := by
    have hstart : ∀ i ≤ moves.length,
        (fresh.play (moves.take i)).dispatcher.inFlight.length ≤ 2 := by decide +kernel
    intro i
    rcases Nat.le_total i moves.length with hle | hge
    · exact hstart i hle
    · have hall : moves.take i = moves.take moves.length := by
        rw [List.take_of_length_le hge, List.take_length]
      rw [hall]
      exact hstart _ (Nat.le_refl _)
  have htopics : s.surroundings.published.map Publication.topic =
      ["reply/0", "reply/1", "reply/1", "reply/0"] := by decide +kernel
  have hsame := exchanges_are_isolated settings routes 2 network moves rfl halone hslots
    moves.length
  simp only [List.take_length, hport] at hsame
  obtain ⟨hpublished, hconnections⟩ := hsame
  exact ⟨⟨rfl, hport, hslots⟩, htopics, hpublished, hconnections 80 (by decide)⟩

end Session

end Dispatcher

end TopicRelay
