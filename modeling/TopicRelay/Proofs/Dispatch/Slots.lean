import TopicRelay.Proofs.Dispatch.Reply
import TopicRelay.Proofs.Exchange.Turn

/-!
# Slots

Slots are given out first come, first served. `InLine` is the invariant: the exchanges that have
started, in the order in which they did, and after them those that wait, are all exchanges in the
order of their numbers, so that nobody has been overtaken; and the free slots and the exchanges that
hold one are as many as there may be.

A slot that is free belongs to the first in line, who takes it as soon as it goes on. Whoever cannot
start before another exchange has ended is held up (`heldUp`), and then all slots are taken. Once
every exchange has gone as far as it comes nobody waits with a slot free (`InLine.settle`).
-/

namespace TopicRelay

open Surroundings (Talks Leaves)

/-- Whether the exchange waits for a slot. -/
def Exchange.isQueued (e : Exchange) : Bool := e.stage = .queued

/-- Whether the exchange holds a slot. -/
def Exchange.isRunning (e : Exchange) : Bool := !e.isQueued

theorem Exchange.isQueued_iff {e : Exchange} : e.isQueued = true ↔ e.stage = .queued :=
  decide_eq_true_iff

theorem Exchange.isRunning_iff {e : Exchange} : e.isRunning = true ↔ e.stage ≠ .queued := by
  simp [isRunning, isQueued]

theorem Exchange.isRunning_of_runsOn? {e : Exchange} {started place : Nat}
    (h : e.stage.runsOn? = some (started, place)) : e.isRunning = true := by
  rw [isRunning_iff]
  intro hqueued
  rw [hqueued] at h
  cases h

namespace Dispatcher

section
variable {β : Type}

/-- The exchanges that hold a slot. -/
def running (d : Dispatcher β) : List Exchange := d.inFlight.filter Exchange.isRunning

/-- The exchanges that wait for a slot, the first in line first. -/
def waiting (d : Dispatcher β) : List Exchange := d.inFlight.filter Exchange.isQueued

/-- The exchanges to which the free slots belong. -/
def admitted (d : Dispatcher β) : List Exchange := d.waiting.take d.freeSlots

/-- The exchanges that cannot start before another one has ended. -/
def heldUp (d : Dispatcher β) : List Exchange := d.waiting.drop d.freeSlots

/-- Whether the exchange can be visited without overtaking anybody `before` it: it gets no slot, or
none of them waits for one. -/
def MayGo (d : Dispatcher β) (before : List Exchange) (e : Exchange) : Prop :=
  e.stage = .queued → d.freeSlots = 0 ∨ ∀ f ∈ before, f.stage ≠ .queued

theorem MayGo.nobody_waits {d : Dispatcher β} {before : List Exchange} {e : Exchange} {slots : Nat}
    (h : d.MayGo before e) (hqueued : e.stage = .queued) (hfree : d.freeSlots = slots + 1) :
    ∀ f ∈ before, f.stage ≠ .queued :=
  (h hqueued).resolve_left (by omega)

variable [MessageBus β]

/-- A visit leaves an exchange without a slot waiting, or the exchange takes a turn on its
connection, a new one if it has just got its slot. The number of free slots is `slots` after the
exchange has got its slot, and one more after it has ended. -/
theorem visit_turns (d : Dispatcher β) (e : Exchange) :
    (e.stage = .queued ∧ d.freeSlots = 0 ∧ d.visit e = (some e, d)) ∨
    ∃ started place slots s,
      (e.stage = .queued ∧ d.freeSlots = slots + 1 ∧ started = d.now ∧
          place = d.surroundings.network.connections.length ∧ s = d.surroundings.opened e d.now ∨
        e.stage.runsOn? = some (started, place) ∧ d.freeSlots = slots ∧ s = d.surroundings) ∧
      ((∃ stage t, e.advance d.settings d.now d.surroundings = (.continues stage, t) ∧
          stage.runsOn? = some (started, place) ∧ Talks e.id place s t ∧
          d.visit e = (some { e with stage }, { d with freeSlots := slots, surroundings := t })) ∨
        ∃ report t, e.advance d.settings d.now d.surroundings = (.ends report, t) ∧
          Leaves e.id place d.now report s t ∧
          d.visit e = (none, { d with
            tracker := (d.tracker.release t.metrics).1
            freeSlots := slots + 1
            surroundings := { t with metrics := (d.tracker.release t.metrics).2 } })) := by
  rcases d.visit_cases e with hwaits | ⟨slots, hslots, hvisit⟩
  · exact Or.inl hwaits
  · refine Or.inr ?_
    -- Both kinds of visit read the turn in the same way.
    have hturn {started place : Nat} {s : Surroundings β}
        (h : e.Takes d.now s started place (e.advance d.settings d.now d.surroundings)) :
        (∃ stage t, e.advance d.settings d.now d.surroundings = (.continues stage, t) ∧
          stage.runsOn? = some (started, place) ∧ Talks e.id place s t ∧
          d.visit e = (some { e with stage }, { d with freeSlots := slots, surroundings := t })) ∨
        ∃ report t, e.advance d.settings d.now d.surroundings = (.ends report, t) ∧
          Leaves e.id place d.now report s t ∧
          d.visit e = (none, { d with
            tracker := (d.tracker.release t.metrics).1
            freeSlots := slots + 1
            surroundings := { t with metrics := (d.tracker.release t.metrics).2 } }) := by
      rcases hvisit with ⟨stage, t, hadvance, hvisit⟩ | ⟨report, t, hadvance, hvisit⟩
      · rw [hadvance] at h
        exact Or.inl ⟨stage, t, hadvance, h.1, h.2, hvisit⟩
      · rw [hadvance] at h
        exact Or.inr ⟨report, t, hadvance, h, hvisit⟩
    rcases hslots with ⟨hqueued, hfree⟩ | ⟨hrunning, hfree⟩
    · have hfirst := e.advance_of_queued d.settings d.now d.surroundings hqueued
      exact ⟨_, _, slots, _, Or.inl ⟨hqueued, hfree, rfl, rfl, rfl⟩, hturn hfirst⟩
    · obtain ⟨started, place, hruns⟩ := Stage.exists_runsOn? hrunning
      have hnext := e.advance_of_runsOn d.settings d.now d.surroundings hruns
      exact ⟨started, place, slots, _, Or.inr ⟨hruns, hfree, rfl⟩, hturn hnext⟩

/-- Visiting exchanges one after the other: what a visit does to the exchanges that were visited
before, to the one that is visited and to those that still wait for their visit, all visits do. -/
theorem visitAll_induction {P : List Exchange → List Exchange → Dispatcher β → Prop}
    (hvisit : ∀ before e after d, P before (e :: after) d →
      P (before ++ (d.visit e).1.toList) after (d.visit e).2)
    (before es : List Exchange) (d : Dispatcher β) (h : P before es d) :
    P (before ++ (visitAll es d).1) [] (visitAll es d).2 := by
  induction es generalizing before d with
  | nil =>
    rw [visitAll, List.append_nil]
    exact h
  | cons e rest ih =>
    have hrest := ih _ _ (hvisit before e rest d h)
    rw [visitAll]
    rw [List.append_assoc] at hrest
    exact hrest

/-- Letting one exchange go on that need not wait for another one. -/
theorem proceed_of_eq {d : Dispatcher β} {before after : List Exchange} {e : Exchange}
    (h : d.inFlight = before ++ e :: after)
    (hfirst : e.stage = .queued → ∀ f ∈ before, f.stage ≠ .queued) :
    d.proceed before.length =
      { (d.visit e).2 with inFlight := before ++ (d.visit e).1.toList ++ after } := by
  have hget : d.inFlight[before.length]? = some e := by simp [h]
  have htake : d.inFlight.take before.length = before := by simp [h]
  have hdrop : d.inFlight.drop (before.length + 1) = after := by simp [h]
  unfold proceed
  rw [hget]
  simp only [htake, hdrop]
  rw [if_neg]
  rintro ⟨hqueued, f, hf, hf'⟩
  exact hfirst hqueued f hf hf'

/-- Letting one exchange go on: nothing happens, or the exchange at the place is visited, and
overtakes nobody. -/
theorem proceed_cases (d : Dispatcher β) (place : Nat) :
    d.proceed place = d ∨
    ∃ before e after, d.inFlight = before ++ e :: after ∧ d.MayGo before e ∧
      d.proceed place =
        { (d.visit e).2 with inFlight := before ++ (d.visit e).1.toList ++ after } := by
  rcases hget : d.inFlight[place]? with _ | e
  · refine Or.inl ?_
    unfold proceed
    rw [hget]
  · by_cases hfirst : e.stage = .queued ∧ ∃ f ∈ d.inFlight.take place, f.stage = .queued
    · refine Or.inl ?_
      unfold proceed
      rw [hget]
      exact if_pos hfirst
    · obtain ⟨hlt, he⟩ := List.getElem?_eq_some_iff.1 hget
      have hsplit : d.inFlight = d.inFlight.take place ++ e :: d.inFlight.drop (place + 1) := by
        rw [← he, List.getElem_cons_drop, List.take_append_drop]
      have hnobody : e.stage = .queued → ∀ f ∈ d.inFlight.take place, f.stage ≠ .queued := by
        intro hqueued f hf hf'
        exact hfirst ⟨hqueued, f, hf, hf'⟩
      refine Or.inr ⟨_, e, _, hsplit, fun hqueued => Or.inr (hnobody hqueued), ?_⟩
      have hproceed := proceed_of_eq hsplit hnobody
      rwa [List.length_take, Nat.min_eq_left (Nat.le_of_lt hlt)] at hproceed

/-! ### What visits leave alone -/

/-- The parts of a dispatcher that no visit changes. -/
def frame (d : Dispatcher β) : ExchangeSettings × RouteTable × Nat × Nat × Nat :=
  (d.settings, d.routes, d.maxConcurrent, d.now, d.tracker.nextId)

theorem frame_visit (d : Dispatcher β) (e : Exchange) : (d.visit e).2.frame = d.frame := by
  rcases d.visit_cases e with ⟨-, -, hvisit⟩ | ⟨slots, -, ⟨stage, s, -, hvisit⟩ |
    ⟨report, s, -, hvisit⟩⟩ <;> rw [hvisit] <;> rfl

theorem settings_visit (d : Dispatcher β) (e : Exchange) : (d.visit e).2.settings = d.settings :=
  congrArg (·.1) (d.frame_visit e)

theorem routes_visit (d : Dispatcher β) (e : Exchange) : (d.visit e).2.routes = d.routes :=
  congrArg (·.2.1) (d.frame_visit e)

theorem maxConcurrent_visit (d : Dispatcher β) (e : Exchange) :
    (d.visit e).2.maxConcurrent = d.maxConcurrent :=
  congrArg (·.2.2.1) (d.frame_visit e)

theorem now_visit (d : Dispatcher β) (e : Exchange) : (d.visit e).2.now = d.now :=
  congrArg (·.2.2.2.1) (d.frame_visit e)

theorem frame_settle (d : Dispatcher β) : d.settle.frame = d.frame := by
  have hall := visitAll_induction (P := fun _ _ d' => d'.frame = d.frame)
    (fun _ e _ d' h => (d'.frame_visit e).trans h) [] d.inFlight d rfl
  exact hall

theorem frame_proceed (d : Dispatcher β) (place : Nat) : (d.proceed place).frame = d.frame := by
  rcases d.proceed_cases place with heq | ⟨before, e, after, -, -, heq⟩
  · rw [heq]
  · rw [heq]
    exact d.frame_visit e

/-- The exchanges after a visit are the one that was visited, if it goes on, and the others. -/
theorem mem_visited {before after : List Exchange} {kept : Option Exchange} {f : Exchange} :
    f ∈ before ++ kept.toList ++ after ↔ f ∈ kept ∨ f ∈ before ++ after := by
  simp only [List.mem_append, Option.mem_toList]
  constructor
  · rintro ((hf | hf) | hf)
    · exact Or.inr (Or.inl hf)
    · exact Or.inl hf
    · exact Or.inr (Or.inr hf)
  · rintro (hf | hf | hf)
    · exact Or.inl (Or.inr hf)
    · exact Or.inl (Or.inl hf)
    · exact Or.inr hf

theorem id_of_visit {d : Dispatcher β} {e : Exchange} : ∀ f ∈ (d.visit e).1, f.id = e.id := by
  intro f hf
  rcases d.visit_cases e with ⟨-, -, hvisit⟩ | ⟨slots, -, ⟨stage, t, -, hvisit⟩ |
    ⟨report, t, -, hvisit⟩⟩
  · rw [hvisit, Option.mem_some_iff] at hf
    rw [← hf]
  · rw [hvisit, Option.mem_some_iff] at hf
    rw [← hf]
  · rw [hvisit] at hf
    cases hf

/-- What each visit keeps of an exchange is kept of all of them when they go as far as they come. -/
theorem forall_settle {P : Exchange → Prop} {d : Dispatcher β}
    (hvisit : ∀ d' : Dispatcher β, d'.frame = d.frame → ∀ e, P e → ∀ f ∈ (d'.visit e).1, P f)
    (h : ∀ e ∈ d.inFlight, P e) : ∀ e ∈ d.settle.inFlight, P e := by
  have hall := visitAll_induction
    (P := fun before es d' => d'.frame = d.frame ∧ ∀ f ∈ before ++ es, P f)
    ?_ [] d.inFlight d ⟨rfl, h⟩
  · intro e he
    exact hall.2 e (List.mem_append_left _ he)
  · rintro before e after d' ⟨hframe, hes⟩
    refine ⟨(d'.frame_visit e).trans hframe, fun f hf => ?_⟩
    rcases mem_visited.1 hf with hf | hf
    · exact hvisit d' hframe e (hes e (Keeps.mem_middle.2 (Or.inl rfl))) f hf
    · exact hes f (Keeps.mem_middle.2 (Or.inr hf))

/-- What a visit keeps of an exchange is kept when one of them goes on. -/
theorem forall_proceed {P : Exchange → Prop} {d : Dispatcher β}
    (hvisit : ∀ e, P e → ∀ f ∈ (d.visit e).1, P f) (h : ∀ e ∈ d.inFlight, P e) (place : Nat) :
    ∀ e ∈ (d.proceed place).inFlight, P e := by
  rcases d.proceed_cases place with heq | ⟨before, e, after, hsplit, -, heq⟩
  · rw [heq]
    exact h
  · rw [heq]
    rw [hsplit] at h
    intro f hf
    rcases mem_visited.1 hf with hf | hf
    · exact hvisit e (h e (Keeps.mem_middle.2 (Or.inl rfl))) f hf
    · exact h f (Keeps.mem_middle.2 (Or.inr hf))

end

/-! ## The line -/

/-- Exchanges start in the order of their numbers, and hold a slot from then on until they end. The
exchanges `es` are those in flight. -/
structure InLine {β : Type} (es : List Exchange) (d : Dispatcher β) : Prop where
  slots_eq : d.freeSlots + (es.filter Exchange.isRunning).length = d.maxConcurrent
  /-- Those that wait stand behind those that have started. -/
  order : es.Pairwise fun e f => e.stage = .queued → f.stage = .queued
  ascending : (es.map Exchange.id).Pairwise (· < ·)
  numbers : d.surroundings.starts.map Prod.fst ++ (es.filter Exchange.isQueued).map Exchange.id =
    List.range d.tracker.nextId
  times : (d.surroundings.starts.map Prod.snd).Pairwise (· ≤ ·)
  times_le : ∀ x ∈ d.surroundings.starts, x.2 ≤ d.now
  runs : ∀ e ∈ es, ∀ started place, e.stage.runsOn? = some (started, place) →
    (e.id, started) ∈ d.surroundings.starts
  /-- Those that have ended and those in flight are all, each once. -/
  all : (d.surroundings.ends ++ es.map Exchange.id).Perm (List.range d.tracker.nextId)

namespace InLine

section
variable {β : Type} {before after es : List Exchange} {e f : Exchange} {d d' : Dispatcher β}

/-- The line looks neither at the bus nor at the network. -/
theorem of_eq (h : InLine es d) (hmax : d'.maxConcurrent = d.maxConcurrent)
    (hfree : d'.freeSlots = d.freeSlots) (hid : d'.tracker.nextId = d.tracker.nextId)
    (hnow : d.now ≤ d'.now) (hstarts : d'.surroundings.starts = d.surroundings.starts)
    (hends : d'.surroundings.ends = d.surroundings.ends) : InLine es d' where
  slots_eq := by rw [hfree, hmax, h.slots_eq]
  order := h.order
  ascending := h.ascending
  numbers := by rw [hstarts, hid, h.numbers]
  times := by rw [hstarts]; exact h.times
  times_le x hx := by
    rw [hstarts] at hx
    exact Nat.le_trans (h.times_le x hx) hnow
  runs := by rw [hstarts]; exact h.runs
  all := by rw [hends, hid]; exact h.all

/-- An exchange that has started does not wait for a slot any more. -/
theorem not_queued (h : InLine es d) (he : e ∈ es)
    (hstarted : e.id ∈ d.surroundings.starts.map Prod.fst) : e.stage ≠ .queued := by
  intro hqueued
  have hnodup : (d.surroundings.starts.map Prod.fst ++
      (es.filter Exchange.isQueued).map Exchange.id).Nodup := by
    rw [h.numbers]
    exact List.nodup_range
  have hmem : e ∈ es.filter Exchange.isQueued :=
    List.mem_filter.2 ⟨he, Exchange.isQueued_iff.2 hqueued⟩
  exact (List.nodup_append.1 hnodup).2.2 e.id hstarted e.id (List.mem_map_of_mem hmem) rfl

/-- The first in line takes a free slot, and starts. -/
theorem start {place : Nat} (h : InLine (before ++ e :: after) d) (hqueued : e.stage = .queued)
    (hfirst : ∀ f ∈ before, f.stage ≠ .queued) (hfid : f.id = e.id)
    (hf : f.stage.runsOn? = some (d.now, place)) (hmax : d'.maxConcurrent = d.maxConcurrent)
    (hfree : d.freeSlots = d'.freeSlots + 1) (hid : d'.tracker.nextId = d.tracker.nextId)
    (hnow : d'.now = d.now)
    (hstarts : d'.surroundings.starts = d.surroundings.starts ++ [(e.id, d.now)])
    (hends : d'.surroundings.ends = d.surroundings.ends) : InLine (before ++ f :: after) d' := by
  have hrunning := Exchange.isRunning_of_runsOn? hf
  have he : e.isRunning = false := by simp [Exchange.isRunning, Exchange.isQueued_iff.2 hqueued]
  have hnobody : before.filter Exchange.isQueued = [] := by
    rw [List.filter_eq_nil_iff]
    intro g hg hg'
    exact hfirst g hg (Exchange.isQueued_iff.1 hg')
  have hfq : f.isQueued = false := by simpa [Exchange.isRunning] using hrunning
  refine ⟨?_, ?_, ?_, ?_, ?_, ?_, ?_, ?_⟩
  · have hslots := h.slots_eq
    simp only [List.filter_append, List.filter_cons, he, hrunning, List.length_append,
      Bool.false_eq_true, if_false, if_true, List.length_cons] at hslots ⊢
    omega
  · -- Nobody waits before the exchange, so that it may stand there without waiting.
    have horder := h.order
    simp only [List.pairwise_append, List.pairwise_cons, List.mem_cons] at horder ⊢
    refine ⟨horder.1, ⟨fun g _ hf' => ?_, horder.2.1.2⟩, fun g hg k _ hg' => ?_⟩
    · exact absurd hf' (Exchange.isRunning_iff.1 hrunning)
    · exact absurd hg' (hfirst g hg)
  · have hascending := h.ascending
    rw [List.map_append, List.map_cons] at hascending ⊢
    rwa [hfid]
  · have hnumbers := h.numbers
    simp only [List.filter_append, List.filter_cons, hnobody, Exchange.isQueued_iff.2 hqueued, hfq,
      List.nil_append, if_true, List.map_cons, Bool.false_eq_true, if_false] at hnumbers ⊢
    rw [hstarts, hid, ← hnumbers]
    simp
  · rw [hstarts, List.map_append, List.pairwise_append]
    refine ⟨h.times, List.pairwise_singleton _ _, ?_⟩
    intro time htime now hmem
    obtain ⟨x, hx, rfl⟩ := List.mem_map.1 htime
    rw [List.map_singleton, List.mem_singleton] at hmem
    rw [hmem]
    exact h.times_le x hx
  · intro x hx
    rw [hstarts, List.mem_append, List.mem_singleton] at hx
    rw [hnow]
    rcases hx with hx | rfl
    · exact h.times_le x hx
    · exact Nat.le_refl _
  · intro g hg started place' hruns
    rw [hstarts, List.mem_append, List.mem_singleton]
    rcases List.mem_append.1 hg with hg | hg
    · exact Or.inl (h.runs g (List.mem_append_left _ hg) started place' hruns)
    · rcases List.mem_cons.1 hg with rfl | hg
      · rw [hf] at hruns
        cases hruns
        exact Or.inr (by rw [hfid])
      · exact Or.inl (h.runs g (List.mem_append_right _ (List.mem_cons_of_mem _ hg)) started place'
          hruns)
  · have hall := h.all
    rw [List.map_append, List.map_cons] at hall ⊢
    rw [hends, hid, hfid]
    exact hall

/-- An exchange that has its slot goes on, and keeps it. -/
theorem turn {started place : Nat} (h : InLine (before ++ e :: after) d)
    (he : e.stage.runsOn? = some (started, place)) (hfid : f.id = e.id)
    (hf : f.stage.runsOn? = some (started, place)) (hmax : d'.maxConcurrent = d.maxConcurrent)
    (hfree : d'.freeSlots = d.freeSlots) (hid : d'.tracker.nextId = d.tracker.nextId)
    (hnow : d'.now = d.now) (hstarts : d'.surroundings.starts = d.surroundings.starts)
    (hends : d'.surroundings.ends = d.surroundings.ends) : InLine (before ++ f :: after) d' := by
  have hrunning := Exchange.isRunning_of_runsOn? he
  have hrunning' := Exchange.isRunning_of_runsOn? hf
  have heq : e.isQueued = false := by simpa [Exchange.isRunning] using hrunning
  have hfq : f.isQueued = false := by simpa [Exchange.isRunning] using hrunning'
  refine InLine.of_eq (d := d) ⟨?_, ?_, ?_, ?_, h.times, h.times_le, ?_, ?_⟩ hmax hfree hid
    (Nat.le_of_eq hnow.symm) hstarts hends
  · have hslots := h.slots_eq
    simp only [List.filter_append, List.filter_cons, hrunning, hrunning', if_true,
      List.length_append, List.length_cons] at hslots ⊢
    exact hslots
  · have horder := h.order
    simp only [List.pairwise_append, List.pairwise_cons, List.mem_cons] at horder ⊢
    refine ⟨horder.1, ⟨fun g _ hf' => ?_, horder.2.1.2⟩, ?_⟩
    · exact absurd hf' (Exchange.isRunning_iff.1 hrunning')
    · rintro g hg k (rfl | hk) hg'
      · exact absurd (horder.2.2 g hg e (Or.inl rfl) hg') (Exchange.isRunning_iff.1 hrunning)
      · exact horder.2.2 g hg k (Or.inr hk) hg'
  · have hascending := h.ascending
    rw [List.map_append, List.map_cons] at hascending ⊢
    rwa [hfid]
  · have hnumbers := h.numbers
    simp only [List.filter_append, List.filter_cons, heq, hfq, Bool.false_eq_true, if_false]
      at hnumbers ⊢
    exact hnumbers
  · intro g hg started' place' hruns
    rcases List.mem_append.1 hg with hg | hg
    · exact h.runs g (List.mem_append_left _ hg) started' place' hruns
    · rcases List.mem_cons.1 hg with rfl | hg
      · rw [hf, ← he] at hruns
        rw [hfid]
        exact h.runs e (List.mem_append_right _ List.mem_cons_self) started' place' hruns
      · exact h.runs g (List.mem_append_right _ (List.mem_cons_of_mem _ hg)) started' place' hruns
  · have hall := h.all
    rw [List.map_append, List.map_cons] at hall ⊢
    rwa [hfid]

/-- An exchange ends and gives its slot back. -/
theorem leave {started place : Nat} (h : InLine (before ++ e :: after) d)
    (he : e.stage.runsOn? = some (started, place)) (hmax : d'.maxConcurrent = d.maxConcurrent)
    (hfree : d'.freeSlots = d.freeSlots + 1) (hid : d'.tracker.nextId = d.tracker.nextId)
    (hnow : d'.now = d.now) (hstarts : d'.surroundings.starts = d.surroundings.starts)
    (hends : d'.surroundings.ends = d.surroundings.ends ++ [e.id]) :
    InLine (before ++ after) d' := by
  have hrunning := Exchange.isRunning_of_runsOn? he
  have heq : e.isQueued = false := by simpa [Exchange.isRunning] using hrunning
  have hsub : (before ++ after).Sublist (before ++ e :: after) :=
    (List.sublist_cons_self e after).append_left before
  refine ⟨?_, h.order.sublist hsub, h.ascending.sublist (hsub.map _), ?_, ?_, ?_, ?_, ?_⟩
  · have hslots := h.slots_eq
    simp only [List.filter_append, List.filter_cons, hrunning, if_true, List.length_append,
      List.length_cons] at hslots ⊢
    omega
  · have hnumbers := h.numbers
    simp only [List.filter_append, List.filter_cons, heq, Bool.false_eq_true, if_false] at hnumbers
    rw [hstarts, hid, List.filter_append, hnumbers]
  · rw [hstarts]
    exact h.times
  · rw [hstarts, hnow]
    exact h.times_le
  · intro g hg started' place' hruns
    rw [hstarts]
    exact h.runs g (hsub.subset hg) started' place' hruns
  · have hall := h.all
    rw [List.map_append, List.map_cons] at hall
    rw [hends, hid, List.append_assoc, List.map_append, List.singleton_append]
    exact (List.Perm.append_left _ List.perm_middle.symm).trans hall

end

/-! ## Visits -/

section
variable {β : Type} [MessageBus β] {before after es : List Exchange} {e f : Exchange}
  {d : Dispatcher β}

theorem visit (h : InLine (before ++ e :: after) d)
    (hmay : d.MayGo before e) :
    InLine (before ++ (d.visit e).1.toList ++ after) (d.visit e).2 := by
  rcases d.visit_turns e with ⟨-, -, hvisit⟩ | ⟨started, place, slots, s, hslot, hturn⟩
  · rw [hvisit, Option.toList_some, List.append_assoc, List.singleton_append]
    exact h
  · rcases hslot with ⟨hqueued, hfree, rfl, -, rfl⟩ | ⟨hruns, hfree, rfl⟩
    · have hnobody := hmay.nobody_waits hqueued hfree
      have hstarts := d.surroundings.starts_opened e d.now
      have hends := d.surroundings.ends_opened e d.now
      rcases hturn with ⟨stage, t, -, hstage, htalks, hvisit⟩ | ⟨report, t, -, hleaves, hvisit⟩
      · rw [hvisit, Option.toList_some, List.append_assoc, List.singleton_append]
        exact h.start hqueued hnobody rfl hstage rfl hfree rfl rfl (htalks.starts_eq.trans hstarts)
          (htalks.ends_eq.trans hends)
      · -- It starts and ends at once: it has had its slot in between.
        rw [hvisit, Option.toList_none, List.append_nil]
        let on : Exchange := { e with stage := .connecting d.now place 0 }
        have hon : InLine (before ++ on :: after)
            { d with freeSlots := slots, surroundings := d.surroundings.opened e d.now } :=
          h.start hqueued hnobody rfl rfl rfl hfree rfl rfl hstarts hends
        exact hon.leave rfl rfl rfl rfl rfl hleaves.starts_eq hleaves.ends_eq
    · rcases hturn with ⟨stage, t, -, hstage, htalks, hvisit⟩ | ⟨report, t, -, hleaves, hvisit⟩
      · rw [hvisit, Option.toList_some, List.append_assoc, List.singleton_append]
        exact h.turn hruns rfl hstage rfl hfree.symm rfl rfl htalks.starts_eq htalks.ends_eq
      · rw [hvisit, Option.toList_none, List.append_nil]
        exact h.leave hruns rfl (by rw [hfree]) rfl rfl hleaves.starts_eq hleaves.ends_eq

/-- A visit leaves an exchange waiting only if there is no slot for it. -/
theorem freeSlots_of_visit_queued (hf : f ∈ (d.visit e).1) (hqueued : f.stage = .queued) :
    d.freeSlots = 0 ∧ d.visit e = (some e, d) := by
  rcases d.visit_turns e with ⟨-, hfree, hvisit⟩ | ⟨started, place, slots, s, -,
    ⟨stage, t, -, hstage, -, hvisit⟩ | ⟨report, t, -, -, hvisit⟩⟩
  · exact ⟨hfree, hvisit⟩
  · rw [hvisit, Option.mem_some_iff] at hf
    rw [← hf] at hqueued
    exact absurd hqueued (Exchange.isRunning_iff.1 (Exchange.isRunning_of_runsOn? hstage))
  · rw [hvisit] at hf
    cases hf

theorem visit_of_queued (hqueued : e.stage = .queued) (hfree : d.freeSlots = 0) :
    d.visit e = (some e, d) := by
  rw [Dispatcher.visit, if_pos hqueued, if_pos hfree]

/-- Letting every exchange go as far as it comes: what holds before all visits and is kept by each
visit holds afterwards. An exchange that waits is visited when it is first in line or when there is
no slot for it, and nobody is left waiting with a slot free. -/
theorem visitAll_induction {P : List Exchange → List Exchange → Dispatcher β → Prop}
    (hvisit : ∀ before e after d, InLine (before ++ e :: after) d → d.MayGo before e →
      P before (e :: after) d → P (before ++ (d.visit e).1.toList) after (d.visit e).2)
    (h : InLine d.inFlight d) (hd : P [] d.inFlight d) :
    InLine (visitAll d.inFlight d).1 (visitAll d.inFlight d).2 ∧
      (∀ f ∈ (visitAll d.inFlight d).1, f.stage = .queued →
        (visitAll d.inFlight d).2.freeSlots = 0) ∧
      P (visitAll d.inFlight d).1 [] (visitAll d.inFlight d).2 := by
  have hall := Dispatcher.visitAll_induction
    (P := fun before es d => InLine (before ++ es) d ∧
      (∀ f ∈ before, f.stage = .queued → d.freeSlots = 0) ∧ P before es d)
    ?_ [] d.inFlight d ⟨h, fun f hf => (nomatch hf), hd⟩
  · rw [List.nil_append, List.append_nil] at hall
    exact hall
  · rintro before e after d ⟨hline, hwait, hd⟩
    have hmay : d.MayGo before e := by
      intro _
      by_cases hfree : d.freeSlots = 0
      · exact Or.inl hfree
      · exact Or.inr fun f hf hqueued => hfree (hwait f hf hqueued)
    refine ⟨hline.visit hmay, fun f hf hqueued => ?_, hvisit before e after d hline hmay hd⟩
    rcases List.mem_append.1 hf with hf | hf
    · -- Somebody before it waits, so that it waits as well and is left waiting.
      have he : e.stage = .queued :=
        (List.pairwise_append.1 hline.order).2.2 f hf e List.mem_cons_self hqueued
      have hfree := hwait f hf hqueued
      rw [visit_of_queued he hfree]
      exact hfree
    · obtain ⟨hfree, heq⟩ := freeSlots_of_visit_queued (Option.mem_toList.1 hf) hqueued
      rw [heq]
      exact hfree

/-- Once every exchange has gone as far as it comes, nobody waits with a slot free. -/
theorem settle (h : InLine d.inFlight d) :
    InLine d.settle.inFlight d.settle ∧
      ∀ f ∈ d.settle.inFlight, f.stage = .queued → d.settle.freeSlots = 0 := by
  obtain ⟨hline, hwait, -⟩ := h.visitAll_induction (P := fun _ _ _ => True)
    (fun _ _ _ _ _ _ _ => trivial) trivial
  refine ⟨hline.of_eq ?_ ?_ ?_ ?_ ?_ ?_, hwait⟩
  · rfl
  · rfl
  · rfl
  · exact Nat.le_refl _
  · rfl
  · rfl

theorem proceed (h : InLine d.inFlight d) (place : Nat) :
    InLine (d.proceed place).inFlight (d.proceed place) := by
  rcases d.proceed_cases place with heq | ⟨before, e, after, hsplit, hmay, heq⟩
  · rw [heq]
    exact h
  · rw [heq]
    rw [hsplit] at h
    exact (h.visit hmay).of_eq rfl rfl rfl (Nat.le_refl _) rfl rfl

/-- What each visit keeps, and what does not look at the list of the exchanges in flight, is kept
when all exchanges go as far as they come, and when one of them goes on. -/
theorem forall_visits {P : List Exchange → Dispatcher β → Prop}
    (hvisit : ∀ before e after d, InLine (before ++ e :: after) d → d.MayGo before e →
      P (before ++ e :: after) d → P (before ++ (d.visit e).1.toList ++ after) (d.visit e).2)
    (hlist : ∀ es inFlight d, P es d → P es { d with inFlight }) (h : InLine d.inFlight d)
    (hd : P d.inFlight d) :
    P d.settle.inFlight d.settle ∧
      ∀ place, P (d.proceed place).inFlight (d.proceed place) := by
  refine ⟨?_, fun place => ?_⟩
  · obtain ⟨-, -, hall⟩ :=
      h.visitAll_induction (P := fun before es d => P (before ++ es) d) hvisit hd
    rw [List.append_nil] at hall
    exact hlist _ _ _ hall
  · rcases d.proceed_cases place with heq | ⟨before, e, after, hsplit, hmay, heq⟩
    · rw [heq]
      exact hd
    · rw [heq]
      rw [hsplit] at h hd
      exact hlist _ _ _ (hvisit before e after d h hmay hd)

end

/-- An exchange begins and takes its place at the end of the line. -/
theorem begin {β : Type} {es : List Exchange} {e : Exchange} {d d' : Dispatcher β}
    (h : InLine es d) (hid : e.id = d.tracker.nextId) (hqueued : e.stage = .queued)
    (hnext : d'.tracker.nextId = d.tracker.nextId + 1)
    (hmax : d'.maxConcurrent = d.maxConcurrent) (hfree : d'.freeSlots = d.freeSlots)
    (hnow : d'.now = d.now) (hstarts : d'.surroundings.starts = d.surroundings.starts)
    (hends : d'.surroundings.ends = d.surroundings.ends) : InLine (es ++ [e]) d' := by
  have hqueue := Exchange.isQueued_iff.2 hqueued
  have hlt : ∀ id ∈ es.map Exchange.id, id < d.tracker.nextId := by
    intro id hmem
    rw [← List.mem_range, ← h.all.mem_iff]
    exact List.mem_append_right _ hmem
  refine ⟨?_, ?_, ?_, ?_, ?_, ?_, ?_, ?_⟩
  · rw [hfree, hmax, List.filter_append]
    simpa [Exchange.isRunning, hqueue] using h.slots_eq
  · rw [List.pairwise_append]
    refine ⟨h.order, List.pairwise_singleton _ _, fun f _ g hg _ => ?_⟩
    rw [List.mem_singleton.1 hg, hqueued]
  · rw [List.map_append, List.pairwise_append]
    refine ⟨h.ascending, List.pairwise_singleton _ _, fun i hi j hj => ?_⟩
    rw [List.map_singleton, List.mem_singleton] at hj
    rw [hj, hid]
    exact hlt i hi
  · rw [hstarts, hnext, List.range_succ, ← h.numbers]
    simp [hqueue, hid]
  · rw [hstarts]
    exact h.times
  · rw [hstarts, hnow]
    exact h.times_le
  · intro f hf started place hruns
    rw [hstarts]
    rcases List.mem_append.1 hf with hf | hf
    · exact h.runs f hf started place hruns
    · rw [List.mem_singleton.1 hf, hqueued] at hruns
      cases hruns
  · rw [hends, hnext, List.range_succ, List.map_append, List.map_singleton, hid,
      ← List.append_assoc]
    exact h.all.append_right _

end InLine

/-! ## Sessions -/

namespace Session

/-- What is settled about a session before it starts. -/
def rules (s : Session) : ExchangeSettings × RouteTable × Nat :=
  (s.dispatcher.settings, s.dispatcher.routes, s.dispatcher.maxConcurrent)

theorem rules_act (s : Session) (a : Action) : (s.act a).rules = s.rules := by
  have hframe {d d' : Dispatcher LocalBus} (h : d'.frame = d.frame) :
      (d'.settings, d'.routes, d'.maxConcurrent) = (d.settings, d.routes, d.maxConcurrent) := by
    simp only [frame, Prod.mk.injEq] at h ⊢
    exact ⟨h.1, h.2.1, h.2.2.1⟩
  cases a with
  | dispatch m =>
    by_cases hreply : m.replyTopic = ""
    · rw [act_dispatch_of_eq s hreply, dispatch_of_eq _ hreply]
      rfl
    · rw [act_dispatch_of_ne s hreply, dispatch_of_ne _ hreply]
      rfl
  | proceed place => exact hframe (s.dispatcher.frame_proceed place)
  | settle => exact hframe s.dispatcher.frame_settle
  | _ => rfl

theorem rules_run (s : Session) (actions : List Action) : (s.run actions).rules = s.rules := by
  induction actions generalizing s with
  | nil => rfl
  | cons a rest ih => exact (ih (s.act a)).trans (s.rules_act a)

theorem now_act (s : Session) {a : Action} (ha : a ≠ .clock) :
    (s.act a).dispatcher.now = s.dispatcher.now := by
  cases a with
  | dispatch m =>
    by_cases hreply : m.replyTopic = ""
    · rw [act_dispatch_of_eq s hreply, dispatch_of_eq _ hreply]
    · rw [act_dispatch_of_ne s hreply, dispatch_of_ne _ hreply]
  | clock => exact absurd rfl ha
  | proceed place => exact congrArg (·.2.2.2.1) (s.dispatcher.frame_proceed place)
  | settle => exact congrArg (·.2.2.2.1) s.dispatcher.frame_settle
  | _ => rfl

theorem nextId_le_act (s : Session) (a : Action) :
    s.dispatcher.tracker.nextId ≤ (s.act a).dispatcher.tracker.nextId := by
  cases a with
  | dispatch m =>
    by_cases hreply : m.replyTopic = ""
    · exact Nat.le_of_eq (by rw [act_dispatch_of_eq s hreply, dispatch_of_eq _ hreply])
    · rw [act_dispatch_of_ne s hreply, dispatch_of_ne _ hreply]
      exact Nat.le_succ _
  | proceed place =>
    exact Nat.le_of_eq (congrArg (·.2.2.2.2) (s.dispatcher.frame_proceed place)).symm
  | settle => exact Nat.le_of_eq (congrArg (·.2.2.2.2) s.dispatcher.frame_settle).symm
  | _ => exact Nat.le_refl _

/-- What each visit keeps of an exchange, and what holds of an exchange that begins, is kept of all
exchanges whatever happens. -/
theorem forall_act {P : Exchange → Prop} {s : Session}
    (hvisit : ∀ d : Dispatcher LocalBus, d.frame = s.dispatcher.frame →
      ∀ e, P e → ∀ f ∈ (d.visit e).1, P f)
    (hnew : ∀ m, P (s.dispatcher.exchangeFor m)) (h : ∀ e ∈ s.dispatcher.inFlight, P e)
    (a : Action) : ∀ e ∈ (s.act a).dispatcher.inFlight, P e := by
  cases a with
  | dispatch m =>
    by_cases hreply : m.replyTopic = ""
    · rw [act_dispatch_of_eq s hreply, dispatch_of_eq _ hreply]
      exact h
    · rw [act_dispatch_of_ne s hreply, dispatch_of_ne _ hreply]
      intro e he
      rcases List.mem_append.1 he with he | he
      · exact h e he
      · rw [List.mem_singleton.1 he]
        exact hnew m
  | proceed place => exact forall_proceed (hvisit s.dispatcher rfl) h place
  | settle => exact forall_settle hvisit h
  | _ => exact h

/-- The exchanges of the session stand in line. -/
def IsInLine (s : Session) : Prop := InLine s.dispatcher.inFlight s.dispatcher

theorem isInLine_start (settings : ExchangeSettings) (routes : RouteTable) (maxConcurrent : Nat)
    (network : Network) : (start settings routes maxConcurrent network).IsInLine := by
  refine ⟨rfl, .nil, .nil, rfl, .nil, ?_, ?_, .refl _⟩
  · intro x hx
    cases hx
  · intro e he
    cases he

theorem IsInLine.act {s : Session} (h : s.IsInLine) (a : Action) : (s.act a).IsInLine := by
  cases a with
  | dispatch m =>
    by_cases hreply : m.replyTopic = ""
    · rw [act_dispatch_of_eq s hreply, dispatch_of_eq _ hreply]
      refine InLine.of_eq h rfl rfl rfl (Nat.le_refl _) ?_ ?_
      · simp [Surroundings.starts, Surroundings.log, Event.start?]
      · simp [Surroundings.ends, Surroundings.log, Event.end?]
    · rw [act_dispatch_of_ne s hreply, dispatch_of_ne _ hreply]
      exact InLine.begin (e := s.dispatcher.exchangeFor m) h rfl rfl rfl rfl rfl rfl rfl rfl
  | clock => exact InLine.of_eq h rfl rfl rfl (Nat.le_succ _) rfl rfl
  | proceed place => exact InLine.proceed h place
  | settle => exact (InLine.settle h).1
  | _ => exact InLine.of_eq h rfl rfl rfl (Nat.le_refl _) rfl rfl

theorem IsInLine.run {s : Session} (h : s.IsInLine) (actions : List Action) :
    (s.run actions).IsInLine := by
  induction actions generalizing s with
  | nil => exact h
  | cons a rest ih => exact ih (h.act a)

/-- The first in line starts as soon as it goes on and a slot is free. -/
theorem starts_proceed {s : Session} {e : Exchange} {rest : List Exchange}
    (hwaiting : s.dispatcher.waiting = e :: rest) (hfree : 0 < s.dispatcher.freeSlots) :
    ∃ place, (s.act (.proceed place)).surroundings.starts =
      s.surroundings.starts ++ [(e.id, s.dispatcher.now)] := by
  obtain ⟨before, after, hsplit, hnobody, hqueue, -⟩ := List.filter_eq_cons_iff.1 hwaiting
  have hqueued := Exchange.isQueued_iff.1 hqueue
  refine ⟨before.length, ?_⟩
  have hproceed := proceed_of_eq hsplit fun _ f hf hf' =>
    hnobody f hf (Exchange.isQueued_iff.2 hf')
  show (s.dispatcher.proceed before.length).surroundings.starts = _
  rw [hproceed]
  have hopened := s.dispatcher.surroundings.starts_opened e s.dispatcher.now
  rcases s.dispatcher.visit_turns e with ⟨-, hnone, -⟩ | ⟨started, place, slots, t,
    ⟨-, -, -, -, rfl⟩ | ⟨hruns, -, -⟩, hturn⟩
  · omega
  · rcases hturn with ⟨stage, u, -, -, htalks, hvisit⟩ | ⟨report, u, -, hleaves, hvisit⟩
    · rw [hvisit]
      exact htalks.starts_eq.trans hopened
    · rw [hvisit]
      exact hleaves.starts_eq.trans hopened
  · rw [hqueued] at hruns
    cases hruns

/-- **Slots are given out first come, first served.** Whatever happens in a session, no more than
`maxConcurrent` exchanges hold a slot, those included to which a free slot belongs, and if anybody
is held up it is because all slots are taken. An exchange begins for every message that can be
answered, in the order in which they come, and exchanges start in the order in which they began: the
numbers of those that have started, in the order in which they did, followed by those that wait, are
all numbers in their order. Whoever is first in line while a slot is free starts as soon as it goes
on, and once everybody has gone as far as it comes those who wait do so because all slots are held.
A message is in flight at once, whether or not there is a slot for it. -/
theorem slots_first_come_first_served (settings : ExchangeSettings) (routes : RouteTable)
    (maxConcurrent : Nat) (network : Network) (actions : List Action) :
    let s := (start settings routes maxConcurrent network).run actions
    let d := s.dispatcher
    let settled := (s.act .settle).dispatcher
    (d.running.length + d.admitted.length ≤ maxConcurrent ∧
      (d.heldUp ≠ [] → d.running.length + d.admitted.length = maxConcurrent)) ∧
    (s.begun = actions.filterMap Action.begins? ∧
      s.surroundings.starts.map Prod.fst ++ d.waiting.map Exchange.id = List.range s.begun.length ∧
      (s.surroundings.starts.map Prod.snd).Pairwise (· ≤ ·)) ∧
    (∀ e rest, d.waiting = e :: rest → 0 < d.freeSlots →
      ∃ place, (s.act (.proceed place)).surroundings.starts =
        s.surroundings.starts ++ [(e.id, d.now)]) ∧
    (settled.waiting ≠ [] → settled.freeSlots = 0 ∧ settled.running.length = maxConcurrent) ∧
    ∀ m, m.replyTopic ≠ "" →
      let t := s.act (.dispatch m)
      t.IsInFlight s.begun.length ∧ t.dispatcher.tracker.active = d.tracker.active + 1 ∧
        t.dispatcher.now = d.now ∧ t.dispatcher.freeSlots = d.freeSlots ∧
        t.dispatcher.running = d.running := by
  intro s d settled
  have hline : s.IsInLine := (isInLine_start settings routes maxConcurrent network).run actions
  have hsound : s.IsSound := (isSound_start settings routes maxConcurrent network).run actions
  have hmax : d.maxConcurrent = maxConcurrent := by
    have hrules := rules_run (start settings routes maxConcurrent network) actions
    simp only [rules, Prod.mk.injEq] at hrules
    exact hrules.2.2
  have hslots : d.freeSlots + d.running.length = maxConcurrent := by
    rw [← hmax]
    exact hline.slots_eq
  refine ⟨⟨?_, fun hheld => ?_⟩, ⟨begun_run_start _ _ _ _ actions, ?_, hline.times⟩,
    fun e rest => starts_proceed, fun hwait => ?_, fun m hreply => ?_⟩
  · have hadmitted : d.admitted.length ≤ d.freeSlots := by
      rw [admitted, List.length_take]
      exact Nat.min_le_left _ _
    omega
  · have hmore : d.freeSlots < d.waiting.length := by
      rw [heldUp, ne_eq, List.drop_eq_nil_iff] at hheld
      omega
    have hadmitted : d.admitted.length = d.freeSlots := by
      rw [admitted, List.length_take, Nat.min_eq_left (Nat.le_of_lt hmore)]
    omega
  · rw [← hsound.nextId_eq]
    exact hline.numbers
  · obtain ⟨hline', hfree⟩ := InLine.settle hline
    obtain ⟨e, he⟩ := List.exists_mem_of_ne_nil _ hwait
    obtain ⟨hmem, hqueue⟩ := List.mem_filter.1 he
    have hnone : settled.freeSlots = 0 := hfree e hmem (Exchange.isQueued_iff.1 hqueue)
    have hsettled : settled.freeSlots + settled.running.length = settled.maxConcurrent :=
      hline'.slots_eq
    have hsame : settled.maxConcurrent = maxConcurrent := by
      have hrules := s.rules_act .settle
      simp only [rules, Prod.mk.injEq] at hrules
      exact hrules.2.2.trans hmax
    exact ⟨hnone, by omega⟩
  · have hnext : d.tracker.nextId = s.begun.length := hsound.nextId_eq
    simp only [IsInFlight]
    rw [act_dispatch_of_ne s hreply, dispatch_of_ne _ hreply]
    refine ⟨⟨s.dispatcher.exchangeFor m, List.mem_append_right _ List.mem_cons_self, hnext⟩, rfl,
      rfl, rfl, ?_⟩
    rw [running, List.filter_append]
    simp [Exchange.isRunning, Exchange.isQueued, exchangeFor, running, d]

end Session

end Dispatcher

end TopicRelay
