import TopicRelay.Shutdown
import Mathlib.Algebra.GroupWithZero.Nat
import Mathlib.Data.List.Basic
import Mathlib.Data.List.Induction

/-!
# No signal is lost

Coordinators come and go, subscribers too, signals are sent and asked for, in any order; `run` is
the state after all this. What lies before a subscriber changes with its own steps and with the
signals only (`unread?_act`), so that its answers can be followed from its subscription on. They
account for every signal since then: each was received, or reported as overtaken, or is unread
(`exists_unread`).

`no_signal_is_lost` is the main statement.
-/

namespace TopicRelay

namespace Reception

/-- The number of signals that an answer reports as overtaken. -/
def missed : Reception → Nat
  | .lagged overtaken => overtaken
  | _ => 0

/-- The number of signals that answers account for. -/
def accounted (answers : List Reception) : Nat :=
  answers.count .signalled + (answers.map missed).sum

theorem accounted_append (answers more : List Reception) :
    accounted (answers ++ more) = accounted answers + accounted more := by
  simp only [accounted, List.count_append, List.map_append, List.sum_append]
  omega

end Reception

namespace Shutdown

/-- One thing that happens. Coordinators share their state, so it does not matter which of them
sends a signal. -/
inductive Action where
  | subscribe
  /-- A subscriber goes away, if it is there. -/
  | unsubscribe (id : Nat)
  | trigger
  /-- A subscriber asks for its next signal. -/
  | receive (id : Nat)
  | addCoordinator
  | removeCoordinator
deriving DecidableEq, Repr

/-- The state after one more thing has happened. -/
def act (s : Shutdown) : Action → Shutdown
  | .subscribe => s.subscribe.2
  | .unsubscribe id => (s.unsubscribe id).2
  | .trigger => s.trigger.2
  | .receive id => (s.receive id).2
  | .addCoordinator => s.addCoordinator
  | .removeCoordinator => s.removeCoordinator

/-- The state after all this has happened. At first there are one coordinator and no subscribers. -/
def run (actions : List Action) : Shutdown := actions.foldl act .initial

theorem run_concat (actions : List Action) (a : Action) :
    run (actions ++ [a]) = (run actions).act a :=
  List.foldl_append

/-- Somebody subscribed under this number and has not gone away since. -/
def IsLive (actions : List Action) (id : Nat) : Prop :=
  ∃ before after, actions = before ++ .subscribe :: after ∧ (run before).subscribe.1 = id ∧
    .unsubscribe id ∉ after

/-- Fewer coordinators have gone away than there were. -/
def HasCoordinator (actions : List Action) : Prop :=
  actions.count .removeCoordinator ≤ actions.count .addCoordinator

/-- What a subscriber is answered in the course of actions. -/
def answers (id : Nat) : (s : Shutdown) → List Action → List Reception
  | _, [] => []
  | s, a :: rest =>
    (if a = .receive id then (s.receive id).1.toList else []) ++ answers id (s.act a) rest

/-- What the subscriber that comes after some actions is answered in the course of the next ones. -/
def answersSince (before after : List Action) : List Reception :=
  answers (run before).subscribe.1 (run (before ++ [.subscribe])) after

/-- The number of signals since a subscription that its answers do not account for. -/
def outstanding (before after : List Action) : Nat :=
  after.count .trigger - Reception.accounted (answersSince before after)

/-! ## The subscribers that are there -/

/-- The numbers of the subscribers that are there. -/
def live (s : Shutdown) : List Nat := s.subscribers.findIdxs (·.isSome)

theorem lt_of_place? {s : Shutdown} {id place : Nat} (h : s.place? id = some place) :
    id < s.subscribers.length := by
  by_contra hlen
  rw [place?, List.getElem?_eq_none (Nat.le_of_not_lt hlen)] at h
  cases h

theorem place?_le_sent {s : Shutdown} {id place : Nat} (h : s.place? id = some place) :
    place ≤ s.sent := by
  rw [place?, Option.join_eq_some_iff] at h
  exact s.place_le_sent place (List.mem_of_getElem? h)

theorem mem_live {s : Shutdown} {id : Nat} : id ∈ s.live ↔ (s.unread? id).isSome := by
  rw [live, List.mem_findIdxs_iff_exists_getElem_pos, unread?, Option.isSome_map, place?]
  by_cases hid : id < s.subscribers.length
  · simp [hid]
  · simp [hid]

theorem length_live (s : Shutdown) : s.live.length = s.receiverCount := List.length_findIdxs

theorem receiverCount_eq_zero_iff {s : Shutdown} :
    s.receiverCount = 0 ↔ ∀ id, s.unread? id = none := by
  rw [← length_live, List.length_eq_zero_iff, List.eq_nil_iff_forall_not_mem]
  simp only [mem_live, Option.not_isSome_iff_eq_none]

/-! ## What lies before a subscriber -/

/-- What a subscriber finds that has `unread` signals before it. -/
def found (coordinators : Nat) : (unread : Nat) → Reception
  | 0 => if coordinators = 0 then .closed else .empty
  | 1 => .signalled
  | n + 2 => .lagged (n + 1)

/-- How many signals lie before a subscriber once it has asked. -/
def left : (unread : Nat) → Nat
  | 0 => 0
  | 1 => 0
  | _ + 2 => 1

/-- An answer accounts for the signals that it leaves behind. -/
theorem accounted_found (coordinators unread : Nat) :
    Reception.accounted [found coordinators unread] + left unread = unread := by
  match unread with
  | 0 =>
    by_cases h : coordinators = 0 <;>
      simp [found, h, Reception.accounted, Reception.missed, left]
  | 1 => rfl
  | n + 2 => simp [found, Reception.accounted, Reception.missed, left]

theorem receive_fst (s : Shutdown) (id : Nat) :
    (s.receive id).1 = (s.unread? id).map (found s.coordinators) := by
  rw [receive]
  rcases s.unread? id with _ | _ | _ | n <;> rfl

private theorem join_getElem?_set {places : List (Option Nat)} {id : Nat} (h : id < places.length)
    (place : Option Nat) (other : Nat) :
    ((places.set id place)[other]?).join = if other = id then place else (places[other]?).join := by
  rw [List.getElem?_set]
  by_cases hother : other = id
  · rw [if_pos hother.symm, if_pos hother, if_pos h, Option.join_some]
  · rw [if_neg (Ne.symm hother), if_neg hother]

theorem unread?_subscribe (s : Shutdown) (id : Nat) :
    s.subscribe.2.unread? id = if id = s.subscribe.1 then some 0 else s.unread? id := by
  have hplace : s.subscribe.2.place? id =
      if id = s.subscribe.1 then some s.sent else s.place? id := by
    show ((s.subscribers ++ [some s.sent])[id]?).join = if id = s.subscribers.length then _ else _
    rcases Nat.lt_trichotomy id s.subscribers.length with hlt | heq | hgt
    · rw [List.getElem?_append_left hlt, if_neg (Nat.ne_of_lt hlt), place?]
    · rw [heq, List.getElem?_concat_length, if_pos rfl, Option.join_some]
    · rw [List.getElem?_eq_none (by simp; omega), if_neg (Nat.ne_of_gt hgt), place?,
        List.getElem?_eq_none (Nat.le_of_lt hgt)]
  rw [unread?, hplace, unread?]
  split
  · rw [Option.map_some]
    exact congrArg some (Nat.sub_self _)
  · rfl

theorem unread?_unsubscribe (s : Shutdown) (gone id : Nat) :
    (s.unsubscribe gone).2.unread? id = if id = gone then none else s.unread? id := by
  rw [unsubscribe]
  rcases hgone : s.place? gone with _ | place
  · dsimp only
    split
    · rename_i h
      rw [h, unread?, hgone, Option.map_none]
    · rfl
  · show ((((s.subscribers.set gone none)[id]?).join).map (s.sent - ·)) = _
    rw [join_getElem?_set (lt_of_place? hgone), unread?, place?]
    split <;> rfl

theorem unread?_trigger (s : Shutdown) (id : Nat) :
    s.trigger.2.unread? id = (s.unread? id).map (· + 1) := by
  rw [trigger]
  split
  · rename_i hnone
    rw [receiverCount_eq_zero_iff.1 hnone id, Option.map_none]
  · show (s.place? id).map (s.sent + 1 - ·) = _
    rw [unread?, Option.map_map]
    refine Option.map_congr fun place hplace => ?_
    exact Nat.succ_sub (place?_le_sent hplace)

theorem unread?_moveTo {s : Shutdown} {id n : Nat} (h : s.unread? id = some n) {k : Nat}
    (hk : k ≤ n) (other : Nat) :
    (s.moveTo id k).unread? other = if other = id then some k else s.unread? other := by
  obtain ⟨place, hplace, rfl⟩ := Option.map_eq_some_iff.1 h
  show ((((s.subscribers.set id (some (s.sent - k)))[other]?).join).map (s.sent - ·)) = _
  rw [join_getElem?_set (lt_of_place? hplace), unread?, place?]
  split
  · rw [Option.map_some]
    exact congrArg some (Nat.sub_sub_self (Nat.le_trans hk (Nat.sub_le _ _)))
  · rfl

theorem unread?_receive (s : Shutdown) (asking id : Nat) :
    (s.receive asking).2.unread? id =
      if id = asking then (s.unread? id).map left else s.unread? id := by
  have hkept {n : Nat} (hn : s.unread? asking = some n) {t : Shutdown}
      (ht : t.unread? id = if id = asking then some (left n) else s.unread? id) :
      t.unread? id = if id = asking then (s.unread? id).map left else s.unread? id := by
    rw [ht]
    split
    · rename_i h
      rw [h, hn, Option.map_some]
    · rfl
  rw [receive]
  rcases hn : s.unread? asking with _ | _ | _ | n <;> dsimp only
  · split
    · rename_i h
      rw [h, hn, Option.map_none]
    · rfl
  · refine hkept hn ?_
    split
    · rename_i h
      rw [h, hn, left]
    · rfl
  · exact hkept hn (unread?_moveTo hn (Nat.zero_le _) id)
  · exact hkept hn (unread?_moveTo hn (Nat.le_add_left 1 _) id)

/-- What lies before a subscriber after any action, as long as it stays. Nothing but a signal and
its own question changes it. -/
theorem unread?_act {s : Shutdown} {id n : Nat} (h : s.unread? id = some n) {a : Action}
    (ha : a ≠ .unsubscribe id) : (s.act a).unread? id =
      some (if a = .trigger then n + 1 else if a = .receive id then left n else n) := by
  cases a with
  | subscribe =>
    obtain ⟨place, hplace, -⟩ := Option.map_eq_some_iff.1 h
    show s.subscribe.2.unread? id = some n
    have hid : id ≠ s.subscribe.1 := Nat.ne_of_lt (lt_of_place? hplace)
    rw [unread?_subscribe, if_neg hid, h]
  | unsubscribe gone =>
    have hne : id ≠ gone := fun heq => ha (heq ▸ rfl)
    show (s.unsubscribe gone).2.unread? id = some n
    rw [unread?_unsubscribe, if_neg hne, h]
  | trigger =>
    show s.trigger.2.unread? id = some (n + 1)
    rw [unread?_trigger, h, Option.map_some]
  | receive asking =>
    show (s.receive asking).2.unread? id = _
    rw [unread?_receive, h, Option.map_some]
    by_cases hid : id = asking
    · rw [if_pos hid, if_neg (by simp), if_pos (hid ▸ rfl)]
    · rw [if_neg hid, if_neg (by simp), if_neg (by simpa using Ne.symm hid)]
  | _ => exact h

/-- A subscriber is there as soon as it has subscribed and until it goes away. -/
theorem isSome_unread?_act (s : Shutdown) (a : Action) (id : Nat) :
    ((s.act a).unread? id).isSome ↔
      a = .subscribe ∧ s.subscribe.1 = id ∨ (s.unread? id).isSome ∧ a ≠ .unsubscribe id := by
  cases a with
  | subscribe =>
    show (s.subscribe.2.unread? id).isSome ↔ _
    rw [unread?_subscribe]
    by_cases hid : id = s.subscribe.1
    · simp [hid]
    · simp [hid, Ne.symm hid]
  | unsubscribe gone =>
    show ((s.unsubscribe gone).2.unread? id).isSome ↔ _
    rw [unread?_unsubscribe]
    by_cases hid : id = gone
    · simp [hid]
    · simp [hid, Ne.symm hid]
  | trigger =>
    show (s.trigger.2.unread? id).isSome ↔ _
    simp [unread?_trigger]
  | receive asking =>
    show ((s.receive asking).2.unread? id).isSome ↔ _
    rw [unread?_receive]
    split <;> simp
  | _ => simp [act, addCoordinator, removeCoordinator, unread?, place?]

theorem trigger_fst (s : Shutdown) : s.trigger.1 = true ↔ s.live ≠ [] := by
  rw [← List.length_pos_iff, length_live, trigger]
  split
  · rename_i hnone
    simp [hnone]
  · rename_i hsome
    simpa using Nat.pos_of_ne_zero hsome

/-! ## The coordinators that are there -/

/-- How many coordinators an action leaves. -/
def Action.recount : Action → (coordinators : Nat) → Nat
  | .addCoordinator, n => n + 1
  | .removeCoordinator, n => n - 1
  | _, n => n

theorem coordinators_act (s : Shutdown) (a : Action) :
    (s.act a).coordinators = a.recount s.coordinators := by
  cases a with
  | unsubscribe id => simp only [act, unsubscribe]; split <;> rfl
  | trigger => simp only [act, trigger]; split <;> rfl
  | receive id => simp only [act, receive]; split <;> rfl
  | _ => rfl

theorem HasCoordinator.coordinators_ne_zero {actions : List Action} (h : HasCoordinator actions) :
    (run actions).coordinators ≠ 0 := by
  have hcount (actions : List Action) : actions.count .addCoordinator + 1 ≤
      (run actions).coordinators + actions.count .removeCoordinator := by
    induction actions using List.reverseRecOn with
    | nil => exact Nat.le_refl _
    | append_singleton actions a ih =>
      rw [run_concat, coordinators_act, List.count_append, List.count_append]
      cases a <;> simp [Action.recount] <;> omega
  have hmany := hcount actions
  rw [HasCoordinator] at h
  omega

theorem subscribe_fst_act (s : Shutdown) (a : Action) :
    (s.act a).subscribe.1 = s.subscribe.1 + if a = .subscribe then 1 else 0 := by
  show (s.act a).subscribers.length = s.subscribers.length + _
  cases a with
  | subscribe => exact List.length_append
  | unsubscribe id => simp only [act, unsubscribe]; split <;> simp
  | trigger => simp only [act, trigger]; split <;> simp
  | receive id => simp only [act, receive, moveTo]; split <;> simp
  | _ => rfl

/-- Neither the coordinators nor the number of the next subscriber depend on the signals. -/
theorem run_without_triggers (actions : List Action) :
    let quiet := run (actions.filter (· ≠ .trigger))
    quiet.coordinators = (run actions).coordinators ∧
      quiet.subscribe.1 = (run actions).subscribe.1 := by
  induction actions using List.reverseRecOn with
  | nil => exact ⟨rfl, rfl⟩
  | append_singleton actions a ih =>
    rw [List.filter_append, run_concat, coordinators_act, subscribe_fst_act, ← ih.1, ← ih.2]
    by_cases htrigger : a = .trigger
    · simp [htrigger, Action.recount]
    · rw [List.filter_singleton, decide_eq_true htrigger, cond_true, run_concat]
      exact ⟨coordinators_act _ a, subscribe_fst_act _ a⟩

/-! ## The answers of a subscriber -/

/-- What was answered and what is unread are all signals, from a moment at which `n` of them lie
before a subscriber, as long as it stays. -/
theorem exists_unread {s : Shutdown} {id n : Nat} (h : s.unread? id = some n)
    {actions : List Action} (hstays : .unsubscribe id ∉ actions) :
    ∃ m, (actions.foldl act s).unread? id = some m ∧
      Reception.accounted (answers id s actions) + m = n + actions.count .trigger := by
  induction actions generalizing s n with
  | nil => exact ⟨n, h, Nat.zero_add n⟩
  | cons a rest ih =>
    rw [List.mem_cons, not_or] at hstays
    obtain ⟨m, hm, haccount⟩ := ih (unread?_act h (Ne.symm hstays.1)) hstays.2
    refine ⟨m, hm, ?_⟩
    rw [answers, Reception.accounted_append, Nat.add_assoc, haccount, List.count_cons]
    by_cases htrigger : a = .trigger
    · simp [htrigger, Reception.accounted]
      omega
    · by_cases hreceive : a = .receive id
      · have hfound := accounted_found s.coordinators n
        rw [if_pos hreceive, receive_fst, h]
        simp [hreceive]
        omega
      · simp [htrigger, hreceive, Reception.accounted]

theorem answers_eq_nil {id : Nat} (s : Shutdown) {actions : List Action}
    (h : .receive id ∉ actions) : answers id s actions = [] := by
  induction actions generalizing s with
  | nil => rfl
  | cons a rest ih =>
    rw [List.mem_cons, not_or] at h
    rw [answers, if_neg (Ne.symm h.1), ih _ h.2, List.append_nil]

/-- What a subscriber is answered depends on what lies before it and on what happens from then on.
-/
theorem answers_congr {s t : Shutdown} {id n : Nat} (hs : s.unread? id = some n)
    (ht : t.unread? id = some n) (hc : s.coordinators = t.coordinators) {actions : List Action}
    (hstays : .unsubscribe id ∉ actions) : answers id s actions = answers id t actions := by
  induction actions generalizing s t n with
  | nil => rfl
  | cons a rest ih =>
    rw [List.mem_cons, not_or] at hstays
    have hrest := ih (unread?_act hs (Ne.symm hstays.1)) (unread?_act ht (Ne.symm hstays.1))
      (by rw [coordinators_act, coordinators_act, hc]) hstays.2
    rw [answers, answers, hrest, receive_fst, receive_fst, hs, ht, hc]

section
variable {before after : List Action}

theorem run_since (before after : List Action) :
    run (before ++ .subscribe :: after) = after.foldl act (run (before ++ [.subscribe])) := by
  rw [List.append_cons, run, List.foldl_append, ← run]

theorem unread?_new (before : List Action) :
    (run (before ++ [.subscribe])).unread? (run before).subscribe.1 = some 0 := by
  rw [run_concat, act, unread?_subscribe, if_pos rfl]

/-- The signals that answers do not account for are those that are unread. -/
theorem unread?_since (hstays : .unsubscribe (run before).subscribe.1 ∉ after) :
    (run (before ++ .subscribe :: after)).unread? (run before).subscribe.1 =
        some (outstanding before after) ∧
      Reception.accounted (answersSince before after) + outstanding before after =
        after.count .trigger := by
  obtain ⟨m, hm, haccount⟩ := exists_unread (unread?_new before) hstays
  rw [Nat.zero_add, ← answersSince] at haccount
  have houtstanding : outstanding before after = m := by
    rw [outstanding]
    omega
  rw [run_since, houtstanding]
  exact ⟨hm, haccount⟩

/-- To ask leaves at most the newest signal. -/
theorem outstanding_receive (hstays : .unsubscribe (run before).subscribe.1 ∉ after) :
    outstanding before (after ++ [.receive (run before).subscribe.1]) =
      left (outstanding before after) := by
  have hmore : .unsubscribe (run before).subscribe.1 ∉
      after ++ [.receive (run before).subscribe.1] := by
    simpa using hstays
  have hnow := unread?_act (unread?_since hstays).1
    (a := .receive (run before).subscribe.1) (by simp)
  rw [← run_concat, List.append_assoc, List.cons_append, (unread?_since hmore).1] at hnow
  simpa using hnow

/-- A signal that came after the last question is unread. -/
theorem outstanding_pos {earlier later : List Action}
    (hstays : .unsubscribe (run before).subscribe.1 ∉ earlier ++ .trigger :: later)
    (hnot : .receive (run before).subscribe.1 ∉ later) :
    0 < outstanding before (earlier ++ .trigger :: later) := by
  have hparts := hstays
  rw [List.mem_append, List.mem_cons, not_or, not_or] at hparts
  have hsignalled := unread?_act (unread?_since hparts.1).1 (a := .trigger) (by simp)
  obtain ⟨m, hm, haccount⟩ := exists_unread hsignalled hparts.2.2
  have hrun : run (before ++ .subscribe :: (earlier ++ .trigger :: later)) =
      later.foldl act ((run (before ++ .subscribe :: earlier)).act .trigger) := by
    simp only [run, List.foldl_append, List.foldl_cons]
  have hunread := (unread?_since hstays).1
  rw [hrun, hm, Option.some_inj] at hunread
  rw [answers_eq_nil _ hnot, if_pos rfl] at haccount
  rw [← hunread, Nat.pos_iff_ne_zero]
  rintro rfl
  simp only [Reception.accounted, List.count_nil, List.map_nil, List.sum_nil] at haccount
  omega

end

theorem mem_live_run (actions : List Action) (id : Nat) :
    id ∈ (run actions).live ↔ IsLive actions id := by
  rw [mem_live]
  constructor
  · intro h
    induction actions using List.reverseRecOn with
    | nil => simp [run, initial, unread?, place?] at h
    | append_singleton actions a ih =>
      rw [run_concat, isSome_unread?_act] at h
      rcases h with ⟨rfl, hid⟩ | ⟨hold, hne⟩
      · exact ⟨actions, [], rfl, hid, List.not_mem_nil⟩
      · obtain ⟨before, after, rfl, hid, hstays⟩ := ih hold
        refine ⟨before, after ++ [a], List.append_assoc _ _ _, hid, ?_⟩
        rw [List.mem_append, List.mem_singleton, not_or]
        exact ⟨hstays, Ne.symm hne⟩
  · rintro ⟨before, after, rfl, rfl, hstays⟩
    rw [(unread?_since hstays).1]
    rfl

/-- **No signal is lost on a subscriber.** Whatever happens, the subscribers that have not gone away
are counted, and a signal is sent if and only if there is one of them.

From its subscription on the answers of a subscriber account for all signals but the outstanding
ones. Without one outstanding it finds nothing, a single one it receives, and of several it learns
that all but the newest were overtaken, which leaves the newest to be received. As long as there is
a coordinator it never finds the channel closed. A signal that came after its last question it
cannot miss, and the signals from before its subscription leave no trace in its answers. -/
theorem no_signal_is_lost :
    (∀ actions : List Action,
      (∃ ids : List Nat, ids.Nodup ∧ (∀ id, id ∈ ids ↔ IsLive actions id) ∧
        (run actions).receiverCount = ids.length) ∧
      ((run actions).trigger.1 = true ↔ ∃ id, IsLive actions id)) ∧
    ∀ before after : List Action,
      let id := (run before).subscribe.1
      let actions := before ++ .subscribe :: after
      let answered := answersSince before after
      let n := outstanding before after
      let next := ((run actions).receive id).1
      let remaining := outstanding before (after ++ [.receive id])
      let quiet := before.filter (· ≠ .trigger)
      .unsubscribe id ∉ after →
        answered.count .signalled + (answered.map Reception.missed).sum + n =
          after.count .trigger ∧
        (n = 0 → HasCoordinator actions → next = some .empty ∧ remaining = 0) ∧
        (n = 1 → next = some .signalled ∧ remaining = 0) ∧
        (2 ≤ n → next = some (.lagged (n - 1)) ∧ remaining = 1) ∧
        (HasCoordinator actions → next ≠ some .closed) ∧
        (∀ earlier later, after = earlier ++ .trigger :: later → .receive id ∉ later →
          next = some .signalled ∨ ∃ overtaken, next = some (.lagged overtaken)) ∧
        (run quiet).subscribe.1 = id ∧ answersSince quiet after = answered := by
  refine ⟨fun actions => ⟨⟨(run actions).live, ?_, mem_live_run actions, ?_⟩, ?_⟩, ?_⟩
  · exact List.nodup_findIdxs
  · exact (length_live _).symm
  · rw [trigger_fst, ne_eq, List.eq_nil_iff_forall_not_mem, not_forall_not]
    exact exists_congr fun id => mem_live_run actions id
  · intro before after id actions answered n next remaining quiet hstays
    obtain ⟨hunread, haccount⟩ := unread?_since hstays
    have hnext : next = some (found (run actions).coordinators n) := by
      show ((run actions).receive id).1 = _
      rw [receive_fst, hunread, Option.map_some]
    have hremaining : remaining = left n := outstanding_receive hstays
    obtain ⟨hcoordinators, hnumber⟩ := run_without_triggers before
    refine ⟨haccount, fun hn hc => ?_, fun hn => ?_, fun hn => ?_, fun hc => ?_, ?_, hnumber, ?_⟩
    · rw [hnext, hremaining, hn, found, if_neg hc.coordinators_ne_zero]
      exact ⟨rfl, rfl⟩
    · rw [hnext, hremaining, hn]
      exact ⟨rfl, rfl⟩
    · obtain ⟨k, hk⟩ := Nat.exists_eq_add_of_le' hn
      rw [hnext, hremaining, hk]
      exact ⟨rfl, rfl⟩
    · rw [hnext]
      rcases n with _ | _ | k <;> simp [found, hc.coordinators_ne_zero]
    · rintro earlier later rfl hnot
      have hpos : 0 < n := outstanding_pos hstays hnot
      rw [hnext]
      match n, hpos with
      | 1, _ => exact Or.inl rfl
      | k + 2, _ => exact Or.inr ⟨k + 1, rfl⟩
    · have hquiet := unread?_new quiet
      rw [hnumber] at hquiet
      show answers (run quiet).subscribe.1 _ after = answers _ _ after
      rw [hnumber]
      refine answers_congr hquiet (unread?_new before) ?_ hstays
      rw [run_concat, run_concat, coordinators_act, coordinators_act, hcoordinators]

/-- Two subscribers; a signal from before the second one's subscription, three after it, and one
that is sent between its questions. -/
theorem no_signal_is_lost_with_two_subscribers :
    let before : List Action := [.subscribe, .trigger]
    let after : List Action := [.trigger, .receive 0, .trigger, .trigger, .receive 1, .trigger]
    answersSince before after = [.lagged 2] ∧ outstanding before after = 2 ∧
      ((run (before ++ .subscribe :: after)).receive 1).1 = some (.lagged 1) := by
  intro before after
  have hn : outstanding before after = 2 := by decide
  have hstays : .unsubscribe (run before).subscribe.1 ∉ after := by decide
  have hsince := no_signal_is_lost.2 before after hstays
  simp only [hn] at hsince
  obtain ⟨-, -, -, hlagged, -⟩ := hsince
  exact ⟨by decide, hn, (hlagged (Nat.le_refl 2)).1⟩

end Shutdown

end TopicRelay
