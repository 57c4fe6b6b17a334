import TopicRelay.Tracker
import TopicRelay.Proofs.Exchange.Turn
import Mathlib.Data.List.Induction
import Mathlib.Data.List.Infix
import Mathlib.Data.List.InsertIdx

/-!
# Guards and waits of a tracker

Guards are handed out and dropped, the clock moves, and waits for all exchanges to end are started,
in any order. `run` is the watch after all this. Two things are kept by every action: the count is
that of the guards (`IsCounted`), and each wait stands as its looks so far make it stand (`Stands`).
A look falls on the moment when the clock reaches it, before anything else happens in that
millisecond. `Reaches` says that the clock has just come to a moment, `FindsIdle` that no guard was
live then.

`counts_guards_and_answers_waits` is the main statement.
-/

namespace TopicRelay

namespace IdleWait

/-- A look changes nothing but the answer. -/
theorem look_eq (w : IdleWait) (now active : Nat) :
    w.look now active = { w with result := (w.look now active).result } := by
  unfold look
  repeat' split
  all_goals rfl

theorem look_of_answered {w : IdleWait} {b : Bool} (h : w.result = some b) (now active : Nat) :
    w.look now active = w := by
  rw [look, h]

end IdleWait

namespace Watch

/-- One thing that happens to a tracker. -/
inductive Action where
  /-- A guard is handed out. -/
  | track
  /-- A guard is dropped, if it is live. -/
  | drop (id : Nat)
  /-- A wait starts. -/
  | wait (limit : Nat)
  /-- A millisecond passes. -/
  | tick
deriving DecidableEq, Repr

/-- The watch after one more thing has happened. -/
def act (w : Watch) : Action → Watch
  | .track => w.track.2
  | .drop id => (w.drop id).2
  | .wait limit => w.wait limit
  | .tick => w.tick

/-- The watch of a fresh tracker after all this has happened. -/
def run (actions : List Action) : Watch := actions.foldl act {}

theorem run_concat (actions : List Action) (a : Action) :
    run (actions ++ [a]) = (run actions).act a :=
  List.foldl_append

theorem advance_run (actions : List Action) (ms : Nat) :
    (run actions).advance ms = run (actions ++ List.replicate ms .tick) := by
  induction ms generalizing actions with
  | zero => rw [List.replicate_zero, List.append_nil, advance]
  | succ ms ih =>
    have htick : (run actions).tick = run (actions ++ [.tick]) := (run_concat actions .tick).symm
    rw [advance, htick, ih, List.append_assoc, List.singleton_append, ← List.replicate_succ]

/-! ## The count -/

/-- A guard was handed out and has not been dropped since. -/
def IsLive (actions : List Action) (id : Nat) : Prop :=
  ∃ before after, actions = before ++ .track :: after ∧ (run before).track.1 = id ∧
    .drop id ∉ after

/-- The guards have distinct numbers below the next one, and they are counted. -/
structure IsCounted (w : Watch) : Prop where
  active_eq : w.tracker.active = w.guards.length
  nodup : w.guards.Nodup
  lt_nextId : ∀ id ∈ w.guards, id < w.tracker.nextId

theorem drop_of_mem {w : Watch} {id : Nat} (h : id ∈ w.guards) :
    w.drop id = (true, { w with
      tracker := { w.tracker with active := w.tracker.active - 1 }
      metrics := w.metrics.setActive (w.tracker.active - 1)
      guards := w.guards.erase id }) := by
  rw [drop, if_pos h]
  rfl

theorem drop_of_not_mem {w : Watch} {id : Nat} (h : id ∉ w.guards) : w.drop id = (false, w) := by
  rw [drop, if_neg h]

/-- A drop changes neither the clock nor the waits nor the numbers. -/
theorem drop_keeps (w : Watch) (id : Nat) : (w.drop id).2.now = w.now ∧
    (w.drop id).2.waits = w.waits ∧ (w.drop id).2.tracker.nextId = w.tracker.nextId := by
  by_cases hid : id ∈ w.guards
  · rw [drop_of_mem hid]
    exact ⟨rfl, rfl, rfl⟩
  · rw [drop_of_not_mem hid]
    exact ⟨rfl, rfl, rfl⟩

theorem IsCounted.act {w : Watch} (h : w.IsCounted) (a : Action) : (w.act a).IsCounted := by
  cases a with
  | track =>
    refine ⟨?_, ?_, fun id hid => ?_⟩
    · show w.tracker.active + 1 = (w.guards ++ [w.tracker.nextId]).length
      rw [List.length_append, List.length_singleton, h.active_eq]
    · refine List.nodup_append.2 ⟨h.nodup, List.pairwise_singleton _ _, fun old hold new hnew => ?_⟩
      rw [List.mem_singleton.1 hnew]
      exact Nat.ne_of_lt (h.lt_nextId old hold)
    · rcases List.mem_append.1 hid with hold | hnew
      · exact Nat.lt_succ_of_lt (h.lt_nextId id hold)
      · rw [List.mem_singleton.1 hnew]
        exact Nat.lt_succ_self _
  | drop id =>
    show (w.drop id).2.IsCounted
    by_cases hid : id ∈ w.guards
    · rw [drop_of_mem hid]
      refine ⟨?_, h.nodup.erase id, fun other hother =>
        h.lt_nextId other (List.mem_of_mem_erase hother)⟩
      show w.tracker.active - 1 = (w.guards.erase id).length
      rw [List.length_erase_of_mem hid, h.active_eq]
    · rw [drop_of_not_mem hid]
      exact h
  | wait limit => exact ⟨h.active_eq, h.nodup, h.lt_nextId⟩
  | tick => exact ⟨h.active_eq, h.nodup, h.lt_nextId⟩

theorem isCounted_run (actions : List Action) : (run actions).IsCounted := by
  induction actions using List.reverseRecOn with
  | nil => exact ⟨rfl, List.nodup_nil, fun _ hid => absurd hid List.not_mem_nil⟩
  | append_singleton actions a ih =>
    rw [run_concat]
    exact ih.act a

theorem IsCounted.active_drop {w : Watch} (h : w.IsCounted) {id : Nat} (hid : id ∈ w.guards) :
    (w.drop id).2.tracker.active + 1 = w.tracker.active := by
  have hpos : 0 < w.tracker.active := by
    rw [h.active_eq]
    exact List.length_pos_of_mem hid
  rw [drop_of_mem hid]
  exact Nat.sub_add_cancel hpos

theorem IsCounted.active_eq_zero_iff {w : Watch} (h : w.IsCounted) :
    w.tracker.active = 0 ↔ w.guards = [] := by
  rw [h.active_eq, List.length_eq_zero_iff]

theorem mem_guards_act {w : Watch} (h : w.IsCounted) (a : Action) (id : Nat) :
    id ∈ (w.act a).guards ↔ a = .track ∧ w.track.1 = id ∨ id ∈ w.guards ∧ a ≠ .drop id := by
  cases a with
  | track =>
    show id ∈ w.guards ++ [w.track.1] ↔ _
    simp [or_comm, eq_comm]
  | drop other =>
    show id ∈ (w.drop other).2.guards ↔ _
    by_cases hother : other ∈ w.guards
    · rw [drop_of_mem hother]
      show id ∈ w.guards.erase other ↔ _
      rw [h.nodup.mem_erase_iff]
      simp [and_comm, eq_comm]
    · rw [drop_of_not_mem hother]
      have hne (hid : id ∈ w.guards) : other ≠ id := fun heq => hother (heq ▸ hid)
      simpa using hne
  | _ => simp [Watch.act, wait, tick]

theorem isLive_concat (actions : List Action) (a : Action) (id : Nat) :
    IsLive (actions ++ [a]) id ↔
      a = .track ∧ (run actions).track.1 = id ∨ IsLive actions id ∧ a ≠ .drop id := by
  constructor
  · rintro ⟨before, after, hsplit, hid, hdrop⟩
    rcases List.eq_nil_or_concat after with rfl | ⟨after, b, rfl⟩
    · obtain ⟨rfl, hlast⟩ := List.append_inj' hsplit rfl
      exact Or.inl ⟨List.singleton_inj.1 hlast, hid⟩
    · rw [List.concat_eq_append, ← List.cons_append, ← List.append_assoc] at hsplit
      obtain ⟨rfl, hlast⟩ := List.append_inj' hsplit rfl
      obtain rfl := List.singleton_inj.1 hlast
      rw [List.concat_eq_append, List.mem_append, List.mem_singleton, not_or] at hdrop
      exact Or.inr ⟨⟨before, after, rfl, hid, hdrop.1⟩, Ne.symm hdrop.2⟩
  · rintro (⟨rfl, hid⟩ | ⟨⟨before, after, rfl, hid, hdrop⟩, hne⟩)
    · exact ⟨actions, [], rfl, hid, List.not_mem_nil⟩
    · refine ⟨before, after ++ [a], List.append_assoc _ _ _, hid, ?_⟩
      rw [List.mem_append, List.mem_singleton, not_or]
      exact ⟨hdrop, Ne.symm hne⟩

theorem mem_guards_run (actions : List Action) (id : Nat) :
    id ∈ (run actions).guards ↔ IsLive actions id := by
  induction actions using List.reverseRecOn with
  | nil =>
    refine iff_of_false List.not_mem_nil ?_
    rintro ⟨before, after, hsplit, -⟩
    simp at hsplit
  | append_singleton actions a ih =>
    rw [run_concat, mem_guards_act (isCounted_run actions), isLive_concat, ih]

/-- The count is recorded from the first guard on. -/
theorem recorded_run (actions : List Action) :
    (run actions).metrics.get? .activeExchanges =
      if .track ∈ actions then some (run actions).tracker.active else none := by
  induction actions using List.reverseRecOn with
  | nil => rfl
  | append_singleton actions a ih =>
    rw [run_concat]
    cases a with
    | track =>
      rw [if_pos (by simp)]
      exact Metrics.active_setActive _ _
    | drop id =>
      simp only [List.mem_append, List.mem_singleton, reduceCtorEq, or_false]
      show (((run actions).drop id).2.metrics.get? _) =
        if _ then some ((run actions).drop id).2.tracker.active else _
      by_cases hid : id ∈ (run actions).guards
      · obtain ⟨before, after, hsplit, -⟩ := (mem_guards_run actions id).1 hid
        rw [drop_of_mem hid, if_pos (by simp [hsplit])]
        exact Metrics.active_setActive _ _
      · rw [drop_of_not_mem hid]
        exact ih
    | _ =>
      simp only [List.mem_append, List.mem_singleton, reduceCtorEq, or_false]
      exact ih

theorem nextId_le_act (w : Watch) (a : Action) : w.tracker.nextId ≤ (w.act a).tracker.nextId := by
  cases a with
  | track => exact Nat.le_succ _
  | drop id => exact Nat.le_of_eq (w.drop_keeps id).2.2.symm
  | _ => exact Nat.le_refl _

/-- A guard that is handed out later has a greater number. -/
theorem track_lt_track (actions between : List Action) :
    (run actions).track.1 < (run (actions ++ .track :: between)).track.1 := by
  induction between using List.reverseRecOn with
  | nil =>
    rw [run_concat]
    exact Nat.lt_succ_self _
  | append_singleton between a ih =>
    rw [← List.cons_append, ← List.append_assoc, run_concat]
    exact Nat.lt_of_lt_of_le ih (nextId_le_act _ a)

/-! ## The clock -/

theorem now_act (w : Watch) (a : Action) :
    (w.act a).now = if a = .tick then w.now + 1 else w.now := by
  cases a with
  | drop id => exact (w.drop_keeps id).1
  | _ => rfl

theorem now_run_le (actions more : List Action) :
    (run actions).now ≤ (run (actions ++ more)).now := by
  induction more using List.reverseRecOn with
  | nil => exact Nat.le_of_eq (by rw [List.append_nil])
  | append_singleton more a ih =>
    rw [← List.append_assoc, run_concat, now_act]
    split
    · exact Nat.le_succ_of_le ih
    · exact ih

/-! ## One wait among others -/

/-- A wait as it stands after an action. -/
theorem getElem?_waits_act {w : Watch} {i : Nat} {wait : IdleWait} (h : w.waits[i]? = some wait)
    (a : Action) : (w.act a).waits[i]? =
      some (if a = .tick then wait.look (w.now + 1) w.tracker.active else wait) := by
  cases a with
  | track => exact h
  | drop id =>
    show (w.drop id).2.waits[i]? = _
    rw [(w.drop_keeps id).2.1]
    exact h
  | wait limit =>
    show (w.waits ++ [_])[i]? = _
    rw [List.getElem?_append_left (List.getElem?_eq_some_iff.1 h).1]
    exact h
  | tick =>
    show (w.waits.map _)[i]? = _
    rw [List.getElem?_map, h]
    rfl

/-- The watch as it is without one of its waits. -/
def without (w : Watch) (i : Nat) : Watch := { w with waits := w.waits.eraseIdx i }

theorem act_without {w : Watch} {i : Nat} (hi : i < w.waits.length) (a : Action) :
    (w.without i).act a = (w.act a).without i := by
  cases a with
  | track => rfl
  | drop id =>
    show ((w.without i).drop id).2 = (w.drop id).2.without i
    by_cases hid : id ∈ w.guards
    · rw [drop_of_mem hid, drop_of_mem (w := w.without i) hid]
      rfl
    · rw [drop_of_not_mem hid, drop_of_not_mem (w := w.without i) hid]
  | wait limit =>
    exact congrArg (fun waits => { w with waits }) (List.eraseIdx_append_of_lt_length hi _).symm
  | tick =>
    exact congrArg (fun waits => { w with now := w.now + 1, waits }) (List.eraseIdx_map _ _ _).symm

section
variable (before : List Action) (limit : Nat)

/-- The watch after a wait has started and all this has happened since. -/
def since (after : List Action) : Watch := run (before ++ .wait limit :: after)

/-- The answer of the wait: some answer, or none yet. -/
def answer? (after : List Action) : Option (Option Bool) :=
  (since before limit after).waits[(run before).waits.length]?.map IdleWait.result

/-- The clock has just come to a moment: the wait has started now, or a millisecond has passed and
nothing has happened after it. -/
structure Reaches (after : List Action) (moment : Nat) : Prop where
  now_eq : (since before limit after).now = moment
  isFirst : after = [] ∨ ∃ earlier, after = earlier ++ [.tick]

/-- When the clock came to this moment, no guard was live. -/
def FindsIdle (after : List Action) (moment : Nat) : Prop :=
  ∃ part, part <+: after ∧ Reaches before limit part moment ∧ (since before limit part).guards = []

/-- The wait gave this answer when the clock came to this moment, and none before. -/
def AnswersAt (after : List Action) (moment : Nat) (answer : Bool) : Prop :=
  ∃ part, part <+: after ∧ Reaches before limit part moment ∧
    answer? before limit part = some (some answer) ∧
    ∀ earlier, earlier <+: part → earlier ≠ part → answer? before limit earlier = some none

/-- One of the looks of the wait, which come at the start and at intervals up to the limit, found
that no guard was live. -/
def HasSeenIdle (after : List Action) : Prop :=
  ∃ k, IdleWait.interval * k ≤ limit ∧
    FindsIdle before limit after ((run before).now + IdleWait.interval * k)

/-- How the wait stands. -/
inductive Stands (after : List Action) : Option Bool → Prop
  | idle (hseen : HasSeenIdle before limit after) : Stands after (some true)
  | late (hbusy : ¬ HasSeenIdle before limit after)
      (hlate : (run before).now + limit ≤ (since before limit after).now) :
      Stands after (some false)
  | pending (hbusy : ¬ HasSeenIdle before limit after)
      (hearly : (since before limit after).now < (run before).now + limit) : Stands after none

end

section
variable {before : List Action} {limit : Nat} {after : List Action}

theorem since_nil : since before limit [] = (run before).wait limit :=
  run_concat before (.wait limit)

theorem since_concat (after : List Action) (a : Action) :
    since before limit (after ++ [a]) = (since before limit after).act a := by
  rw [since, since, ← run_concat, List.append_assoc, List.cons_append]

theorem start_le_now (after : List Action) : (run before).now ≤ (since before limit after).now :=
  now_run_le before _

theorem now_since_le {part : List Action} (h : part <+: after) :
    (since before limit part).now ≤ (since before limit after).now := by
  obtain ⟨rest, rfl⟩ := h
  rw [since, since, ← List.cons_append, ← List.append_assoc]
  exact now_run_le _ rest

/-- The clock comes to a moment only once. -/
theorem Reaches.now_lt {moment : Nat} (h : Reaches before limit after moment) {part : List Action}
    (hpart : part <+: after) (hne : part ≠ after) : (since before limit part).now < moment := by
  obtain ⟨hnow, rfl | ⟨earlier, rfl⟩⟩ := h
  · exact absurd (List.prefix_nil.1 hpart) hne
  · have hearlier : part <+: earlier := (List.prefix_concat_iff.1 hpart).resolve_left hne
    rw [since_concat, now_act, if_pos rfl] at hnow
    have hle : (since before limit part).now ≤ (since before limit earlier).now :=
      now_since_le hearlier
    omega

/-- The clock comes to every moment. -/
theorem exists_reaches {moment : Nat} (hstart : (run before).now ≤ moment)
    (hnow : moment ≤ (since before limit after).now) :
    ∃ part, part <+: after ∧ Reaches before limit part moment := by
  induction after using List.reverseRecOn with
  | nil =>
    rw [since_nil] at hnow
    refine ⟨[], List.nil_prefix, ?_, Or.inl rfl⟩
    rw [since_nil]
    exact Nat.le_antisymm hstart hnow
  | append_singleton after a ih =>
    by_cases hle : moment ≤ (since before limit after).now
    · obtain ⟨part, hpart, hreaches⟩ := ih hle
      exact ⟨part, hpart.trans (List.prefix_append _ _), hreaches⟩
    · rw [since_concat, now_act] at hnow
      split at hnow
      · rename_i htick
        subst htick
        refine ⟨after ++ [.tick], List.prefix_refl _, ?_, Or.inr ⟨after, rfl⟩⟩
        rw [since_concat, now_act, if_pos rfl]
        omega
      · exact absurd hnow hle

theorem findsIdle_nil (moment : Nat) :
    FindsIdle before limit [] moment ↔
      moment = (since before limit []).now ∧ (since before limit []).guards = [] := by
  constructor
  · rintro ⟨part, hpart, hreaches, hidle⟩
    obtain rfl := List.prefix_nil.1 hpart
    exact ⟨hreaches.now_eq.symm, hidle⟩
  · rintro ⟨rfl, hidle⟩
    exact ⟨[], List.nil_prefix, ⟨rfl, Or.inl rfl⟩, hidle⟩

theorem FindsIdle.mono {moment : Nat} {longer : List Action}
    (h : FindsIdle before limit after moment) (hlonger : after <+: longer) :
    FindsIdle before limit longer moment := by
  obtain ⟨part, hpart, hreaches⟩ := h
  exact ⟨part, hpart.trans hlonger, hreaches⟩

theorem findsIdle_concat (a : Action) (moment : Nat) :
    FindsIdle before limit (after ++ [a]) moment ↔ FindsIdle before limit after moment ∨
      a = .tick ∧ moment = (since before limit (after ++ [a])).now ∧
        (since before limit (after ++ [a])).guards = [] := by
  constructor
  · rintro ⟨part, hpart, hreaches, hidle⟩
    rcases List.prefix_concat_iff.1 hpart with rfl | hbefore
    · obtain ⟨hnow, hnil | ⟨earlier, hsplit⟩⟩ := hreaches
      · exact absurd hnil (List.append_ne_nil_of_right_ne_nil _ (List.cons_ne_nil _ _))
      · exact Or.inr ⟨List.singleton_inj.1 (List.append_inj' hsplit rfl).2, hnow.symm, hidle⟩
    · exact Or.inl ⟨part, hbefore, hreaches, hidle⟩
  · rintro (hbefore | ⟨rfl, rfl, hidle⟩)
    · exact hbefore.mono (List.prefix_append _ _)
    · exact ⟨_, List.prefix_refl _, ⟨rfl, Or.inr ⟨after, rfl⟩⟩, hidle⟩

theorem FindsIdle.le {moment : Nat} (h : FindsIdle before limit after moment) :
    moment ≤ (since before limit after).now := by
  obtain ⟨part, hpart, hreaches, -⟩ := h
  rw [← hreaches.now_eq]
  exact now_since_le hpart

/-- What a look has found does not change afterwards. -/
theorem FindsIdle.of_le {moment : Nat} {longer : List Action}
    (h : FindsIdle before limit longer moment) (hlonger : after <+: longer)
    (hle : moment ≤ (since before limit after).now) : FindsIdle before limit after moment := by
  obtain ⟨part, hpart, hreaches, hidle⟩ := h
  rcases List.prefix_or_prefix_of_prefix hpart hlonger with hshort | hlong
  · exact ⟨part, hshort, hreaches, hidle⟩
  · -- A part that went on behind `after` would have come to a later moment.
    obtain rfl : after = part := by
      by_contra hne
      exact absurd (hreaches.now_lt hlong hne) (Nat.not_lt_of_le hle)
    exact ⟨after, List.prefix_refl _, hreaches, hidle⟩

theorem HasSeenIdle.mono (h : HasSeenIdle before limit after) {longer : List Action}
    (hlonger : after <+: longer) : HasSeenIdle before limit longer := by
  obtain ⟨k, hk, hidle⟩ := h
  exact ⟨k, hk, hidle.mono hlonger⟩

theorem Stands.unique {r r' : Option Bool} (h : Stands before limit after r)
    (h' : Stands before limit after r') : r = r' := by
  cases h with
  | idle hseen =>
    cases h' with
    | idle => rfl
    | late hbusy => exact absurd hseen hbusy
    | pending hbusy => exact absurd hseen hbusy
  | late hbusy hlate =>
    cases h' with
    | idle hseen => exact absurd hseen hbusy
    | late => rfl
    | pending _ hearly => exact absurd hearly (Nat.not_lt_of_le hlate)
  | pending hbusy hearly =>
    cases h' with
    | idle hseen => exact absurd hseen hbusy
    | late _ hlate => exact absurd hearly (Nat.not_lt_of_le hlate)
    | pending => rfl

/-- An answer is final. -/
theorem Stands.mono {answer : Bool} (h : Stands before limit after (some answer))
    {longer : List Action} (hlonger : after <+: longer) :
    Stands before limit longer (some answer) := by
  cases h with
  | idle hseen => exact .idle (hseen.mono hlonger)
  | late hbusy hlate =>
    refine .late ?_ (Nat.le_trans hlate (now_since_le hlonger))
    rintro ⟨k, hk, hfound⟩
    exact hbusy ⟨k, hk, hfound.of_le hlonger (by omega)⟩

/-- A look of a wait that has not answered, at a moment that the clock has just reached. -/
theorem Stands.look
    (hlooks : ∀ k, IdleWait.interval * k ≤ limit →
      (FindsIdle before limit after ((run before).now + IdleWait.interval * k) ↔
        (run before).now + IdleWait.interval * k = (since before limit after).now ∧
          (since before limit after).guards = []))
    (hlimit : (since before limit after).now ≤ (run before).now + limit) :
    Stands before limit after (IdleWait.look ⟨(run before).now, limit, none⟩
      (since before limit after).now (since before limit after).tracker.active).result := by
  have hstart : (run before).now ≤ (since before limit after).now := start_le_now after
  have hcount : (since before limit after).tracker.active = 0 ↔
      (since before limit after).guards = [] := (isCounted_run _).active_eq_zero_iff
  simp only [IdleWait.look]
  split
  · rename_i hidle
    have hdue := Nat.mul_div_cancel' (Nat.dvd_of_mod_eq_zero hidle.1)
    have hle : IdleWait.interval * (((since before limit after).now - (run before).now) /
        IdleWait.interval) ≤ limit := by
      omega
    refine .idle ⟨_, hle, (hlooks _ hle).2 ⟨?_, hcount.1 hidle.2⟩⟩
    omega
  · rename_i hnot
    have hbusy : ¬ HasSeenIdle before limit after := by
      rintro ⟨k, hk, hfound⟩
      obtain ⟨hnow, hguards⟩ := (hlooks k hk).1 hfound
      refine hnot ⟨?_, hcount.2 hguards⟩
      rw [← hnow, Nat.add_sub_cancel_left]
      exact Nat.mul_mod_right _ _
    split
    · rename_i hlate
      exact .late hbusy (by omega)
    · rename_i hearly
      exact .pending hbusy (by omega)

theorem Stands.tick {result : Option Bool} (h : Stands before limit after result) :
    Stands before limit (after ++ [.tick]) (IdleWait.look ⟨(run before).now, limit, result⟩
      ((since before limit after).now + 1) (since before limit after).tracker.active).result := by
  have hnow : (since before limit (after ++ [.tick])).now = (since before limit after).now + 1 := by
    rw [since_concat]
    rfl
  have hactive : (since before limit (after ++ [.tick])).tracker.active =
      (since before limit after).tracker.active := by
    rw [since_concat]
    rfl
  cases h with
  | idle hseen =>
    rw [IdleWait.look_of_answered rfl]
    exact (Stands.idle hseen).mono (List.prefix_append _ _)
  | late hbusy hlate =>
    rw [IdleWait.look_of_answered rfl]
    exact (Stands.late hbusy hlate).mono (List.prefix_append _ _)
  | pending hbusy hearly =>
    -- The only moment that is new to its looks is the one that the clock has reached now.
    rw [← hnow, ← hactive]
    refine Stands.look (fun k hk => ?_) (by omega)
    rw [findsIdle_concat, or_iff_right fun hbefore => hbusy ⟨k, hk, hbefore⟩]
    exact and_iff_right rfl

theorem Stands.of_ne_tick {result : Option Bool} (h : Stands before limit after result) {a : Action}
    (ha : a ≠ .tick) : Stands before limit (after ++ [a]) result := by
  have hnow : (since before limit (after ++ [a])).now = (since before limit after).now := by
    rw [since_concat, now_act, if_neg ha]
  have hseen : HasSeenIdle before limit (after ++ [a]) ↔ HasSeenIdle before limit after := by
    refine exists_congr fun k => and_congr_right fun _ => ?_
    rw [findsIdle_concat, or_iff_left fun htick => ha htick.1]
  cases h with
  | idle h => exact .idle (hseen.2 h)
  | late hbusy hlate => exact .late (hseen.not.2 hbusy) (hnow ▸ hlate)
  | pending hbusy hearly => exact .pending (hseen.not.2 hbusy) (hnow ▸ hearly)

/-- The wait stands as its looks make it stand, whatever happens and whatever other waits there
are. -/
theorem exists_stands (before : List Action) (limit : Nat) (after : List Action) :
    ∃ result, (since before limit after).waits[(run before).waits.length]? =
        some ⟨(run before).now, limit, result⟩ ∧ Stands before limit after result := by
  induction after using List.reverseRecOn with
  | nil =>
    have hfirst : Stands before limit [] (IdleWait.look ⟨(run before).now, limit, none⟩
        (since before limit []).now (since before limit []).tracker.active).result := by
      refine Stands.look (fun k _ => findsIdle_nil _) ?_
      rw [since_nil]
      exact Nat.le_add_right _ _
    refine ⟨_, ?_, hfirst⟩
    rw [since_nil]
    exact List.getElem?_concat_length.trans (congrArg some (IdleWait.look_eq _ _ _))
  | append_singleton after a ih =>
    obtain ⟨result, hwait, hstands⟩ := ih
    have hnext := getElem?_waits_act hwait a
    rw [← since_concat] at hnext
    by_cases ha : a = .tick
    · rw [if_pos ha, IdleWait.look_eq] at hnext
      exact ⟨_, hnext, ha ▸ hstands.tick⟩
    · rw [if_neg ha] at hnext
      exact ⟨result, hnext, hstands.of_ne_tick ha⟩

theorem answer?_eq_some_iff {result : Option Bool} :
    answer? before limit after = some result ↔ Stands before limit after result := by
  obtain ⟨found, hwait, hstands⟩ := exists_stands before limit after
  rw [answer?, hwait, Option.map_some, Option.some_inj]
  constructor
  · rintro rfl
    exact hstands
  · exact hstands.unique

/-- The wait answers with the first look that finds no live guard. -/
theorem answersAt_of_findsIdle {k : Nat} (hk : IdleWait.interval * k ≤ limit)
    (hidle : FindsIdle before limit after ((run before).now + IdleWait.interval * k))
    (hfirst : ∀ j < k,
      ¬ FindsIdle before limit after ((run before).now + IdleWait.interval * j)) :
    AnswersAt before limit after ((run before).now + IdleWait.interval * k) true := by
  obtain ⟨part, hpart, hreaches, hguards⟩ := hidle
  have hseen : HasSeenIdle before limit part := ⟨k, hk, part, List.prefix_refl _, hreaches, hguards⟩
  refine ⟨part, hpart, hreaches, answer?_eq_some_iff.2 (.idle hseen),
    fun earlier hearlier hne => ?_⟩
  have hnow := hreaches.now_lt hearlier hne
  refine answer?_eq_some_iff.2 (.pending ?_ (by omega))
  rintro ⟨j, -, hfound⟩
  have hlt : IdleWait.interval * j < IdleWait.interval * k := by
    have hle := hfound.le
    omega
  exact hfirst j (Nat.lt_of_mul_lt_mul_left hlt) (hfound.mono (hearlier.trans hpart))

/-- The wait answers at the limit if no look has found this. -/
theorem answersAt_of_not_hasSeenIdle (hbusy : ¬ HasSeenIdle before limit after)
    (hlate : (run before).now + limit ≤ (since before limit after).now) :
    AnswersAt before limit after ((run before).now + limit) false := by
  obtain ⟨part, hpart, hreaches⟩ := exists_reaches (Nat.le_add_right _ _) hlate
  have hnone {p : List Action} (hp : p <+: part) : ¬ HasSeenIdle before limit p := fun hseen =>
    hbusy (hseen.mono (hp.trans hpart))
  refine ⟨part, hpart, hreaches, ?_, fun earlier hearlier hne => ?_⟩
  · have hlate := Nat.le_of_eq hreaches.now_eq.symm
    exact answer?_eq_some_iff.2 (.late (hnone (List.prefix_refl _)) hlate)
  · exact answer?_eq_some_iff.2 (.pending (hnone hearlier) (hreaches.now_lt hearlier hne))

/-- A wait leaves no trace in anything else. -/
theorem without_since (before : List Action) (limit : Nat) (after : List Action) :
    (since before limit after).without (run before).waits.length = run (before ++ after) := by
  induction after using List.reverseRecOn with
  | nil =>
    have hwaits (wait : IdleWait) :
        ((run before).waits ++ [wait]).eraseIdx (run before).waits.length = (run before).waits := by
      rw [List.eraseIdx_append_of_length_le (Nat.le_refl _), Nat.sub_self]
      exact List.append_nil _
    rw [since_nil, List.append_nil]
    exact congrArg (fun waits => { run before with waits }) (hwaits _)
  | append_singleton after a ih =>
    obtain ⟨_, hwait, -⟩ := exists_stands before limit after
    rw [since_concat, ← act_without (List.getElem?_eq_some_iff.1 hwait).1, ih, ← run_concat,
      List.append_assoc]

end

/-- **A tracker counts its guards, and its waits answer when they see none.** Whatever happens, the
count is that of the guards which were handed out and have not been dropped, each with a number of
its own that is greater than those before it. To drop one takes one from the count. From the first
guard on the count is recorded.

A wait looks when it starts and every 25 milliseconds up to its limit. It answers with the first
look that finds no live guard when the clock has come to it; if there is none, it answers at the
limit. It does not answer before and keeps its answer. What happens without the wait is the same in
everything else: the clock, the guards, the count and all other waits. -/
theorem counts_guards_and_answers_waits :
    (∀ actions : List Action,
      let w := run actions
      (∀ ms, w.advance ms = run (actions ++ List.replicate ms .tick)) ∧
      w.guards.Nodup ∧ (∀ id, id ∈ w.guards ↔ IsLive actions id) ∧
      w.tracker.active = w.guards.length ∧
      (∀ id ∈ w.guards, (w.drop id).2.tracker.active + 1 = w.tracker.active) ∧
      w.metrics.get? .activeExchanges =
        (if .track ∈ actions then some w.tracker.active else none) ∧
      ∀ between, w.track.1 < (run (actions ++ .track :: between)).track.1) ∧
    ∀ (before : List Action) (limit : Nat) (after : List Action),
      let start := (run before).now
      let now := (since before limit after).now
      let isIdle k := FindsIdle before limit after (start + 25 * k)
      (since before limit after).without (run before).waits.length = run (before ++ after) ∧
      (∀ answer more, answer? before limit after = some (some answer) →
        answer? before limit (after ++ more) = some (some answer)) ∧
      (∀ k, 25 * k ≤ limit → isIdle k → (∀ j < k, ¬ isIdle j) →
        AnswersAt before limit after (start + 25 * k) true) ∧
      ((∀ k, 25 * k ≤ limit → ¬ isIdle k) →
        (start + limit ≤ now → AnswersAt before limit after (start + limit) false) ∧
        (now < start + limit → answer? before limit after = some none)) := by
  refine ⟨fun actions => ?_, fun before limit after => ?_⟩
  · have hcounted := isCounted_run actions
    exact ⟨advance_run actions, hcounted.nodup, mem_guards_run actions, hcounted.active_eq,
      fun _ hid => hcounted.active_drop hid, recorded_run actions, track_lt_track actions⟩
  · refine ⟨without_since before limit after, fun answer more hanswer => ?_,
      fun k hk hidle hfirst => answersAt_of_findsIdle hk hidle hfirst, fun hbusy => ?_⟩
    · have hstands := answer?_eq_some_iff.1 hanswer
      exact answer?_eq_some_iff.2 (hstands.mono (List.prefix_append _ _))
    · have hbusy : ¬ HasSeenIdle before limit after := fun ⟨k, hk, hidle⟩ => hbusy k hk hidle
      exact ⟨answersAt_of_not_hasSeenIdle hbusy,
        fun hearly => answer?_eq_some_iff.2 (.pending hbusy hearly)⟩

/-- The only guard is dropped within the millisecond of the look at 25, after it. A wait up to the
next look sees this at its limit, where the look comes first. The limit of a wait that is shorter by
a millisecond comes before that look. -/
theorem counts_guards_and_answers_waits_at_limit :
    let after : List Action := List.replicate 25 .tick ++ .drop 0 :: List.replicate 25 .tick
    AnswersAt [.track] 50 after 50 true ∧ AnswersAt [.track] 49 after 49 false := by
  intro after
  have hparts : ∀ limit ∈ [49, 50], ∀ k < 2, ∀ part ∈ after.inits,
      (since [.track] limit part).now = 25 * k → (part = [] ∨ part.getLast? = some .tick) →
        (since [.track] limit part).guards ≠ [] := by
    decide +kernel
  have hbusy (limit : Nat) (hlimit : limit ∈ [49, 50]) (k : Nat) (hk : k < 2) :
      ¬ FindsIdle [.track] limit after ((run [.track]).now + 25 * k) := by
    rintro ⟨part, hpart, ⟨hnow, hlast⟩, hidle⟩
    refine hparts limit hlimit k hk part ((List.mem_inits _ _).2 hpart) ?_ ?_ hidle
    · exact hnow.trans (Nat.zero_add _)
    · refine hlast.imp_right ?_
      rintro ⟨earlier, rfl⟩
      exact List.getLast?_concat
  have hsplit : after =
      (List.replicate 25 .tick ++ .drop 0 :: List.replicate 24 .tick) ++ [.tick] := by
    decide
  have hlook : FindsIdle [.track] 50 after ((run [.track]).now + 25 * 2) :=
    ⟨after, List.prefix_refl _, ⟨by decide +kernel, Or.inr ⟨_, hsplit⟩⟩, by decide +kernel⟩
  obtain ⟨-, -, hidle, -⟩ := counts_guards_and_answers_waits.2 [.track] 50 after
  obtain ⟨-, -, -, hnone⟩ := counts_guards_and_answers_waits.2 [.track] 49 after
  refine ⟨hidle 2 (by decide) hlook (hbusy 50 (by decide)), (hnone fun k hk => ?_).1 ?_⟩
  · exact hbusy 49 (by decide) k (by omega)
  · decide +kernel

end Watch

end TopicRelay
