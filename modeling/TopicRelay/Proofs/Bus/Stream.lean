import TopicRelay.Bus.Stream

/-!
# A writer that fails

A bus on a stream whose writer takes only so many bytes. Publications are accepted for as long as
their lines fit. Of the first line that does not fit the writer takes what it still can, and nothing
after that, so none of the publications behind it is accepted either, however short its line is
(`StreamBus.publishAll_of_full`). What is written is the text of all lines up to the bound
(`StreamBus.publishes_what_fits`).
-/

namespace TopicRelay

/-- Offers publications one after the other: the answers of the bus, and the bus after them. -/
def MessageBus.publishAll {β : Type} [MessageBus β] (bus : β) :
    List Publication → List (Except BusError Unit) × β
  | [] => ([], bus)
  | p :: ps =>
    let (answer, bus) := publish bus p
    let (answers, bus) := publishAll bus ps
    (answer :: answers, bus)

namespace Wire

/-- The lines of publications, one after the other. -/
def encodeAll (ps : List Publication) : Bytes := (ps.map encode).flatten

theorem encodeAll_cons (p : Publication) (ps : List Publication) :
    encodeAll (p :: ps) = encode p ++ encodeAll ps := rfl

theorem encodeAll_append (ps qs : List Publication) :
    encodeAll (ps ++ qs) = encodeAll ps ++ encodeAll qs := by
  rw [encodeAll, List.map_append, List.flatten_append, encodeAll, encodeAll]

theorem length_encode_pos (p : Publication) : 0 < (encode p).length :=
  List.length_pos_iff.2 (List.append_ne_nil_of_right_ne_nil _ (List.cons_ne_nil _ _))

/-- The text up to a publication, with its line. -/
theorem encodeAll_take_succ {ps : List Publication} {i : Nat} {p : Publication}
    (h : ps[i]? = some p) : encodeAll (ps.take (i + 1)) = encodeAll (ps.take i) ++ encode p := by
  rw [List.take_add_one, h, encodeAll_append, Option.toList_some, encodeAll_cons]
  exact congrArg _ (List.append_nil _)

/-- More publications have a longer text. -/
theorem length_encodeAll_take_le {i j : Nat} (h : i ≤ j) (ps : List Publication) :
    (encodeAll (ps.take i)).length ≤ (encodeAll (ps.take j)).length := by
  obtain ⟨more, hmore⟩ := List.take_prefix_take_left h (l := ps)
  rw [← hmore, encodeAll_append, List.length_append]
  exact Nat.le_add_right _ _

end Wire

namespace Writer

/-- The writer, with room for so many bytes. -/
def withRoom (w : Writer) (room : Nat) : Writer := { w with room := some room }

theorem written_withRoom (w : Writer) (room : Nat) : (w.withRoom room).written = w.written := rfl

theorem written_append (w : Writer) (b : Bytes) : (w.append b).written = w.written ++ b := by
  rw [written, append, List.reverse_append, List.reverse_reverse, written]

theorem append_append (w : Writer) (a b : Bytes) : (w.append a).append b = w.append (a ++ b) := by
  simp only [append, List.reverse_append, List.append_assoc]

end Writer

namespace StreamBus

open Wire
open MessageBus (publishAll)

variable {w : Writer} {room : Nat} {p : Publication}

theorem publish_of_le (h : (encode p).length ≤ room) :
    MessageBus.publish (StreamBus.mk (w.withRoom room)) p =
      (.ok (), ⟨(w.append (encode p)).withRoom (room - (encode p).length)⟩) := by
  show StreamBus.publish _ p = _
  simp only [publish, Writer.writeAll, Writer.withRoom, if_pos h]
  rfl

theorem publish_of_lt (h : room < (encode p).length) :
    MessageBus.publish (StreamBus.mk (w.withRoom room)) p =
      (.error (.transport w.fault), ⟨(w.append ((encode p).take room)).withRoom 0⟩) := by
  show StreamBus.publish _ p = _
  simp only [publish, Writer.writeAll, Writer.withRoom, if_neg (Nat.not_le.2 h)]
  rfl

/-- A writer without a bound takes every line. -/
theorem publishAll_of_unbounded (h : w.room = none) (ps : List Publication) :
    publishAll (StreamBus.mk w) ps =
      (List.replicate ps.length (.ok ()), ⟨w.append (encodeAll ps)⟩) := by
  induction ps generalizing w with
  | nil => rfl
  | cons p ps ih =>
    have hpublish : MessageBus.publish (StreamBus.mk w) p = (.ok (), ⟨w.append (encode p)⟩) := by
      show StreamBus.publish _ p = _
      simp only [publish, Writer.writeAll, h]
    rw [publishAll, hpublish]
    simp only [ih (w := w.append (encode p)) h, Writer.append_append]
    rfl

/-- Without room nothing is accepted and nothing more is written. -/
theorem publishAll_of_full (w : Writer) (ps : List Publication) :
    publishAll (StreamBus.mk (w.withRoom 0)) ps =
      (List.replicate ps.length (.error (.transport w.fault)), ⟨w.withRoom 0⟩) := by
  induction ps with
  | nil => rfl
  | cons p ps ih =>
    have happend : w.append ((encode p).take 0) = w := rfl
    rw [publishAll, publish_of_lt (length_encode_pos p), happend]
    simp only [ih]
    rfl

/-- The first `whole` lines are written, then what fits of the next one if there is one. -/
theorem publishAll_eq (w : Writer) (room : Nat) (ps : List Publication) :
    ∃ whole torn left, whole ≤ ps.length ∧
      publishAll (StreamBus.mk (w.withRoom room)) ps =
        (List.replicate whole (.ok ()) ++
            List.replicate (ps.length - whole) (.error (.transport w.fault)),
          ⟨(w.append (encodeAll (ps.take whole) ++ torn)).withRoom left⟩) ∧
      encodeAll (ps.take whole) ++ torn = (encodeAll ps).take room ∧
      (whole = ps.length ∧ torn = [] ∨
        ∃ p, ps[whole]? = some p ∧ torn <+: encode p ∧ torn.length < (encode p).length) := by
  induction ps generalizing w room with
  | nil => exact ⟨0, [], room, Nat.le_refl 0, rfl, List.take_nil.symm, Or.inl ⟨rfl, rfl⟩⟩
  | cons p ps ih =>
    rw [publishAll, encodeAll_cons]
    rcases Nat.lt_or_ge room (encode p).length with htorn | hfits
    · refine ⟨0, (encode p).take room, 0, Nat.zero_le _, ?_, ?_, Or.inr ⟨p, rfl, ?_, ?_⟩⟩
      · rw [publish_of_lt htorn]
        simp only [publishAll_of_full]
        rfl
      · rw [List.take_append_of_le_length (Nat.le_of_lt htorn)]
        rfl
      · exact List.take_prefix room (encode p)
      · rw [List.length_take, Nat.min_eq_left (Nat.le_of_lt htorn)]
        exact htorn
    · obtain ⟨whole, torn, left, hle, hall, htext, hend⟩ :=
        ih (w.append (encode p)) (room - (encode p).length)
      refine ⟨whole + 1, torn, left, Nat.succ_le_succ hle, ?_, ?_, ?_⟩
      · rw [publish_of_le hfits]
        simp only [hall, Writer.append_append, List.length_cons, Nat.add_sub_add_right,
          List.take_succ_cons, encodeAll_cons, List.append_assoc, List.replicate_succ,
          List.cons_append]
        rfl
      · rw [List.take_succ_cons, encodeAll_cons, List.append_assoc, htext, List.take_append,
          List.take_of_length_le hfits]
      · rcases hend with ⟨rfl, htorn⟩ | hend
        · exact Or.inl ⟨rfl, htorn⟩
        · exact Or.inr hend

/-- **Publications are accepted as long as their lines fit.** Whatever is published on a stream that
takes `room` more bytes, those bytes of the text of all lines are written that there is room for. A
publication is accepted if its line and those before it fit, and refused by the failure of the
writer otherwise. So those accepted come before those refused; the lines of the former are written
whole, and of the others at most a part of the first one is. -/
theorem publishes_what_fits (w : Writer) (room : Nat) (ps : List Publication) :
    let (answers, bus) := publishAll (StreamBus.mk (w.withRoom room)) ps
    bus.writer.written = w.written ++ (encodeAll ps).take room ∧
      answers.length = ps.length ∧
      (∀ i < ps.length, answers[i]? =
        some (if (encodeAll (ps.take (i + 1))).length ≤ room then .ok ()
          else .error (.transport w.fault))) ∧
      ∃ whole ≤ ps.length, ∃ torn,
        answers = List.replicate whole (.ok ()) ++
          List.replicate (ps.length - whole) (.error (.transport w.fault)) ∧
        bus.writer.written = w.written ++ (encodeAll (ps.take whole) ++ torn) ∧
        (torn = [] ∨ ∃ p, ps[whole]? = some p ∧ torn <+: encode p ∧ torn ≠ encode p) := by
  obtain ⟨whole, torn, left, hle, hall, htext, hend⟩ := publishAll_eq w room ps
  rw [hall]
  have hlength := congrArg List.length htext
  rw [List.length_append, List.length_take] at hlength
  refine ⟨?_, ?_, ?_, whole, hle, torn, rfl, ?_, ?_⟩
  · rw [Writer.written_withRoom, Writer.written_append, htext]
  · rw [List.length_append, List.length_replicate, List.length_replicate,
      Nat.add_sub_cancel' hle]
  · intro i hi
    rcases Nat.lt_or_ge i whole with hwhole | hrest
    · -- Its line is among those that are written whole.
      have hcut := length_encodeAll_take_le (show i + 1 ≤ whole from hwhole) ps
      rw [if_pos (by omega), List.getElem?_append_left (by rwa [List.length_replicate]),
        List.getElem?_replicate_of_lt hwhole]
    · obtain ⟨rfl, -⟩ | ⟨p, hp, -, hshort⟩ := hend
      · exact absurd hi (Nat.not_lt.2 hrest)
      · -- The next line was torn, so that the text went beyond the room with it.
        have hnext := length_encodeAll_take_le (show whole + 1 ≤ i + 1 by omega) ps
        have hall := length_encodeAll_take_le (show whole + 1 ≤ ps.length by omega) ps
        rw [encodeAll_take_succ hp, List.length_append] at hnext hall
        rw [List.take_length] at hall
        rw [if_neg (by omega), List.getElem?_append_right (by rwa [List.length_replicate]),
          List.length_replicate, List.getElem?_replicate_of_lt (by omega)]
  · rw [Writer.written_withRoom, Writer.written_append]
  · obtain ⟨-, htorn⟩ | ⟨p, hp, hprefix, hshort⟩ := hend
    · exact Or.inl htorn
    · exact Or.inr ⟨p, hp, hprefix, fun h => Nat.lt_irrefl _ (h ▸ hshort)⟩

end StreamBus

end TopicRelay
