import TopicRelay.Text.Blank
import Mathlib.Data.List.DropRight

/-!
# Trimmed text

A text is trimmed when white space has been taken from both its ends and none is left there, and
there is only one way to do this (`trim_ofList_eq_iff`).
-/

namespace TopicRelay.Text

/-- What is left of `s` is `t` when white space is taken from both ends until there is none. -/
def TrimsTo (s t : List Char) : Prop :=
  ∃ front back, s = front ++ t ++ back ∧ (∀ c ∈ front, isBlank c) ∧ (∀ c ∈ back, isBlank c) ∧
    (∀ c ∈ t.head?, ¬ isBlank c) ∧ ∀ c ∈ t.getLast?, ¬ isBlank c

theorem trimEnd_append {s back : List Char} (h : ∀ c ∈ back, isBlank c) :
    trimEnd (s ++ back) = trimEnd s := by
  rw [trimEnd, List.reverse_append, List.dropWhile_append_of_pos fun c hc =>
    h c (List.mem_reverse.1 hc), ← trimEnd]

theorem trimEnd_eq_self {s : List Char} (h : ∀ c ∈ s.getLast?, ¬ isBlank c) : trimEnd s = s := by
  refine List.rdropWhile_eq_self_iff.2 fun hne => ?_
  exact h _ (List.getLast?_eq_some_getLast hne)

theorem trimStart_eq_self {s : List Char} (h : ∀ c ∈ s.head?, ¬ isBlank c) : trimStart s = s := by
  rcases s with _ | ⟨c, s⟩
  · rfl
  · exact List.dropWhile_cons_of_neg (h c rfl)

theorem not_isBlank_head?_trimStart (s : List Char) : ∀ c ∈ (trimStart s).head?, ¬ isBlank c := by
  intro c hc
  have hhead := List.head?_dropWhile_not isBlank s
  rw [← trimStart, Option.mem_def.1 hc] at hhead
  rw [hhead]
  exact Bool.false_ne_true

theorem trimsTo_trimEnd_trimStart (s : List Char) : TrimsTo s (trimEnd (trimStart s)) := by
  have hsplit : trimStart s = trimEnd (trimStart s) ++ (trimStart s).rtakeWhile isBlank :=
    List.rdropWhile_append_rtakeWhile.symm
  refine ⟨s.takeWhile isBlank, (trimStart s).rtakeWhile isBlank, ?_,
    fun c => List.mem_takeWhile_imp, fun c => List.mem_rtakeWhile_imp, fun c hc => ?_,
    fun c hc => ?_⟩
  · rw [List.append_assoc, ← hsplit]
    exact List.takeWhile_append_dropWhile.symm
  · refine not_isBlank_head?_trimStart s c ?_
    rw [hsplit, List.head?_append, Option.mem_def.1 hc]
    exact rfl
  · obtain ⟨hne, rfl⟩ := List.mem_getLast?_eq_getLast hc
    exact List.rdropWhile_last_not isBlank _ hne

theorem TrimsTo.eq {s t : List Char} (h : TrimsTo s t) : trimEnd (trimStart s) = t := by
  obtain ⟨front, back, rfl, hfront, hback, hhead, hlast⟩ := h
  rw [List.append_assoc, trimStart, List.dropWhile_append_of_pos hfront, ← trimStart]
  by_cases ht : t = []
  · -- With nothing between its ends the whole text goes from the front.
    rw [ht, List.nil_append, trimStart, ← List.append_nil back, List.dropWhile_append_of_pos hback]
    rfl
  · have hhead' : ∀ c ∈ (t ++ back).head?, ¬ isBlank c := by
      rwa [List.head?_append_of_ne_nil _ ht]
    rw [trimStart_eq_self hhead', trimEnd_append hback, trimEnd_eq_self hlast]

theorem trim_ofList_eq_iff {s : List Char} {t : String} :
    trim (String.ofList s) = t ↔ TrimsTo s t.toList := by
  rw [trim, String.toList_ofList]
  constructor
  · rintro rfl
    rw [String.toList_ofList]
    exact trimsTo_trimEnd_trimStart s
  · intro h
    rw [h.eq, String.ofList_toList]

end TopicRelay.Text
