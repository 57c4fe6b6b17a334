import TopicRelay.Bytes

/-!
# Lines

The lines of a byte string are what line feeds divide it into (`lines_eq_splitOn`). Lines without
line feeds, at least one of them, are those of exactly one byte string, in which line feeds join
them (`lines_eq_iff`).
-/

namespace TopicRelay.Bytes

theorem lines_eq_splitOn (b : Bytes) : lines b = b.splitOn lf := by
  induction b with
  | nil => rfl
  | cons c b ih =>
    rw [List.splitOn_cons_eq_if_modifyHead]
    by_cases hc : c = lf
    · rw [hc, lines_lf, ih, if_pos (beq_self_eq_true _)]
    · obtain ⟨first, rest, hsplit⟩ := List.exists_cons_of_ne_nil (List.splitOn_ne_nil lf b)
      rw [lines, List.foldr_cons, if_neg hc, ← lines, ih, if_neg (by simpa using hc), hsplit]
      rfl

theorem lines_ne_nil (b : Bytes) : lines b ≠ [] := by
  rw [lines_eq_splitOn]
  exact List.splitOn_ne_nil _ _

/-- The lines before a line feed and those after it stand one after the other. -/
theorem lines_append_lf (a b : Bytes) : lines (a ++ lf :: b) = lines a ++ lines b := by
  simp only [lines_eq_splitOn]
  exact List.splitOn_append_cons_self a b

/-- Without a line feed there is one line. -/
theorem lines_of_not_mem {b : Bytes} (h : lf ∉ b) : lines b = [b] := by
  rw [lines_eq_splitOn, List.splitOn_eq_singleton h]

theorem lf_not_mem_of_mem_lines {b l : Bytes} (h : l ∈ lines b) : lf ∉ l := by
  induction b generalizing l with
  | nil =>
    rw [List.mem_singleton.1 h]
    exact List.not_mem_nil
  | cons c b ih =>
    by_cases hc : c = lf
    · rw [hc, lines_lf] at h
      rcases List.mem_cons.1 h with rfl | h
      · exact List.not_mem_nil
      · exact ih h
    · obtain ⟨first, rest, hlines⟩ := List.exists_cons_of_ne_nil (lines_ne_nil b)
      rw [lines, List.foldr_cons, if_neg hc, ← lines, hlines] at h
      rw [hlines] at ih
      rcases List.mem_cons.1 h with rfl | h
      · rw [List.mem_cons, not_or]
        exact ⟨Ne.symm hc, ih List.mem_cons_self⟩
      · exact ih (List.mem_cons_of_mem _ h)

/-- Lines are those of a byte string if they make it up when line feeds join them. -/
theorem lines_eq_iff {b : Bytes} {ls : List Bytes} :
    lines b = ls ↔ ls ≠ [] ∧ (∀ l ∈ ls, lf ∉ l) ∧ b = [lf].intercalate ls := by
  constructor
  · rintro rfl
    refine ⟨lines_ne_nil b, fun l => lf_not_mem_of_mem_lines, ?_⟩
    rw [lines_eq_splitOn, List.intercalate_splitOn]
  · rintro ⟨hne, hlf, rfl⟩
    rw [lines_eq_splitOn, List.splitOn_intercalate _ hlf hne]

end TopicRelay.Bytes
