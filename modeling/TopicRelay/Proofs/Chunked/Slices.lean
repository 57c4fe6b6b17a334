import TopicRelay.Proofs.Chunked.Run

/-!
# Scanning in slices

A body arrives in slices that are cut anywhere. Two slices one after the other come to the same as
both at once, as long as the first does not end the scan (`advance_append`). The one thing that a
cut can change is that a control line is found too long: the limit is looked at where a slice ends.
Where all finished lines keep to the limit it changes nothing either (`advance_append_of_invalid`),
and the same chunks are found (`chunks_advance_advance`).
-/

namespace TopicRelay.Chunked.Scanner

/-- No control line that is finished within the bytes has more bytes before its line feed than may
stay unfinished at the end of a slice. Bytes pending from before count. -/
def LinesWithin (s : Scanner) (b : Bytes) : Prop :=
  ∀ before after, b = before ++ Bytes.lf :: after → (s.run 0 before).1.phase.expectsLine →
    (s.run 0 before).1.pending.length ≤ maxLine

theorem LinesWithin.run {s : Scanner} {xs ys : Bytes} (h : s.LinesWithin (xs ++ ys)) :
    (s.run 0 xs).1.LinesWithin ys := by
  intro before after hb
  have hrun := h (xs ++ before) after (by rw [hb, List.append_assoc])
  rw [run_append, run_used] at hrun
  exact hrun

theorem LinesWithin.push {s : Scanner} (hs : s.phase.isFinal = false) {x : UInt8} {rest : Bytes}
    (h : s.LinesWithin (x :: rest)) : (s.push x).LinesWithin rest := by
  have hrun := @LinesWithin.run s [x] rest h
  rwa [Scanner.run, hs] at hrun

theorem push_pending_length_le (s : Scanner) (x : UInt8) :
    (s.push x).pending.length ≤ s.pending.length + 1 := by
  by_cases hs : s.phase.expectsLine
  · by_cases hx : x = Bytes.lf
    · rw [hx, push_lf hs, finishLine_pending]
      exact Nat.zero_le _
    · rw [push_of_ne_lf hs hx]
      exact Nat.le_refl _
  · rw [Scanner.push]
    rcases hp : s.phase <;> simp_all [Phase.expectsLine]

theorem run_pending_length_le (s : Scanner) (used : Nat) (b : Bytes) :
    (s.run used b).1.pending.length ≤ s.pending.length + b.length := by
  induction b generalizing s used with
  | nil => exact Nat.le_refl _
  | cons x rest ih =>
    rw [Scanner.run]
    split
    · exact Nat.le_add_right _ _
    · have hstep := push_pending_length_le s x
      have hrest := ih (s.push x) (used + 1)
      rw [List.length_cons]
      omega

/-- Few enough bytes hold no line that is too long. -/
theorem LinesWithin.of_length_le {s : Scanner} {b : Bytes}
    (h : s.pending.length + b.length ≤ maxLine) : s.LinesWithin b := by
  intro before after hb _
  have hlen : b.length = before.length + (after.length + 1) := by
    rw [hb, List.length_append, List.length_cons]
  have hpending := run_pending_length_le s 0 before
  omega

/-! ## What a slice comes to -/

/-- The scanner after a slice, by the scanner `t` that its bytes lead to. -/
theorem advance_fst (s : Scanner) (b : Bytes) :
    (s.advance b).1 =
      let t := (s.run 0 b).1
      if t.phase = .invalid then t
      else if t.phase ≠ .done ∧ maxLine < t.pending.length then
        { t with phase := .invalid, pending := t.pending.drop b.length }
      else { t with bodyLength := s.bodyLength + (s.run 0 b).2 } := by
  rw [advance]
  rcases s.run 0 b with ⟨⟨phase, pending, l, n⟩, used⟩
  cases phase with
  | done | invalid => simp
  | _ =>
    simp only
    by_cases hlong : pending.length > maxLine <;> simp [hlong]

/-- A slice ends the scan without a body, or leaves a line that is too long, of which nothing in the
slice is kept, or is counted. -/
theorem advance_cases (s : Scanner) (b : Bytes) :
    ((s.run 0 b).1.phase = .invalid ∧ (s.advance b).1 = (s.run 0 b).1) ∨
    ((s.run 0 b).1.phase.isFinal = false ∧ maxLine < (s.run 0 b).1.pending.length ∧
      (s.advance b).1 = { (s.run 0 b).1 with
        phase := .invalid, pending := (s.run 0 b).1.pending.drop b.length }) ∨
    ((s.run 0 b).1.phase ≠ .invalid ∧
      ((s.run 0 b).1.phase.isFinal = false → (s.run 0 b).1.pending.length ≤ maxLine) ∧
      (s.advance b).1 = { (s.run 0 b).1 with bodyLength := s.bodyLength + (s.run 0 b).2 }) := by
  rw [advance_fst]
  rcases (s.run 0 b).1 with ⟨phase, pending, l, n⟩
  cases phase with
  | invalid => exact Or.inl ⟨rfl, rfl⟩
  | done => exact Or.inr (Or.inr ⟨nofun, nofun, rfl⟩)
  | _ =>
    rcases Nat.lt_or_ge maxLine pending.length with hlong | hshort
    · exact Or.inr (Or.inl ⟨rfl, hlong, by simp [hlong]⟩)
    · exact Or.inr (Or.inr ⟨nofun, fun _ => hshort, by simp [Nat.not_lt.2 hshort]⟩)

theorem advance_phase_eq_invalid_iff {s : Scanner} {b : Bytes} :
    (s.advance b).1.phase = .invalid ↔
      (s.run 0 b).1.phase = .invalid ∨
        (s.run 0 b).1.phase.isFinal = false ∧ maxLine < (s.run 0 b).1.pending.length := by
  rcases advance_cases s b with ⟨hinvalid, heq⟩ | ⟨hgoing, hlong, heq⟩ | ⟨hvalid, hshort, heq⟩
  · rw [heq]
    exact ⟨Or.inl, fun _ => hinvalid⟩
  · rw [heq]
    exact ⟨fun _ => Or.inr ⟨hgoing, hlong⟩, fun _ => rfl⟩
  · rw [heq]
    refine ⟨Or.inl, ?_⟩
    rintro (hinvalid | ⟨hgoing, hlong⟩)
    · exact hinvalid
    · exact absurd hlong (Nat.not_lt.2 (hshort hgoing))

/-- A slice that leaves the scan going, or ends it well, leaves what its bytes lead to, with their
number added. -/
theorem advance_of_ne_invalid {s : Scanner} {b : Bytes} (h : (s.advance b).1.phase ≠ .invalid) :
    (s.advance b).1 = { (s.run 0 b).1 with bodyLength := s.bodyLength + (s.run 0 b).2 } := by
  rcases advance_cases s b with ⟨hinvalid, heq⟩ | ⟨-, -, heq⟩ | ⟨-, -, heq⟩
  · exact absurd (heq ▸ hinvalid) h
  · exact absurd (congrArg phase heq) h
  · exact heq

/-- A scanner that has ended its scan takes no notice of more slices. -/
theorem advance_of_isFinal {s : Scanner} (h : s.phase.isFinal) (b : Bytes) :
    (s.advance b).1 = s := by
  rw [advance_fst, run_of_isFinal h]
  rcases s with ⟨phase, pending, l, n⟩
  cases phase <;> first | rfl | cases h

/-! ## Two slices -/

/-- Two slices come to the same as both at once, unless the first ends the scan without a body. -/
theorem advance_append {s : Scanner} {xs : Bytes} (h : (s.advance xs).1.phase ≠ .invalid)
    (ys : Bytes) :
    ((s.advance xs).1.advance ys).1.phase = (s.advance (xs ++ ys)).1.phase ∧
      ((s.advance (xs ++ ys)).1.phase ≠ .invalid →
        ((s.advance xs).1.advance ys).1 = (s.advance (xs ++ ys)).1) := by
  have hphase : ((s.advance xs).1.advance ys).1.phase = (s.advance (xs ++ ys)).1.phase := by
    rw [advance_of_ne_invalid h, advance_fst, advance_fst s, run_append, run_withLength,
      run_used (s.run 0 xs).1 (s.run 0 xs).2]
    simp only
    split
    · rfl
    · split <;> rfl
  refine ⟨hphase, fun hne => ?_⟩
  rw [advance_of_ne_invalid hne, advance_of_ne_invalid (hphase ▸ hne), advance_of_ne_invalid h,
    run_append, run_withLength, run_used (s.run 0 xs).1 (s.run 0 xs).2]
  simp only [Nat.add_assoc]

/-- Once the unfinished line is too long it stays so, because no line feed may finish it, and no
further chunk is found. -/
theorem run_of_overlong {s : Scanner} (hs : s.phase.isFinal = false)
    (hlong : maxLine < s.pending.length) (used : Nat) {b : Bytes} (h : s.LinesWithin b) :
    (s.run used b).1.phase.isFinal = false ∧ maxLine < (s.run used b).1.pending.length ∧
      (s.run used b).1.chunks = s.chunks := by
  induction b generalizing s used with
  | nil => exact ⟨hs, hlong, rfl⟩
  | cons x rest ih =>
    have hstep : (s.push x).phase.isFinal = false ∧ maxLine < (s.push x).pending.length ∧
        (s.push x).chunks = s.chunks := by
      by_cases hline : s.phase.expectsLine
      · by_cases hx : x = Bytes.lf
        · have hle : s.pending.length ≤ maxLine := h [] rest (by rw [hx, List.nil_append]) hline
          omega
        · rw [push_of_ne_lf hline hx, List.length_cons]
          exact ⟨hs, by omega, rfl⟩
      · -- Data leaves the unfinished line alone.
        obtain ⟨n, hn⟩ : ∃ n, s.phase = .data n := by
          rcases hp : s.phase <;> simp_all [Phase.expectsLine, Phase.isFinal]
        rw [Scanner.push, hn]
        simp only
        split
        · exact ⟨rfl, hlong, trivial⟩
        · exact ⟨rfl, hlong, trivial⟩
    obtain ⟨hgoing, hstill, hchunks⟩ := hstep
    rw [Scanner.run, hs, ← hchunks]
    simp only [Bool.false_eq_true, if_false]
    exact ih hgoing hstill _ (h.push hs)

/-- A scan that a first slice ends without a body ends so for both at once, unless it ended because
of a line that the second slice would have finished. -/
theorem advance_append_of_invalid {s : Scanner} {xs ys : Bytes}
    (h : (s.advance xs).1.phase = .invalid) (hlines : s.LinesWithin (xs ++ ys)) :
    (s.advance (xs ++ ys)).1.phase = .invalid := by
  rw [advance_phase_eq_invalid_iff] at h ⊢
  rw [run_append]
  rcases h with h | ⟨hfinal, hlong⟩
  · rw [run_of_isFinal (by rw [h]; rfl)]
    exact Or.inl h
  · obtain ⟨hgoing, hstill, -⟩ := run_of_overlong hfinal hlong (s.run 0 xs).2 hlines.run
    exact Or.inr ⟨hgoing, hstill⟩

theorem chunks_advance (s : Scanner) (b : Bytes) :
    (s.advance b).1.chunks = (s.run 0 b).1.chunks := by
  rcases advance_cases s b with ⟨-, heq⟩ | ⟨-, -, heq⟩ | ⟨-, -, heq⟩
  all_goals rw [heq]

/-- Two slices find as many chunks as both at once, whatever the scan comes to. -/
theorem chunks_advance_advance {s : Scanner} {xs ys : Bytes} (hlines : s.LinesWithin (xs ++ ys)) :
    ((s.advance xs).1.advance ys).1.chunks = (s.advance (xs ++ ys)).1.chunks := by
  rw [chunks_advance s, run_append]
  by_cases h : (s.advance xs).1.phase = .invalid
  · rw [advance_of_isFinal (by rw [h]; rfl), chunks_advance]
    rcases advance_phase_eq_invalid_iff.1 h with hno | ⟨hgoing, hlong⟩
    · have hfinal : (s.run 0 xs).1.phase.isFinal := by rw [hno]; rfl
      rw [run_of_isFinal hfinal]
    · exact (run_of_overlong hgoing hlong _ hlines.run).2.2.symm
  · rw [chunks_advance, advance_of_ne_invalid h, run_withLength,
      run_used (s.run 0 xs).1 (s.run 0 xs).2]

end TopicRelay.Chunked.Scanner
