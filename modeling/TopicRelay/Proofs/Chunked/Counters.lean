import TopicRelay.Proofs.Chunked.Limit

/-!
# What a scanner keeps and counts

Between two slices a scanner keeps one unfinished control line (`IsTidy`), and none within the data
of a chunk (`KeepsNoData`). It counts the bytes of the body and the chunks: all bytes of the slices
as long as the scan goes on (`bodyLength_ofSlices_of_going`), and the bytes of the body alone once
its end is found (`exists_isBody_of_done`). No count is larger than the number of bytes that the
scanner was given (`Within`).
-/

namespace TopicRelay.Chunked.Scanner

/-! ## What is kept -/

/-- What a scanner keeps is one unfinished control line that is not too long. -/
structure IsTidy (s : Scanner) : Prop where
  lf_not_mem : Bytes.lf ∉ s.pending
  length_le : s.pending.length ≤ maxLine

theorem IsTidy.fresh : IsTidy {} := ⟨List.not_mem_nil, Nat.zero_le _⟩

theorem push_of_not_expectsLine {s : Scanner} (h : s.phase.expectsLine = false) (x : UInt8) :
    (s.push x).pending = s.pending := by
  rw [push]
  rcases hp : s.phase <;> simp_all [Phase.expectsLine]

theorem lf_not_mem_push {s : Scanner} (h : Bytes.lf ∉ s.pending) (x : UInt8) :
    Bytes.lf ∉ (s.push x).pending := by
  rcases hs : s.phase.expectsLine
  · rwa [push_of_not_expectsLine hs]
  · by_cases hx : x = Bytes.lf
    · rw [hx, push_lf hs, finishLine_pending]
      exact List.not_mem_nil
    · rw [push_of_ne_lf hs hx, List.mem_cons, not_or]
      exact ⟨Ne.symm hx, h⟩

theorem lf_not_mem_run {s : Scanner} (h : Bytes.lf ∉ s.pending) (used : Nat) (b : Bytes) :
    Bytes.lf ∉ (s.run used b).1.pending := by
  induction b generalizing s used with
  | nil => exact h
  | cons x rest ih =>
    rw [run]
    split
    · exact h
    · exact ih (lf_not_mem_push h x) _

/-- A scan ends with a control line, of which nothing is kept. -/
theorem pending_push_of_isFinal {s : Scanner} (hs : s.phase.isFinal = false) {x : UInt8}
    (h : (s.push x).phase.isFinal = true) : (s.push x).pending = [] := by
  by_cases hline : s.phase.expectsLine
  · by_cases hx : x = Bytes.lf
    · rw [hx, push_lf hline, finishLine_pending]
    · rw [push_of_ne_lf hline hx] at h
      rw [hs] at h
      cases h
  · obtain ⟨n, hn⟩ : ∃ n, s.phase = .data n := by
      rcases hp : s.phase <;> simp_all [Phase.expectsLine, Phase.isFinal]
    rw [push, hn] at h
    simp only at h
    split at h <;> cases h

theorem pending_run_of_isFinal {s : Scanner} (hs : s.phase.isFinal = false) (used : Nat)
    {b : Bytes} (h : (s.run used b).1.phase.isFinal = true) : (s.run used b).1.pending = [] := by
  induction b generalizing s used with
  | nil =>
    rw [run, hs] at h
    cases h
  | cons x rest ih =>
    rw [run, hs] at h ⊢
    simp only [Bool.false_eq_true, if_false] at h ⊢
    rcases hpush : (s.push x).phase.isFinal
    · exact ih hpush _ h
    · rw [run_of_isFinal hpush]
      exact pending_push_of_isFinal hs hpush

/-- No slice makes a scanner keep more than one line within the limit. -/
theorem IsTidy.advance {s : Scanner} (h : s.IsTidy) (b : Bytes) : (s.advance b).1.IsTidy := by
  rcases hs : s.phase.isFinal
  · have hlf := lf_not_mem_run h.lf_not_mem 0 b
    have hlength := run_pending_length_le s 0 b
    have hfinal (hf : (s.run 0 b).1.phase.isFinal = true) :
        (s.run 0 b).1.pending.length ≤ maxLine := by
      rw [pending_run_of_isFinal hs 0 hf]
      exact Nat.zero_le _
    rcases advance_cases s b with ⟨hinvalid, heq⟩ | ⟨-, -, heq⟩ | ⟨-, hshort, heq⟩
    · rw [heq]
      exact ⟨hlf, hfinal (by rw [hinvalid]; rfl)⟩
    · rw [heq]
      -- The line was within the limit before the slice.
      refine ⟨fun hmem => hlf (List.mem_of_mem_drop hmem), ?_⟩
      have hbefore := h.length_le
      simp only [List.length_drop]
      omega
    · rw [heq]
      refine ⟨hlf, ?_⟩
      rcases hphase : (s.run 0 b).1.phase.isFinal
      · exact hshort hphase
      · exact hfinal hphase
  · rwa [advance_of_isFinal hs]

/-- Within a chunk some of its data is still to come, and no control line is open. -/
def KeepsNoData (s : Scanner) : Prop := ∀ n, s.phase = .data n → 0 < n ∧ s.pending = []

theorem KeepsNoData.of_phase {s : Scanner} (h : ∀ n, s.phase ≠ .data n) : s.KeepsNoData :=
  fun n hn => absurd hn (h n)

/-- A line that starts a chunk declares a size that is not zero. -/
theorem keepsNoData_finishLine {s : Scanner} (hs : s.phase.expectsLine) (hp : s.pending = [])
    (line : Bytes) : (s.finishLine line).KeepsNoData := by
  intro n hn
  refine ⟨?_, by rw [finishLine_pending, hp]⟩
  obtain ⟨phase, pending, l, chunks⟩ := s
  cases phase with
  | size =>
    rw [finishLine] at hn
    simp only at hn
    split at hn
    · cases hn
    · cases hn
    · rename_i size hzero _
      obtain rfl : size = n := Phase.data.inj hn
      exact Nat.pos_of_ne_zero fun h => hzero h
  | dataEnd | trailer =>
    rw [finishLine] at hn
    simp only at hn
    split at hn <;> cases hn
  | _ => cases hs

theorem KeepsNoData.push {s : Scanner} (h : s.KeepsNoData) (x : UInt8) :
    (s.push x).KeepsNoData := by
  rcases hs : s.phase.expectsLine
  · intro n hn
    rw [push_of_not_expectsLine hs]
    rw [Scanner.push] at hn
    rcases hp : s.phase with _ | m | _ | _ | _ | _
    case data =>
      rw [hp] at hn
      simp only at hn
      split at hn
      · cases hn
      · obtain rfl : m - 1 = n := Phase.data.inj hn
        exact ⟨by omega, (h m hp).2⟩
    all_goals simp_all [Phase.expectsLine]
  · by_cases hx : x = Bytes.lf
    · rw [hx, push_lf hs]
      exact keepsNoData_finishLine (by exact hs) rfl _
    · rw [push_of_ne_lf hs hx]
      refine .of_phase fun n hn => ?_
      rw [show s.phase = .data n from hn] at hs
      cases hs

theorem KeepsNoData.run {s : Scanner} (h : s.KeepsNoData) (used : Nat) (b : Bytes) :
    (s.run used b).1.KeepsNoData := by
  induction b generalizing s used with
  | nil => exact h
  | cons x rest ih =>
    rw [Scanner.run]
    split
    · exact h
    · exact ih (h.push x) _

theorem KeepsNoData.advance {s : Scanner} (h : s.KeepsNoData) (b : Bytes) :
    (s.advance b).1.KeepsNoData := by
  have hrun := h.run 0 b
  rcases advance_cases s b with ⟨-, heq⟩ | ⟨-, -, heq⟩ | ⟨-, -, heq⟩
  · rwa [heq]
  · rw [heq]
    exact .of_phase fun n => nofun
  · rw [heq]
    exact hrun

/-! ## What is counted -/

/-- A scanner that is still going has counted the whole slice. -/
theorem bodyLength_advance_of_going {s : Scanner} {b : Bytes}
    (h : (s.advance b).1.phase.isFinal = false) :
    (s.advance b).1.bodyLength = s.bodyLength + b.length := by
  have hvalid : (s.advance b).1.phase ≠ .invalid := by
    intro hinvalid
    rw [hinvalid] at h
    cases h
  have heq := advance_of_ne_invalid hvalid
  have hgoing : (s.run 0 b).1.phase.isFinal = false := by
    rw [heq] at h
    exact h
  rw [heq, run_snd_of_going hgoing, Nat.zero_add]

theorem bodyLength_advance_le {s : Scanner} {b : Bytes} (h : (s.advance b).1.phase = .done) :
    (s.advance b).1.bodyLength ≤ s.bodyLength + b.length := by
  have hused := run_snd_le s 0 b
  rw [advance_of_ne_invalid (by rw [h]; decide)]
  simp only
  omega

theorem bodyLength_finishLine (s : Scanner) (line : Bytes) :
    (s.finishLine line).bodyLength = s.bodyLength :=
  congrArg (·.bodyLength) (finishLine_withLength s s.bodyLength line)

/-- The bytes of the body are counted when a slice is closed and not before. -/
theorem bodyLength_run (s : Scanner) (used : Nat) (b : Bytes) :
    (s.run used b).1.bodyLength = s.bodyLength :=
  congrArg (·.1.bodyLength) (run_withLength s s.bodyLength used b)

theorem bodyLength_advance_ge (s : Scanner) (b : Bytes) :
    s.bodyLength ≤ (s.advance b).1.bodyLength := by
  have hrun := bodyLength_run s 0 b
  rcases advance_cases s b with ⟨-, heq⟩ | ⟨-, -, heq⟩ | ⟨-, -, heq⟩
  · rw [heq, hrun]
  · rw [heq]
    exact hrun.ge
  · rw [heq]
    exact Nat.le_add_right _ _

/-- A slice that ends the scan without a body is not counted. -/
theorem bodyLength_advance_of_invalid {s : Scanner} {b : Bytes}
    (h : (s.advance b).1.phase = .invalid) : (s.advance b).1.bodyLength = s.bodyLength := by
  have hrun := bodyLength_run s 0 b
  rcases advance_cases s b with ⟨-, heq⟩ | ⟨-, -, heq⟩ | ⟨hvalid, -, heq⟩
  · rw [heq, hrun]
  · rw [heq]
    exact hrun
  · rw [heq] at h
    exact absurd h hvalid

/-- A control line starts at most one chunk. -/
theorem chunks_finishLine (s : Scanner) (line : Bytes) :
    s.chunks ≤ (s.finishLine line).chunks ∧ (s.finishLine line).chunks ≤ s.chunks + 1 := by
  rw [finishLine]
  split <;> try split
  all_goals simp

theorem chunks_push (s : Scanner) (x : UInt8) :
    s.chunks ≤ (s.push x).chunks ∧ (s.push x).chunks ≤ s.chunks + 1 := by
  rw [push]
  split
  case h_4 | h_5 | h_6 =>
    split
    · exact chunks_finishLine { s with pending := [] } _
    · simp
  all_goals simp

theorem chunks_run (s : Scanner) (used : Nat) (b : Bytes) :
    s.chunks ≤ (s.run used b).1.chunks ∧ (s.run used b).1.chunks ≤ s.chunks + b.length := by
  induction b generalizing s used with
  | nil => exact ⟨Nat.le_refl _, Nat.le_refl _⟩
  | cons x rest ih =>
    rw [run]
    split
    · exact ⟨Nat.le_refl _, Nat.le_add_right _ _⟩
    · obtain ⟨hmore, hle⟩ := chunks_push s x
      obtain ⟨hmore', hle'⟩ := ih (s.push x) (used + 1)
      rw [List.length_cons]
      exact ⟨by omega, by omega⟩

/-- A scanner that was given `n` bytes has counted, and keeps, no more than these. -/
structure Within (s : Scanner) (n : Nat) : Prop where
  bodyLength_le : s.bodyLength ≤ n
  chunks_le : s.chunks ≤ n
  pending_le : s.pending.length ≤ n

theorem Within.advance {s : Scanner} {n : Nat} (h : s.Within n) (b : Bytes) :
    (s.advance b).1.Within (n + b.length) := by
  have hbody := bodyLength_run s 0 b
  have hused := run_snd_le s 0 b
  have hpending := run_pending_length_le s 0 b
  obtain ⟨-, hchunks⟩ := chunks_run s 0 b
  obtain ⟨hl, hc, hp⟩ := h
  rcases advance_cases s b with ⟨-, heq⟩ | ⟨-, -, heq⟩ | ⟨-, -, heq⟩
  · rw [heq]
    exact ⟨by omega, by omega, by omega⟩
  · rw [heq]
    refine ⟨?_, ?_, ?_⟩ <;> simp only [List.length_drop] <;> omega
  · rw [heq]
    refine ⟨?_, ?_, ?_⟩ <;> simp only <;> omega

/-! ## The answer to a slice -/

/-- The answer `needMore` shows in the scanner that is left. -/
theorem advance_snd_eq_needMore_iff {s : Scanner} {slice : Bytes} :
    (s.advance slice).2 = .needMore ↔ (s.advance slice).1.phase.isFinal = false := by
  rw [advance]
  rcases s.run 0 slice with ⟨⟨phase, pending, l, n⟩, taken⟩
  cases phase with
  | done | invalid => simp [Phase.isFinal]
  | _ =>
    simp only
    split <;> simp [Phase.isFinal]

/-- After the end of the body no byte is taken any more. -/
theorem advance_of_done {s : Scanner} (h : s.phase = .done) (b : Bytes) :
    s.advance b = (s, .done 0) := by
  obtain ⟨phase, pending, l, n⟩ := s
  obtain rfl : phase = .done := h
  rw [advance, run_of_isFinal rfl]
  rfl

theorem advance_of_invalid {s : Scanner} (h : s.phase = .invalid) (b : Bytes) :
    s.advance b = (s, .invalid) := by
  obtain ⟨phase, pending, l, n⟩ := s
  obtain rfl : phase = .invalid := h
  rw [advance, run_of_isFinal rfl]

/-! ## Slice after slice -/

theorem isTidy_ofSlices (slices : List Bytes) : (ofSlices slices).IsTidy := by
  induction slices using List.reverseRecOn with
  | nil => exact .fresh
  | append_singleton fed slice ih =>
    rw [ofSlices_concat]
    exact ih.advance slice

theorem keepsNoData_ofSlices (slices : List Bytes) : (ofSlices slices).KeepsNoData := by
  induction slices using List.reverseRecOn with
  | nil => exact .of_phase fun n => nofun
  | append_singleton fed slice ih =>
    rw [ofSlices_concat]
    exact ih.advance slice

theorem within_ofSlices (slices : List Bytes) : (ofSlices slices).Within slices.flatten.length := by
  induction slices using List.reverseRecOn with
  | nil => exact ⟨Nat.le_refl _, Nat.le_refl _, Nat.le_refl _⟩
  | append_singleton fed slice ih =>
    rw [ofSlices_concat, List.flatten_append, List.flatten_singleton, List.length_append]
    exact ih.advance slice

/-- As long as the scan goes on all bytes of the slices are counted. -/
theorem bodyLength_ofSlices_of_going {slices : List Bytes}
    (h : (ofSlices slices).phase.isFinal = false) :
    (ofSlices slices).bodyLength = slices.flatten.length := by
  induction slices using List.reverseRecOn with
  | nil => rfl
  | append_singleton fed slice ih =>
    rw [ofSlices_concat] at h ⊢
    have hfed : (ofSlices fed).phase.isFinal = false := by
      rcases hfinal : (ofSlices fed).phase.isFinal
      · rfl
      · rwa [advance_of_isFinal hfinal, hfinal] at h
    rw [bodyLength_advance_of_going h, ih hfed, List.flatten_append, List.flatten_singleton,
      List.length_append]

/-- Once the end of a body is found, the bytes and the chunks of this body are what is counted. -/
theorem exists_isBody_of_done {slices : List Bytes} (h : (ofSlices slices).phase = .done) :
    ∃ body, IsBody (ofSlices slices).chunks body ∧ body <+: slices.flatten ∧
      (ofSlices slices).bodyLength = body.length := by
  have hover : ¬ Overruns slices := by
    intro hover
    rw [ofSlices_of_overruns hover] at h
    cases h
  have hwhole : (advance {} slices.flatten).1.phase = .done := phase_ofSlices hover ▸ h
  have hanswer := advance_snd_eq_done_iff.2 ⟨hwhole, (Nat.zero_add _).symm⟩
  obtain ⟨-, n, hbody⟩ := advance_eq_done_iff.1 hanswer
  have hpre := List.take_prefix (advance {} slices.flatten).1.bodyLength slices.flatten
  rw [ofSlices_of_isBody hover hbody hpre]
  exact ⟨_, hbody, hpre, rfl⟩

end TopicRelay.Chunked.Scanner
