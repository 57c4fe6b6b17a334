import TopicRelay.Chunked

/-!
# Scanning stretches of a body

What `Scanner.run` makes of the stretches that a body consists of: a finished control line, an
unfinished one, the data of a chunk. Every law about a scanner is put together from these and from
`run_append`, so that nothing else looks at single bytes.
-/

namespace TopicRelay.Chunked

/-- Whether a control line is expected next. -/
def Phase.expectsLine : Phase → Bool
  | .size | .dataEnd | .trailer => true
  | _ => false

theorem Phase.isFinal_of_expectsLine {p : Phase} (h : p.expectsLine) : p.isFinal = false := by
  cases p <;> simp_all [Phase.expectsLine, Phase.isFinal]

namespace Scanner

/-! ## Cuts -/

/-- A scanner in a final phase takes nothing. -/
theorem run_of_isFinal {s : Scanner} (h : s.phase.isFinal) (used : Nat) (b : Bytes) :
    s.run used b = (s, used) := by
  cases b with
  | nil => rfl
  | cons x rest => rw [run, if_pos h]

/-- Bytes can be taken in two goes. -/
theorem run_append (s : Scanner) (used : Nat) (a b : Bytes) :
    s.run used (a ++ b) = (s.run used a).1.run (s.run used a).2 b := by
  induction a generalizing s used with
  | nil => rfl
  | cons x rest ih =>
    rw [List.cons_append, run, run]
    -- A scan that ends within the first part takes nothing of the second.
    split
    · rename_i h
      rw [run_of_isFinal h]
    · exact ih _ _

/-- Counting may start anywhere. -/
theorem run_used (s : Scanner) (used : Nat) (b : Bytes) :
    s.run used b = ((s.run 0 b).1, used + (s.run 0 b).2) := by
  induction b generalizing s used with
  | nil => rfl
  | cons x rest ih =>
    rw [run, run]
    split
    · rfl
    · rw [ih (s.push x) (used + 1), ih (s.push x) (0 + 1)]
      ext1
      · rfl
      · simp only
        omega

/-! ## What a byte leaves alone -/

theorem finishLine_withLength (s : Scanner) (l : Nat) (line : Bytes) :
    { s with bodyLength := l }.finishLine line = { s.finishLine line with bodyLength := l } := by
  obtain ⟨phase, pending, length, chunks⟩ := s
  cases phase with
  | size =>
    simp only [finishLine]
    rcases size? line with _ | _ | n <;> rfl
  | _ => rfl

theorem finishLine_pending (s : Scanner) (line : Bytes) :
    (s.finishLine line).pending = s.pending := by
  obtain ⟨phase, pending, length, chunks⟩ := s
  cases phase with
  | size =>
    simp only [finishLine]
    rcases size? line with _ | _ | n <;> rfl
  | _ => rfl

theorem push_withLength (s : Scanner) (l : Nat) (x : UInt8) :
    { s with bodyLength := l }.push x = { s.push x with bodyLength := l } := by
  obtain ⟨phase, pending, length, chunks⟩ := s
  have hline (p : Phase) (line : Bytes) := finishLine_withLength ⟨p, [], length, chunks⟩ l line
  cases phase with
  | size | dataEnd | trailer =>
    simp only [push]
    split
    · exact hline _ _
    · rfl
  | _ => rfl

/-- The counter of the bytes scanned plays no part in the scanning of a slice. -/
theorem run_withLength (s : Scanner) (l used : Nat) (b : Bytes) :
    { s with bodyLength := l }.run used b =
      ({ (s.run used b).1 with bodyLength := l }, (s.run used b).2) := by
  induction b generalizing s used with
  | nil => rfl
  | cons x rest ih =>
    rw [run, run]
    simp only
    split
    · rfl
    · rw [push_withLength]
      exact ih _ _

/-! ## Control lines and data -/

theorem push_of_ne_lf {s : Scanner} (hs : s.phase.expectsLine) {x : UInt8} (hx : x ≠ Bytes.lf) :
    s.push x = { s with pending := x :: s.pending } := by
  rcases hp : s.phase <;> simp_all [Phase.expectsLine, push]

theorem push_lf {s : Scanner} (hs : s.phase.expectsLine) :
    s.push Bytes.lf = { s with pending := [] }.finishLine (Bytes.dropCR s.pending.reverse) := by
  rcases hp : s.phase <;> simp_all [Phase.expectsLine, push]

/-- Bytes without a line feed are kept as bytes of the unfinished control line. -/
theorem run_open {s : Scanner} (hs : s.phase.expectsLine) (used : Nat) {b : Bytes}
    (hb : Bytes.lf ∉ b) :
    s.run used b = ({ s with pending := b.reverse ++ s.pending }, used + b.length) := by
  induction b generalizing s used with
  | nil => rfl
  | cons x rest ih =>
    obtain ⟨hx, hrest⟩ : Bytes.lf ≠ x ∧ Bytes.lf ∉ rest := by simpa using hb
    have hfinal : s.phase.isFinal = false := Phase.isFinal_of_expectsLine hs
    rw [run, hfinal, push_of_ne_lf hs hx.symm]
    simp only [Bool.false_eq_true, if_false]
    rw [ih (by exact hs) _ hrest, List.length_cons, List.reverse_cons, List.append_assoc]
    simp only [Prod.mk.injEq]
    exact ⟨rfl, by omega⟩

/-- A line feed finishes the control line, whose bytes may have come in an earlier slice. -/
theorem run_line {s : Scanner} (hs : s.phase.expectsLine) (used : Nat) {content : Bytes}
    (hc : Bytes.lf ∉ content) (rest : Bytes) :
    s.run used (content ++ Bytes.lf :: rest) =
      ({ s with pending := [] }.finishLine (Bytes.dropCR (s.pending.reverse ++ content))).run
        (used + content.length + 1) rest := by
  rw [run_append, run_open hs used hc, run]
  simp only [Phase.isFinal_of_expectsLine hs, Bool.false_eq_true, if_false]
  rw [push_lf (by exact hs)]
  simp

/-- Data that ends before the chunk does. -/
theorem run_data_open {s : Scanner} {n : Nat} (hs : s.phase = .data n) (used : Nat) {data : Bytes}
    (h : data.length < n) :
    s.run used data = ({ s with phase := .data (n - data.length) }, used + data.length) := by
  induction data generalizing s n used with
  | nil => simp [run, ← hs]
  | cons x rest ih =>
    rw [List.length_cons] at h
    have hpush : s.push x = { s with phase := .data (n - 1) } := by
      rw [push, hs]
      simp only
      rw [if_neg (by omega)]
    rw [run, hs, hpush]
    simp only [Phase.isFinal, Bool.false_eq_true, if_false]
    rw [ih rfl _ (by omega), List.length_cons]
    simp only [Prod.mk.injEq, mk.injEq, Phase.data.injEq, and_true]
    omega

/-- The data of a whole chunk. -/
theorem run_data {s : Scanner} {n : Nat} (hs : s.phase = .data n) (hn : 0 < n) (used : Nat)
    {data : Bytes} (h : data.length = n) (rest : Bytes) :
    s.run used (data ++ rest) = { s with phase := .dataEnd }.run (used + n) rest := by
  -- All bytes but the last leave the scanner in the data
  obtain ⟨before, x, rfl⟩ : ∃ before x, data = before ++ [x] :=
    ⟨data.dropLast, data.getLast (by rintro rfl; simp at h; omega),
      (List.dropLast_concat_getLast _).symm⟩
  have hlen : before.length + 1 = n := by simpa using h
  rw [List.append_assoc, run_append, run_data_open hs used (by omega), List.singleton_append, run]
  simp only [Phase.isFinal, Bool.false_eq_true, if_false]
  have hpush : { s with phase := .data (n - before.length) }.push x =
        { s with phase := .dataEnd } := by
    rw [push]
    simp only
    rw [if_pos (by omega)]
  rw [hpush, show used + before.length + 1 = used + n by omega]

end Scanner

end TopicRelay.Chunked
