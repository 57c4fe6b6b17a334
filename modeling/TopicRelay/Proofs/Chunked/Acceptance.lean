import TopicRelay.Proofs.Chunked.Grammar
import TopicRelay.Proofs.Chunked.Run

/-!
# Scanning accepts exactly the bodies

A fresh scanner that is given an input answers by the form of the input and by nothing else: `done`
if it starts with a body, `invalid` if it has a fault, `needMore` if it is unfinished. One lemma for
each of the three follows the form of the input (`advance_of_isBody`, `advance_of_fault`,
`advance_of_unfinished`). Since every input is one of the three and the answers differ, the
converses need no second look at the scanner.
-/

namespace TopicRelay.Chunked

/-- The phase in which a scanner expects the line of a place. -/
def Place.phase : Place → Phase
  | .size => .size
  | .dataEnd => .dataEnd
  | .trailer => .trailer

theorem Place.expectsLine_phase (p : Place) : p.phase.expectsLine := by
  cases p <;> rfl

namespace Scanner

/-! ## Finished lines -/

theorem finishLine_unreadable {pending : List UInt8} {l n : Nat} {line : Bytes}
    (h : ∀ s, ¬ Declares line s) :
    finishLine ⟨.size, pending, l, n⟩ line = ⟨.invalid, pending, l, n⟩ := by
  rw [finishLine]
  simp only [size?_eq_none_iff.2 h]

theorem finishLine_last {pending : List UInt8} {l n : Nat} {line : Bytes} (h : Declares line 0) :
    finishLine ⟨.size, pending, l, n⟩ line = ⟨.trailer, pending, l, n⟩ := by
  rw [finishLine]
  simp only [size?_eq_some_iff.2 h]

theorem finishLine_size {pending : List UInt8} {l n size : Nat} {line : Bytes}
    (h : Declares line size) (hsize : 0 < size) :
    finishLine ⟨.size, pending, l, n⟩ line = ⟨.data size, pending, l, n + 1⟩ := by
  obtain ⟨k, rfl⟩ : ∃ k, size = k + 1 := ⟨size - 1, by omega⟩
  rw [finishLine]
  simp only [size?_eq_some_iff.2 h]

theorem finishLine_dataEnd (pending : List UInt8) (l n : Nat) (line : Bytes) :
    finishLine ⟨.dataEnd, pending, l, n⟩ line =
      ⟨if line = [] then .size else .invalid, pending, l, n⟩ := by
  cases line <;> rfl

theorem finishLine_trailer (pending : List UInt8) (l n : Nat) (line : Bytes) :
    finishLine ⟨.trailer, pending, l, n⟩ line =
      ⟨if line = [] then .done else .trailer, pending, l, n⟩ := by
  cases line <;> rfl

/-- A whole line where one is expected and nothing is pending. -/
theorem run_isLine {p : Phase} (hp : p.expectsLine) (l n used : Nat) {line raw : Bytes}
    (h : IsLine line raw) (rest : Bytes) :
    run ⟨p, [], l, n⟩ used (raw ++ rest) =
      (finishLine ⟨p, [], l, n⟩ line).run (used + raw.length) rest := by
  obtain ⟨content, hc, rfl, rfl⟩ := h
  rw [List.append_assoc, List.singleton_append, run_line (by exact hp) used hc]
  simp [Nat.add_assoc]

/-! ## The three kinds of input -/

/-- A fresh scanner follows the form of a body: at each control line it is in the phase that expects
this line, and it has counted the chunks that have begun. -/
theorem run_of_leadsTo {place : Place} {n : Nat} {b : Bytes} (h : LeadsTo place n b) :
    run {} 0 b = (⟨place.phase, [], 0, n⟩, b.length) := by
  -- The form grows at its end, and so does the run: each case runs one more line.
  induction h with
  | start => rfl
  | @data n size b head data _ hhead hsize hdata ih =>
    obtain ⟨line, hline, hdecl⟩ := hhead
    rw [List.append_assoc, run_append, ih, run_isLine rfl 0 n b.length hline data, Place.phase,
      finishLine_size hdecl hsize, ← List.append_nil data, run_data rfl hsize _ hdata]
    simp [run, Place.phase, hdata, Nat.add_assoc]
  | @dataEnd n b close _ hclose ih =>
    rw [run_append, ih, ← List.append_nil close, run_isLine rfl 0 n b.length hclose,
      show Place.dataEnd.phase = .dataEnd from rfl, finishLine_dataEnd]
    simp [run, Place.phase]
  | @last n b head _ hhead ih =>
    obtain ⟨line, hline, hdecl⟩ := hhead
    rw [run_append, ih, ← List.append_nil head, run_isLine rfl 0 n b.length hline, Place.phase,
      finishLine_last hdecl]
    simp [run, Place.phase]
  | @trailer n b raw _ hraw ih =>
    obtain ⟨line, hline, hempty⟩ := hraw
    rw [run_append, ih, ← List.append_nil raw, run_isLine rfl 0 n b.length hline, Place.phase,
      finishLine_trailer, if_neg hempty]
    simp [run]

/-- A body is accepted at its last byte, whatever follows. -/
theorem advance_of_isBody {n : Nat} {body : Bytes} (h : IsBody n body) (after : Bytes) :
    advance {} (body ++ after) = (⟨.done, [], body.length, n⟩, .done body.length) := by
  obtain ⟨start, close, hstart, hclose, rfl⟩ := isBody_iff.1 h
  have hrun : run {} 0 (start ++ close ++ after) =
      (⟨.done, [], 0, n⟩, start.length + close.length) := by
    rw [List.append_assoc, run_append, run_of_leadsTo hstart, run_isLine rfl 0 n _ hclose,
      Place.phase, finishLine_trailer, if_pos rfl, run_of_isFinal rfl]
  rw [advance, hrun]
  simp

/-- A fault is found. -/
theorem advance_of_fault {input : Bytes} (h : Fault input) : (advance {} input).2 = .invalid := by
  cases h with
  | @unreadable n b line raw rest hb hline hdecl =>
    have hrun : run {} 0 (b ++ raw ++ rest) = (⟨.invalid, [], 0, n⟩, b.length + raw.length) := by
      rw [List.append_assoc, run_append, run_of_leadsTo hb, run_isLine rfl 0 n _ hline, Place.phase,
        finishLine_unreadable hdecl, run_of_isFinal rfl]
    rw [advance, hrun]
  | @unclosed n b line raw rest hb hline hempty =>
    have hrun : run {} 0 (b ++ raw ++ rest) = (⟨.invalid, [], 0, n⟩, b.length + raw.length) := by
      rw [List.append_assoc, run_append, run_of_leadsTo hb, run_isLine rfl 0 n _ hline, Place.phase,
        finishLine_dataEnd, if_neg hempty, run_of_isFinal rfl]
    rw [advance, hrun]
  | @overlong place n b tail hb htail hlong =>
    have hrun : run {} 0 (b ++ tail) =
        (⟨place.phase, tail.reverse, 0, n⟩, b.length + tail.length) := by
      rw [run_append, run_of_leadsTo hb, run_open place.expectsLine_phase _ htail, List.append_nil]
    rw [advance, hrun]
    have hlong' : maxLine < tail.reverse.length := by rwa [List.length_reverse]
    cases place <;> simp only [Place.phase] <;> rw [if_pos hlong']

/-- An input without a fault and without an end asks for more. -/
theorem advance_of_unfinished {input : Bytes} (h : Unfinished input) :
    (advance {} input).2 = .needMore := by
  cases h with
  | @line place n b tail hb htail hshort =>
    have hrun : run {} 0 (b ++ tail) =
        (⟨place.phase, tail.reverse, 0, n⟩, b.length + tail.length) := by
      rw [run_append, run_of_leadsTo hb, run_open place.expectsLine_phase _ htail, List.append_nil]
    rw [advance, hrun]
    have hshort' : ¬ maxLine < tail.reverse.length := by
      rw [List.length_reverse]
      omega
    cases place <;> simp only [Place.phase] <;> rw [if_neg hshort']
  | @data n size b head data hb hhead hlt =>
    obtain ⟨line, hline, hdecl⟩ := hhead
    have hrun : run {} 0 (b ++ head ++ data) =
        (⟨.data (size - data.length), [], 0, n + 1⟩, b.length + head.length + data.length) := by
      rw [List.append_assoc, run_append, run_of_leadsTo hb, run_isLine rfl 0 n _ hline, Place.phase,
        finishLine_size hdecl (by omega), run_data_open rfl _ hlt]
    rw [advance, hrun]
    simp

/-! ## The answer -/

/-- The answer `done` shows in the scanner that is left. -/
theorem advance_snd_eq_done_iff {s : Scanner} {slice : Bytes} {used : Nat} :
    (s.advance slice).2 = .done used ↔
      (s.advance slice).1.phase = .done ∧ (s.advance slice).1.bodyLength = s.bodyLength + used := by
  rw [advance]
  rcases s.run 0 slice with ⟨⟨phase, pending, l, n⟩, taken⟩
  cases phase with
  | done => simp
  | invalid => simp
  | _ =>
    simp only
    split <;> simp

/-- A fresh scanner answers `done` at the end of a body, and only there. -/
theorem advance_eq_done_iff {input : Bytes} {used : Nat} :
    (advance {} input).2 = .done used ↔
      used ≤ input.length ∧ ∃ n, IsBody n (input.take used) := by
  constructor
  · intro h
    rcases reads_cases input with ⟨n, body, after, hbody, rfl⟩ | hfault | hopen
    · rw [advance_of_isBody hbody, Step.done.injEq] at h
      subst h
      refine ⟨by simp, n, ?_⟩
      rwa [List.take_left]
    · rw [advance_of_fault hfault] at h
      cases h
    · rw [advance_of_unfinished hopen] at h
      cases h
  · rintro ⟨hused, n, hbody⟩
    have h := advance_of_isBody hbody (input.drop used)
    rw [List.take_append_drop] at h
    rw [h, List.length_take, Nat.min_eq_left hused]

end Scanner

/-- No body goes on after its end. -/
theorem IsBody.eq_of_prefix {m n : Nat} {b c : Bytes} (hb : IsBody m b) (hc : IsBody n c)
    (h : b <+: c) : b = c := by
  obtain ⟨after, rfl⟩ := h
  have hshort := Scanner.advance_of_isBody hb after
  have hwhole := Scanner.advance_of_isBody hc []
  rw [List.append_nil, hshort, Prod.mk.injEq, Step.done.injEq] at hwhole
  have hlen : b.length = (b ++ after).length := hwhole.2
  have hafter : after = [] := by
    rw [List.length_append] at hlen
    exact List.length_eq_zero_iff.1 (by omega)
  rw [hafter, List.append_nil]

namespace Scanner

/-- **One slice is answered by its form.** The end of a body is found where it is, with its length
and the number of its chunks; a fault is found unless a body ends first; any other slice asks for
more. -/
theorem advance_answers (input : Bytes) :
    (∀ used, (advance {} input).2 = .done used ↔
      used ≤ input.length ∧ ∃ n, IsBody n (input.take used)) ∧
    (∀ used n, used ≤ input.length → IsBody n (input.take used) →
      (advance {} input).1.bodyLength = used ∧ (advance {} input).1.chunks = n) ∧
    ((advance {} input).2 = .invalid ↔
      (∀ used n, ¬ IsBody n (input.take used)) ∧ Fault input) ∧
    ((advance {} input).2 = .needMore ↔
      (∀ used n, ¬ IsBody n (input.take used)) ∧ ¬ Fault input) ∧
    (∀ b c m n, IsBody m b → IsBody n c → b <+: c → b = c) := by
  -- Once there is a body the whole answer is known, which rules out the other answers.
  have hdone {used n : Nat} (h : IsBody n (input.take used)) :
      advance {} input = (⟨.done, [], (input.take used).length, n⟩,
        .done (input.take used).length) := by
    have h := advance_of_isBody h (input.drop used)
    rwa [List.take_append_drop] at h
  refine ⟨fun used => advance_eq_done_iff, ?_, ?_, ?_, fun b c m n => IsBody.eq_of_prefix⟩
  · intro used n hused hbody
    rw [hdone hbody]
    simp [hused]
  · constructor
    · intro h
      constructor
      · intro used n hbody
        rw [hdone hbody] at h
        cases h
      · rcases reads_cases input with ⟨n, body, after, hbody, rfl⟩ | hfault | hopen
        · rw [advance_of_isBody hbody] at h
          cases h
        · exact hfault
        · rw [advance_of_unfinished hopen] at h
          cases h
    · rintro ⟨-, hfault⟩
      exact advance_of_fault hfault
  · constructor
    · intro h
      constructor
      · intro used n hbody
        rw [hdone hbody] at h
        cases h
      · intro hfault
        rw [advance_of_fault hfault] at h
        cases h
    · rintro ⟨hbody, hfault⟩
      rcases reads_cases input with ⟨n, body, after, h, rfl⟩ | h | h
      · refine absurd h ?_
        simpa using hbody body.length n
      · exact absurd h hfault
      · exact advance_of_unfinished h

/-- One chunk, the closing chunk and a byte that belongs to what follows. -/
theorem advance_answers_one_chunk :
    let body := Bytes.ofString "1\r\na\r\n0\r\n\r\n"
    let input := body ++ [120]
    11 ≤ input.length ∧ IsBody 1 (input.take 11) ∧ input.take 11 <+: body ∧
      (advance {} input).2 = .done 11 ∧ (advance {} input).1.bodyLength = 11 ∧
      (advance {} input).1.chunks = 1 ∧ input.take 11 = body := by
  intro body input
  have hbody : IsBody 1 body := by
    refine ⟨[Bytes.ofString "1\r\na\r\n"], Bytes.ofString "0\r\n", [], Bytes.ofString "\r\n",
      ?_, rfl, ?_, by simp, ?_, by decide +kernel⟩
    · intro c hc
      rw [List.mem_singleton.1 hc]
      refine ⟨1, Bytes.ofString "1\r\n", [97], Bytes.ofString "\r\n", by decide, ?_, rfl, ?_,
        by decide +kernel⟩
      · exact ⟨[49], ⟨[49, 13], by decide, by decide +kernel, by decide⟩,
          size?_eq_some_iff.1 (by decide +kernel)⟩
      · exact ⟨[13], by decide, by decide +kernel, by decide⟩
    · exact ⟨[48], ⟨[48, 13], by decide, by decide +kernel, by decide⟩,
        size?_eq_some_iff.1 (by decide +kernel)⟩
    · exact ⟨[13], by decide, by decide +kernel, by decide⟩
  have hlen : 11 ≤ input.length := by decide +kernel
  have htake : input.take 11 = body := by decide +kernel
  obtain ⟨hdone, hcounts, -, -, hunique⟩ := advance_answers input
  have hinput : IsBody 1 (input.take 11) := by rwa [htake]
  have hpre : input.take 11 <+: body := ⟨[], by rw [List.append_nil, htake]⟩
  obtain ⟨hlength, hchunks⟩ := hcounts 11 1 hlen hinput
  exact ⟨hlen, hinput, hpre, (hdone 11).2 ⟨hlen, 1, hinput⟩, hlength, hchunks,
    hunique _ _ 1 1 hinput hbody hpre⟩

end Scanner

end TopicRelay.Chunked
