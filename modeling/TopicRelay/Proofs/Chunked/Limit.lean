import TopicRelay.Proofs.Chunked.Acceptance
import TopicRelay.Proofs.Chunked.Slices
import Mathlib.Data.List.Induction

/-!
# The limit on control lines

A scanner looks at the length of a control line at the end of a slice, and only while the line is
still unfinished there. A line that is too long is therefore refused if some slice ends in its
excess (`Overruns`). Otherwise the scanner does what it would do without a limit
(`ofSlices_of_not_overruns`), and a body with a line that is too long may be accepted. The same
bytes can meet either end, depending on how they are cut (`line_limit_depends_on_cuts`).
-/

namespace TopicRelay.Chunked

/-- Reading the input in the form of a body comes to a control line that is not finished and already
too long. -/
def Overlong (input : Bytes) : Prop :=
  ∃ place n b tail, LeadsTo place n b ∧ Bytes.lf ∉ tail ∧ maxLine < tail.length ∧
    input = b ++ tail

/-- After some of the slices a control line is not finished and already too long. -/
def Overruns (slices : List Bytes) : Prop := ∃ fed, fed <+: slices ∧ Overlong fed.flatten

theorem Overruns.mono {fed slices : List Bytes} (h : Overruns fed) (hfed : fed <+: slices) :
    Overruns slices := by
  obtain ⟨first, hfirst, hlong⟩ := h
  exact ⟨first, hfirst.trans hfed, hlong⟩

/-- It is the last slice that overruns the limit, or an earlier one. -/
theorem Overruns.of_concat {fed : List Bytes} {slice : Bytes} (h : Overruns (fed ++ [slice]))
    (hfed : ¬ Overruns fed) : Overlong (fed ++ [slice]).flatten := by
  obtain ⟨first, hfirst, hlong⟩ := h
  rcases List.prefix_concat_iff.1 hfirst with rfl | hearly
  · exact hlong
  · exact absurd ⟨first, hearly, hlong⟩ hfed

theorem Overlong.fault {input : Bytes} (h : Overlong input) : Fault input := by
  obtain ⟨place, n, b, tail, hb, htail, hlong, rfl⟩ := h
  exact .overlong hb htail hlong

namespace Scanner

/-! ## Without a limit -/

/-- The bytes that are taken are all there are, unless the scan ends. -/
theorem run_snd_of_going {s : Scanner} {used : Nat} {b : Bytes}
    (h : (s.run used b).1.phase.isFinal = false) : (s.run used b).2 = used + b.length := by
  induction b generalizing s used with
  | nil => rfl
  | cons x rest ih =>
    rw [run] at h ⊢
    split at h
    · rename_i hfinal
      rw [hfinal] at h
      cases h
    · rename_i hgoing
      rw [if_neg hgoing, ih h, List.length_cons]
      omega

theorem run_of_isBody {n : Nat} {body : Bytes} (h : IsBody n body) (after : Bytes) :
    run {} 0 (body ++ after) = (⟨.done, [], 0, n⟩, body.length) := by
  obtain ⟨start, close, hstart, hclose, rfl⟩ := isBody_iff.1 h
  rw [List.append_assoc, run_append, run_of_leadsTo hstart, run_isLine rfl 0 n _ hclose,
    Place.phase, finishLine_trailer, if_pos rfl, run_of_isFinal rfl, List.length_append]

/-- No more bytes are taken than there are. -/
theorem run_snd_le (s : Scanner) (used : Nat) (b : Bytes) : (s.run used b).2 ≤ used + b.length := by
  induction b generalizing s used with
  | nil => exact Nat.le_refl _
  | cons x rest ih =>
    rw [run]
    split
    · exact Nat.le_add_right _ _
    · have hrest := ih (s.push x) (used + 1)
      rw [List.length_cons]
      omega

/-- Of the beginnings of an input that starts with a body nothing is taken but what belongs to the
body. -/
theorem run_of_prefix {n : Nat} {body x after : Bytes} (h : IsBody n body)
    (hx : x <+: body ++ after) :
    (run {} 0 x).1.phase ≠ .invalid ∧ (run {} 0 x).2 = min body.length x.length := by
  rcases List.prefix_or_prefix_of_prefix hx (List.prefix_append body after) with
    ⟨more, rfl⟩ | ⟨more, rfl⟩
  · have hwhole := run_of_isBody h []
    rw [List.append_nil, run_append] at hwhole
    rcases hgoing : (run {} 0 x).1.phase.isFinal
    · refine ⟨fun hno => ?_, ?_⟩
      · rw [hno] at hgoing
        cases hgoing
      · rw [run_snd_of_going hgoing, Nat.zero_add, List.length_append]
        omega
    · -- The body has ended, so that nothing of it is left.
      rw [run_of_isFinal hgoing] at hwhole
      have hle := run_snd_le {} 0 x
      have hused : (run {} 0 x).2 = (x ++ more).length := congrArg Prod.snd hwhole
      have hphase : (run {} 0 x).1.phase = .done := congrArg (·.1.phase) hwhole
      rw [hphase, hused]
      rw [hused] at hle
      exact ⟨nofun, by omega⟩
  · rw [run_of_isBody h, List.length_append]
    refine ⟨nofun, ?_⟩
    simp only
    omega

theorem run_of_overlong_input {input : Bytes} (h : Overlong input) :
    (run {} 0 input).1.phase.isFinal = false ∧ maxLine < (run {} 0 input).1.pending.length := by
  obtain ⟨place, n, b, tail, hb, htail, hlong, rfl⟩ := h
  rw [run_append, run_of_leadsTo hb, run_open place.expectsLine_phase _ htail, List.append_nil]
  exact ⟨Phase.isFinal_of_expectsLine place.expectsLine_phase, by rwa [List.length_reverse]⟩

/-- Apart from a line that is too long, a fault is found whether or not there is a limit. -/
theorem run_of_fault {input : Bytes} (h : Fault input) :
    Overlong input ∨ (run {} 0 input).1.phase = .invalid := by
  cases h with
  | @unreadable n b line raw rest hb hline hdecl =>
    refine Or.inr ?_
    rw [List.append_assoc, run_append, run_of_leadsTo hb, run_isLine rfl 0 n _ hline, Place.phase,
      finishLine_unreadable hdecl, run_of_isFinal rfl]
  | @unclosed n b line raw rest hb hline hempty =>
    refine Or.inr ?_
    rw [List.append_assoc, run_append, run_of_leadsTo hb, run_isLine rfl 0 n _ hline, Place.phase,
      finishLine_dataEnd, if_neg hempty, run_of_isFinal rfl]
  | overlong hb htail hlong => exact Or.inl ⟨_, _, _, _, hb, htail, hlong, rfl⟩

/-- The answer `invalid` shows in the scanner that is left. -/
theorem advance_snd_eq_invalid_iff {s : Scanner} {slice : Bytes} :
    (s.advance slice).2 = .invalid ↔ (s.advance slice).1.phase = .invalid := by
  rw [advance]
  rcases s.run 0 slice with ⟨⟨phase, pending, l, n⟩, taken⟩
  cases phase with
  | done | invalid => simp
  | _ =>
    simp only
    split <;> simp

/-- A scan that has not ended and has too long a line pending has come to such a line. -/
theorem overlong_of_run {input : Bytes} (hgoing : (run {} 0 input).1.phase.isFinal = false)
    (hlong : maxLine < (run {} 0 input).1.pending.length) : Overlong input := by
  have hinvalid : (advance {} input).2 = .invalid :=
    advance_snd_eq_invalid_iff.2 (advance_phase_eq_invalid_iff.2 (Or.inr ⟨hgoing, hlong⟩))
  rcases reads_cases input with ⟨n, body, after, hbody, rfl⟩ | hfault | hopen
  · rw [advance_of_isBody hbody] at hinvalid
    cases hinvalid
  · rcases run_of_fault hfault with hover | hno
    · exact hover
    · rw [hno] at hgoing
      cases hgoing
  · rw [advance_of_unfinished hopen] at hinvalid
    cases hinvalid

/-! ## Slice after slice -/

/-- A fresh scanner that was given slices one after the other. -/
def ofSlices (slices : List Bytes) : Scanner := slices.foldl (fun s slice => (s.advance slice).1) {}

theorem ofSlices_concat (slices : List Bytes) (slice : Bytes) :
    ofSlices (slices ++ [slice]) = ((ofSlices slices).advance slice).1 := by
  rw [ofSlices, List.foldl_append]
  rfl

/-- A scan that has ended is not taken up again. -/
theorem ofSlices_of_isFinal {fed slices : List Bytes} (hfed : fed <+: slices)
    (h : (ofSlices fed).phase.isFinal) : ofSlices slices = ofSlices fed := by
  obtain ⟨more, rfl⟩ := hfed
  induction more using List.reverseRecOn with
  | nil => rw [List.append_nil]
  | append_singleton more slice ih =>
    rw [← List.append_assoc, ofSlices_concat, ih, advance_of_isFinal h]

/-- Where no slice overruns the limit a scanner comes to what it would come to without a limit. -/
theorem ofSlices_of_not_overruns {slices : List Bytes} (h : ¬ Overruns slices) :
    let (t, used) := run {} 0 slices.flatten
    (ofSlices slices).phase = t.phase ∧
      (t.phase ≠ .invalid → ofSlices slices = { t with bodyLength := used }) := by
  -- The induction goes backwards, because the last slice is the one that is taken last.
  induction slices using List.reverseRecOn with
  | nil => exact ⟨rfl, fun _ => rfl⟩
  | append_singleton fed slice ih =>
    obtain ⟨hphase, heq⟩ := ih fun hearly => h (hearly.mono (List.prefix_append _ _))
    have hflatten : (fed ++ [slice]).flatten = fed.flatten ++ slice := by simp
    have hwithin : ¬ ((run {} 0 (fed ++ [slice]).flatten).1.phase.isFinal = false ∧
        maxLine < (run {} 0 (fed ++ [slice]).flatten).1.pending.length) := fun hlong =>
      h ⟨_, List.prefix_refl _, overlong_of_run hlong.1 hlong.2⟩
    rw [hflatten] at hwithin ⊢
    simp only at hphase heq ⊢
    by_cases hinvalid : (run {} 0 fed.flatten).1.phase = .invalid
    · have hfinal : (ofSlices fed).phase.isFinal := by rw [hphase, hinvalid]; rfl
      have hfinal' : (run {} 0 fed.flatten).1.phase.isFinal := by rw [hinvalid]; rfl
      rw [ofSlices_concat, advance_of_isFinal hfinal, run_append, run_of_isFinal hfinal']
      exact ⟨hphase, fun hne => absurd hinvalid hne⟩
    · have hrun : run {} 0 (fed.flatten ++ slice) =
          (((run {} 0 fed.flatten).1.run 0 slice).1,
            (run {} 0 fed.flatten).2 + ((run {} 0 fed.flatten).1.run 0 slice).2) := by
        rw [run_append, run_used]
      rw [hrun] at hwithin ⊢
      rw [ofSlices_concat, heq hinvalid, advance_fst, run_withLength]
      generalize (run {} 0 fed.flatten).1.run 0 slice = r at hwithin ⊢
      simp only at hwithin ⊢
      split
      · rename_i hno
        exact ⟨rfl, fun hne => absurd hno hne⟩
      · rename_i hno
        rw [if_neg]
        · exact ⟨rfl, fun _ => rfl⟩
        · rintro ⟨hdone, hlong⟩
          refine hwithin ⟨?_, hlong⟩
          rcases hr : r.1.phase <;> simp_all [Phase.isFinal]

/-- A scanner that is given all bytes at once finds a fault unless a body ends first. -/
theorem advance_eq_invalid_iff {input : Bytes} : (advance {} input).2 = .invalid ↔
    (∀ n body, IsBody n body → ¬ body <+: input) ∧ Fault input := by
  constructor
  · intro hinvalid
    refine ⟨?_, ?_⟩
    · rintro n body hbody ⟨after, rfl⟩
      rw [advance_of_isBody hbody] at hinvalid
      cases hinvalid
    · rcases reads_cases input with ⟨n, body, after, hbody, rfl⟩ | hfault | hopen
      · rw [advance_of_isBody hbody] at hinvalid
        cases hinvalid
      · exact hfault
      · rw [advance_of_unfinished hopen] at hinvalid
        cases hinvalid
  · rintro ⟨-, hfault⟩
    exact advance_of_fault hfault

/-- Where no slice overruns the limit the slices come to the same as all bytes at once. -/
theorem phase_ofSlices {slices : List Bytes} (h : ¬ Overruns slices) :
    (ofSlices slices).phase = (advance {} slices.flatten).1.phase := by
  rw [(ofSlices_of_not_overruns h).1]
  by_cases hinvalid : (advance {} slices.flatten).1.phase = .invalid
  · rcases advance_phase_eq_invalid_iff.1 hinvalid with hno | ⟨hgoing, hlong⟩
    · rw [hno, hinvalid]
    · exact absurd ⟨slices, List.prefix_refl _, overlong_of_run hgoing hlong⟩ h
  · rw [advance_of_ne_invalid hinvalid]

/-- A slice that ends in the excess of a control line is refused, and so is every later one. -/
theorem ofSlices_of_overruns {slices : List Bytes} (h : Overruns slices) :
    (ofSlices slices).phase = .invalid := by
  induction slices using List.reverseRecOn with
  | nil =>
    obtain ⟨fed, hfed, hlong⟩ := h
    rw [List.prefix_nil.1 hfed] at hlong
    obtain ⟨place, n, b, tail, -, -, hlong, heq⟩ := hlong
    obtain ⟨-, rfl⟩ := List.append_eq_nil_iff.1 heq.symm
    cases hlong
  | append_singleton fed slice ih =>
    rw [ofSlices_concat]
    by_cases hfed : Overruns fed
    · rw [advance_of_isFinal (by rw [ih hfed]; rfl), ih hfed]
    · have hflatten : (fed ++ [slice]).flatten = fed.flatten ++ slice := by simp
      obtain ⟨hgoing, hlong⟩ := run_of_overlong_input (h.of_concat hfed)
      obtain ⟨-, heq⟩ := ofSlices_of_not_overruns hfed
      rw [hflatten, run_append] at hgoing hlong
      -- The scan goes on after the slices before, since it goes on after this one.
      have hno : (run {} 0 fed.flatten).1.phase ≠ .invalid := by
        intro hno
        rw [run_of_isFinal (by rw [hno]; rfl), hno] at hgoing
        cases hgoing
      rw [run_used] at hgoing hlong
      rw [advance_phase_eq_invalid_iff, heq hno, run_withLength]
      exact Or.inr ⟨hgoing, hlong⟩

/-- Before the limit is overrun no body ends. -/
theorem ofSlices_ne_done {fed slices : List Bytes} (h : Overruns slices) (hfed : fed <+: slices) :
    (ofSlices fed).phase ≠ .done := by
  intro hdone
  have hfinal : (ofSlices fed).phase.isFinal := by rw [hdone]; rfl
  have hend := ofSlices_of_overruns h
  rw [ofSlices_of_isFinal hfed hfinal, hdone] at hend
  cases hend

/-- While the limit is not overrun slices that start with a body lead to its end, with its length
and the number of its chunks. -/
theorem ofSlices_of_isBody {slices : List Bytes} (h : ¬ Overruns slices) {n : Nat} {body : Bytes}
    (hbody : IsBody n body) (hpre : body <+: slices.flatten) :
    ofSlices slices = ⟨.done, [], body.length, n⟩ := by
  obtain ⟨after, hinput⟩ := hpre
  obtain ⟨-, heq⟩ := ofSlices_of_not_overruns h
  rw [← hinput, run_of_isBody hbody] at heq
  exact heq nofun

/-- While the limit is not overrun a body is accepted in the slice in which it ends, and the bytes
of this slice that belong to it are counted. -/
theorem advance_ofSlices_of_isBody {early : List Bytes} {slice : Bytes}
    (h : ¬ Overruns (early ++ [slice])) {n : Nat} {body : Bytes} (hbody : IsBody n body)
    (hpre : body <+: (early ++ [slice]).flatten) :
    (ofSlices early).advance slice =
      (⟨.done, [], body.length, n⟩, .done (body.length - early.flatten.length)) := by
  have hscanner := ofSlices_of_isBody h hbody hpre
  rw [ofSlices_concat] at hscanner
  obtain ⟨after, hinput⟩ := hpre
  have hearly : early.flatten <+: body ++ after := by
    rw [hinput, List.flatten_append]
    exact List.prefix_append _ _
  obtain ⟨hno, hused⟩ := run_of_prefix hbody hearly
  obtain ⟨-, hbefore⟩ := ofSlices_of_not_overruns fun hover =>
    h (hover.mono (List.prefix_append _ _))
  have hanswer : ((ofSlices early).advance slice).2 =
      .done (body.length - early.flatten.length) := by
    rw [advance_snd_eq_done_iff, hscanner, hbefore hno, hused]
    refine ⟨rfl, ?_⟩
    simp only
    omega
  rw [← hanswer, ← hscanner]

/-- **The limit is looked at where slices end.** If a slice ends in the excess of a control line, no
slice is answered by the end of a body, and this slice and all later ones are refused. If no slice
ends there, the scanner takes no notice of the limit: each slice is answered by the form of all
bytes so far, in which a control line may have any length. -/
theorem line_limit_applies_where_slices_end (slices early : List Bytes) (slice : Bytes)
    (hslices : early ++ [slice] <+: slices) :
    let input := (early ++ [slice]).flatten
    let after := ((ofSlices early).advance slice).1
    let answer := ((ofSlices early).advance slice).2
    (Overruns slices →
      (∀ used, answer ≠ .done used) ∧ (Overruns (early ++ [slice]) → answer = .invalid)) ∧
    (¬ Overruns slices →
      (∀ used, answer = .done used ↔
        ∃ n body, IsBody n body ∧ body <+: input ∧ used = body.length - early.flatten.length) ∧
      (∀ n body, IsBody n body → body <+: input →
        after.bodyLength = body.length ∧ after.chunks = n) ∧
      (answer = .invalid ↔ (∀ n body, IsBody n body → ¬ body <+: input) ∧ Fault input)) := by
  intro input after answer
  have hconcat : ofSlices (early ++ [slice]) = after := ofSlices_concat early slice
  refine ⟨fun hover => ⟨fun used hdone => ?_, fun hnow => ?_⟩, fun hover => ?_⟩
  · have hphase := (advance_snd_eq_done_iff.1 hdone).1
    exact ofSlices_ne_done hover hslices (by rw [hconcat]; exact hphase)
  · exact advance_snd_eq_invalid_iff.2 (by rw [← ofSlices_concat, ofSlices_of_overruns hnow])
  · have hnow : ¬ Overruns (early ++ [slice]) := fun h => hover (h.mono hslices)
    have hphase : after.phase = (advance {} input).1.phase := hconcat ▸ phase_ofSlices hnow
    have hends {n : Nat} {body : Bytes} (hbody : IsBody n body) (hpre : body <+: input) :
        (after, answer) =
          (⟨.done, [], body.length, n⟩, .done (body.length - early.flatten.length)) :=
      advance_ofSlices_of_isBody hnow hbody hpre
    refine ⟨fun used => ⟨fun hdone => ?_, ?_⟩, fun n body hbody hpre => ?_, ?_⟩
    · have hdone' : (advance {} input).1.phase = .done :=
        hphase.symm.trans (advance_snd_eq_done_iff.1 hdone).1
      have hwhole := advance_snd_eq_done_iff.2 ⟨hdone', (Nat.zero_add _).symm⟩
      obtain ⟨-, n, hbody⟩ := advance_eq_done_iff.1 hwhole
      have hpre := List.take_prefix (advance {} input).1.bodyLength input
      have hend := congrArg Prod.snd (hends hbody hpre)
      exact ⟨n, _, hbody, hpre, Step.done.inj (hdone.symm.trans hend)⟩
    · rintro ⟨n, body, hbody, hpre, rfl⟩
      exact congrArg Prod.snd (hends hbody hpre)
    · have hend := congrArg Prod.fst (hends hbody hpre)
      exact ⟨congrArg bodyLength hend, congrArg chunks hend⟩
    · rw [← advance_eq_invalid_iff, advance_snd_eq_invalid_iff, advance_snd_eq_invalid_iff, hphase]

/-! ## A body with a line that is too long -/

/-- A size line of 4097 bytes: the size of the closing chunk with a long extension. -/
def overlongLine : Bytes := Bytes.ofString "0;" ++ List.replicate 4095 97

theorem isBody_overlongLine : IsBody 0 (overlongLine ++ [Bytes.lf, Bytes.lf]) := by
  have hsize : size? (Bytes.dropCR overlongLine) = some 0 := by decide +kernel
  have hline : IsLine (Bytes.dropCR overlongLine) (overlongLine ++ [Bytes.lf]) :=
    ⟨overlongLine, by decide +kernel, rfl, rfl⟩
  have hclose : IsLine [] [Bytes.lf] := ⟨[], List.not_mem_nil, rfl, rfl⟩
  refine isBody_iff.2 ⟨_, _, LeadsTo.start.last ⟨_, hline, size?_eq_some_iff.1 hsize⟩, hclose, ?_⟩
  simp

theorem length_overlongLine : overlongLine.length = 4097 := by decide +kernel

theorem overlong_overlongLine : Overlong overlongLine := by
  refine ⟨.size, 0, [], overlongLine, .start, by decide +kernel, ?_, rfl⟩
  rw [length_overlongLine]
  decide

theorem overruns_overlongLine : Overruns [overlongLine] :=
  ⟨_, List.prefix_refl _, by rw [List.flatten_singleton]; exact overlong_overlongLine⟩

/-- The body in two slices that are cut before its first line feed, and in one slice. -/
theorem line_limit_applies_where_slices_end_twice :
    let whole := overlongLine ++ [Bytes.lf, Bytes.lf]
    let cut := [overlongLine, [Bytes.lf, Bytes.lf]]
    ([overlongLine] ++ [[Bytes.lf, Bytes.lf]] <+: cut ∧ Overruns cut ∧
      ((ofSlices [overlongLine]).advance [Bytes.lf, Bytes.lf]).2 = .invalid) ∧
    ([] ++ [whole] <+: [whole] ∧ ¬ Overruns [whole] ∧
      ((ofSlices []).advance whole).2 = .done 4099) := by
  intro whole cut
  have hbody : IsBody 0 whole := isBody_overlongLine
  have hlength : whole.length = 4099 := by
    rw [List.length_append, length_overlongLine]
    rfl
  -- From here on nothing depends on the bytes.
  clear_value whole
  have hover : Overruns cut := overruns_overlongLine.mono (List.prefix_append _ _)
  have hwithin : ¬ Overruns [whole] := by
    intro hno
    have hinvalid := ofSlices_of_overruns hno
    have hdone := advance_of_isBody hbody []
    rw [List.append_nil] at hdone
    rw [← List.nil_append [whole], ofSlices_concat, ofSlices, List.foldl_nil, hdone] at hinvalid
    cases hinvalid
  obtain ⟨hrefused, -⟩ := line_limit_applies_where_slices_end cut [overlongLine]
    [Bytes.lf, Bytes.lf] (List.prefix_refl _)
  obtain ⟨-, hpassed⟩ := line_limit_applies_where_slices_end [whole] [] whole (List.prefix_refl _)
  have hflatten : ([] ++ [whole]).flatten = whole := by
    rw [List.nil_append, List.flatten_singleton]
  have hused : 4099 = List.length whole - ([] : List Bytes).flatten.length := by
    rw [hlength, List.flatten_nil, List.length_nil]
  exact ⟨⟨List.prefix_refl _, hover, (hrefused hover).2 hover⟩, List.prefix_refl _, hwithin,
    ((hpassed hwithin).1 4099).2
      ⟨0, whole, hbody, hflatten.symm ▸ List.prefix_refl _, hused⟩⟩

/-- **Whether a long control line is refused depends on the cuts.** A body whose size line has 4097
bytes before its line feed is accepted in one slice; cut at the line feed, the same bytes are
refused. -/
theorem line_limit_depends_on_cuts :
    let whole := overlongLine ++ [Bytes.lf, Bytes.lf]
    Bytes.lf ∉ overlongLine ∧ maxLine < overlongLine.length ∧
      ((ofSlices []).advance whole).2 = .done 4099 ∧
      ((ofSlices []).advance overlongLine).2 = .invalid ∧
      ((ofSlices [overlongLine]).advance [Bytes.lf, Bytes.lf]).2 = .invalid := by
  intro whole
  have hdone := advance_of_isBody isBody_overlongLine []
  rw [List.append_nil, List.length_append, length_overlongLine] at hdone
  have hphase := ofSlices_of_overruns overruns_overlongLine
  refine ⟨by decide +kernel, ?_, congrArg Prod.snd hdone,
    advance_of_fault overlong_overlongLine.fault, ?_⟩
  · rw [length_overlongLine]
    decide
  · rw [advance_snd_eq_invalid_iff, advance_of_isFinal (by rw [hphase]; rfl), hphase]

end Scanner

end TopicRelay.Chunked
