import TopicRelay.Proofs.Chunked.Words

/-!
# A body as a stream of slices

Where a stream of bytes is cut into slices is of no account to a scanner, as long as no control line
is finished that is longer than may stay unfinished: two slices one after the other come to what
both at once come to (`composes`). What is counted on the way is exact after each slice (`counts`),
and it can be counted in machine words.
-/

namespace TopicRelay.Chunked.Scanner

/-- Two slices one after the other come to what both at once come to. -/
structure Composes (s : Scanner) (xs ys : Bytes) : Prop where
  phase_eq : ((s.advance xs).1.advance ys).1.phase = (s.advance (xs ++ ys)).1.phase
  chunks_eq : ((s.advance xs).1.advance ys).1.chunks = (s.advance (xs ++ ys)).1.chunks
  /-- What is pending is the same, and so is the length, unless the scan ended without a body. -/
  kept_eq : (s.advance (xs ++ ys)).1.phase ≠ .invalid →
    ((s.advance xs).1.advance ys).1.pending = (s.advance (xs ++ ys)).1.pending ∧
      ((s.advance xs).1.advance ys).1.bodyLength = (s.advance (xs ++ ys)).1.bodyLength
  /-- The end of the body is found in the slice that has its last byte. -/
  done : ∀ used, (s.advance (xs ++ ys)).2 = .done used →
    (s.advance xs).2 = .done used ∧ ((s.advance xs).1.advance ys).2 = .done 0 ∨
      (s.advance xs).2 = .needMore ∧ xs.length ≤ used ∧
        ((s.advance xs).1.advance ys).2 = .done (used - xs.length)

/-- The bytes of a body that is found in two slices are those of the first and the rest. -/
theorem advance_append_done {s : Scanner} {xs ys : Bytes} {used : Nat}
    (hvalid : (s.advance xs).1.phase ≠ .invalid) (h : (s.advance (xs ++ ys)).2 = .done used) :
    (s.advance xs).2 = .done used ∧ ((s.advance xs).1.advance ys).2 = .done 0 ∨
      (s.advance xs).2 = .needMore ∧ xs.length ≤ used ∧
        ((s.advance xs).1.advance ys).2 = .done (used - xs.length) := by
  obtain ⟨hphase, hlength⟩ := advance_snd_eq_done_iff.1 h
  obtain ⟨-, heq⟩ := advance_append hvalid ys
  have hboth := heq (by rw [hphase]; exact nofun)
  rcases hfirst : (s.advance xs).1.phase.isFinal
  · have hcount := bodyLength_advance_of_going hfirst
    have hgrown := bodyLength_advance_ge (s.advance xs).1 ys
    rw [hboth] at hgrown
    refine Or.inr ⟨advance_snd_eq_needMore_iff.2 hfirst, by omega, ?_⟩
    rw [advance_snd_eq_done_iff, hboth]
    exact ⟨hphase, by omega⟩
  · have hdone : (s.advance xs).1.phase = .done := by
      rcases hp : (s.advance xs).1.phase <;> simp_all [Phase.isFinal]
    rw [advance_of_done hdone] at hboth ⊢
    refine Or.inl ⟨advance_snd_eq_done_iff.2 ⟨hdone, ?_⟩, rfl⟩
    rw [show (s.advance xs).1 = (s.advance (xs ++ ys)).1 from hboth, hlength]

theorem composes {s : Scanner} {xs ys : Bytes} (h : s.LinesWithin (xs ++ ys)) :
    s.Composes xs ys := by
  have hchunks := chunks_advance_advance h
  by_cases hfirst : (s.advance xs).1.phase = .invalid
  · have hwhole := advance_append_of_invalid hfirst h
    refine ⟨?_, hchunks, fun hvalid => absurd hwhole hvalid, fun used hdone => ?_⟩
    · rw [advance_of_invalid hfirst, hwhole, hfirst]
    · rw [(advance_snd_eq_done_iff.1 hdone).1] at hwhole
      cases hwhole
  · obtain ⟨hphase, heq⟩ := advance_append hfirst ys
    refine ⟨hphase, hchunks, fun hvalid => ?_, fun used => advance_append_done hfirst⟩
    rw [heq hvalid]
    exact ⟨rfl, rfl⟩

/-- What is counted after the slices `fed` and one more is exact. -/
structure Counts (fed : List Bytes) (slice : Bytes) : Prop where
  /-- While the scan goes on all bytes are counted. -/
  needMore : ((ofSlices fed).advance slice).2 = .needMore →
    ((ofSlices fed).advance slice).1.bodyLength = (fed ++ [slice]).flatten.length
  /-- From the end of the body on its bytes are counted, and no slice changes anything. -/
  done : ∀ used, ((ofSlices fed).advance slice).2 = .done used →
    (∃ body, IsBody ((ofSlices fed).advance slice).1.chunks body ∧
      body <+: (fed ++ [slice]).flatten ∧
      ((ofSlices fed).advance slice).1.bodyLength = body.length) ∧
    ∀ more, ((ofSlices fed).advance slice).1.advance more =
      (((ofSlices fed).advance slice).1, .done 0)
  /-- A slice that ends the scan without a body is not counted, and no slice changes anything. -/
  invalid : ((ofSlices fed).advance slice).2 = .invalid →
    ((ofSlices fed).advance slice).1.bodyLength ≤ (ofSlices fed).bodyLength ∧
    ∀ more, ((ofSlices fed).advance slice).1.advance more =
      (((ofSlices fed).advance slice).1, .invalid)
  chunks_le : (ofSlices fed).chunks ≤ ((ofSlices fed).advance slice).1.chunks

theorem counts (fed : List Bytes) (slice : Bytes) : Counts fed slice := by
  have hconcat := ofSlices_concat fed slice
  refine ⟨fun h => ?_, fun used h => ⟨?_, ?_⟩, fun h => ⟨?_, ?_⟩, ?_⟩
  · rw [advance_snd_eq_needMore_iff, ← hconcat] at h
    rw [← hconcat, bodyLength_ofSlices_of_going h]
  · rw [← hconcat]
    exact exists_isBody_of_done (by rw [hconcat, (advance_snd_eq_done_iff.1 h).1])
  · exact advance_of_done (advance_snd_eq_done_iff.1 h).1
  · exact (bodyLength_advance_of_invalid (advance_snd_eq_invalid_iff.1 h)).le
  · exact advance_of_invalid (advance_snd_eq_invalid_iff.1 h)
  · rw [chunks_advance]
    exact (chunks_run _ _ _).1

/-- **Cuts are of no account, and counts are exact.** After any slices, two more that finish no
control line beyond the limit come to what both at once come to, and to the same answer where a body
ends. Each slice is counted in full as long as the scan goes on; from the end of the body on the
length is that of the body. Nothing changes after the end, the chunks are never fewer, and no sum or
difference leaves the machine words before the bytes themselves do. -/
theorem slices_compose_and_count (fed : List Bytes) :
    (∀ xs ys, (ofSlices fed).LinesWithin (xs ++ ys) → (ofSlices fed).Composes xs ys) ∧
    (∀ slice, Counts fed slice) ∧
    (∀ slice, (fed ++ [slice]).flatten.length < Numeral.wordBound →
      walk slice (ofSlices fed) 0 = some ((ofSlices fed).advance slice)) :=
  ⟨fun _ _ => composes, counts fed, fun _ => walk_ofSlices⟩

/-- A body that is cut within its first size line and within the data of its chunk. -/
theorem slices_compose_and_count_cut_body :
    let fed := [Bytes.ofString "5\r"]
    let xs := Bytes.ofString "\nhe"
    let ys := Bytes.ofString "llo\r\n0\r\n\r\nX"
    (ofSlices fed).LinesWithin (xs ++ ys) ∧
      ((ofSlices fed).advance (xs ++ ys)).2 = .done 13 ∧
      ((ofSlices fed).advance xs).2 = .needMore ∧
      (((ofSlices fed).advance xs).1.advance ys).2 = .done 10 ∧
      (fed ++ [xs ++ ys]).flatten.length < Numeral.wordBound ∧
      (walk (xs ++ ys) (ofSlices fed) 0).map Prod.snd = some (.done 13) := by
  intro fed xs ys
  obtain ⟨hcompose, -, hwords⟩ := slices_compose_and_count fed
  have hlines : (ofSlices fed).LinesWithin (xs ++ ys) := .of_length_le (by decide +kernel)
  have hdone : ((ofSlices fed).advance (xs ++ ys)).2 = .done 13 := by decide +kernel
  have hlength : (fed ++ [xs ++ ys]).flatten.length < Numeral.wordBound := by decide +kernel
  have hmore : ((ofSlices fed).advance xs).2 = .needMore := by decide +kernel
  refine ⟨hlines, hdone, hmore, ?_, hlength, ?_⟩
  · rcases (hcompose xs ys hlines).done 13 hdone with ⟨hfirst, -⟩ | ⟨-, -, hsecond⟩
    · rw [hmore] at hfirst
      cases hfirst
    · exact hsecond
  · rw [hwords _ hlength, Option.map_some, hdone]

end TopicRelay.Chunked.Scanner
