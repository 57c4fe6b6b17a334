import TopicRelay.Proofs.Framing.MessageEnd
import TopicRelay.Proofs.Chunked.Slices

/-!
# Responses that arrive in pieces

However a response is cut into pieces, a framer that is fed them one after the other comes to what
it would be if it had been fed all at once. `Follows` is the invariant behind this: a framer is what
the bytes fed to it make of it at once (`ofBytes`), except that it takes no notice of what comes
after it has completed or stalled. The step is `Follows.feed`.

What a framer finds complete is complete for all the bytes (`Follows.ends`). The converse needs the
two limits, which are looked at where a piece ends: `isStalled_append` says that within them no
framer gives up on a beginning of the response that goes on well.
-/

namespace TopicRelay.Framer

open Header (EndsAt StaysOpen)
open Chunked (Scanner)

/-- A framer with a limit on the header block, after pieces that were fed to it one by one. -/
def ofPieces (maxHeader : Nat) (pieces : List Bytes) : Framer := pieces.foldl feed { maxHeader }

theorem ofPieces_append (maxHeader : Nat) (pieces more : List Bytes) :
    ofPieces maxHeader (pieces ++ more) = more.foldl feed (ofPieces maxHeader pieces) :=
  List.foldl_append

theorem ofPieces_concat (maxHeader : Nat) (pieces : List Bytes) (piece : Bytes) :
    ofPieces maxHeader (pieces ++ [piece]) = (ofPieces maxHeader pieces).feed piece :=
  ofPieces_append maxHeader pieces [piece]

/-- What is observed of a framer, its progress apart. -/
def observed (f : Framer) : Bool × Nat × BodyMode × Option Nat × Bool :=
  (f.headerComplete, f.headerLength, f.bodyMode, f.totalNeeded?, f.isStalled)

/-! ## One more piece -/

theorem feed_of_completeAt? {f : Framer} {n : Nat} (h : f.completeAt? = some n) (piece : Bytes) :
    f.feed piece = f := by
  rw [feed, h]

theorem feed_of_completeAt?_eq_none {f : Framer} (h : f.completeAt? = none) (piece : Bytes) :
    f.feed piece = ⟨f.maxHeader, f.consumed + piece.length,
      advancePart f.maxHeader (f.consumed + piece.length) piece f.part⟩ := by
  rw [feed, h]

theorem totalNeeded?_of_isStalled {f : Framer} (h : f.isStalled) : f.totalNeeded? = none := by
  obtain ⟨maxHeader, consumed, part⟩ := f
  rcases part with seen | _ | ⟨k, _ | length | s⟩ <;> simp_all [isStalled, totalNeeded?]

/-- A stalled framer counts the bytes and is otherwise left as it is. -/
theorem observed_feed_of_isStalled {f : Framer} (h : f.isStalled) (piece : Bytes) :
    (f.feed piece).observed = f.observed := by
  have hnone : f.completeAt? = none := by rw [completeAt?, totalNeeded?_of_isStalled h]; rfl
  rw [feed_of_completeAt?_eq_none hnone]
  obtain ⟨maxHeader, consumed, part⟩ := f
  rcases part with seen | _ | ⟨k, _ | length | s⟩
  · cases h
  · rfl
  · cases h
  · cases h
  · have hs : s.phase = .invalid := of_decide_eq_true h
    rw [advancePart, Scanner.advance_of_isFinal (by rw [hs]; rfl)]
    rfl

theorem observed_of_invalid {maxHeader consumed h : Nat} {s : Scanner} (hs : s.phase = .invalid) :
    observed ⟨maxHeader, consumed, .body h (.chunked s)⟩ = (true, h, .chunked, none, true) := by
  simp only [observed, headerComplete, headerLength, bodyMode, totalNeeded?, isStalled, hs]
  rfl

/-- A piece of the body, after the bytes `rest` of it: as if both had come at once, down to what a
scanner that has just given up remembers. -/
theorem advancePart_bodyOf {maxHeader consumed before h : Nat} {header rest : Bytes}
    (hgoing : isStalled ⟨maxHeader, before, .body h (bodyOf header rest)⟩ = false) (piece : Bytes) :
    let f : Framer := ⟨maxHeader, consumed,
      advancePart maxHeader consumed piece (.body h (bodyOf header rest))⟩
    let g : Framer := ⟨maxHeader, consumed, .body h (bodyOf header (rest ++ piece))⟩
    f.observed = g.observed ∧ (f.isStalled = false → f = g) := by
  intro f g
  rcases bodyOf_cases header with ⟨length, -, hbody⟩ | ⟨-, -, hbody⟩ | ⟨-, -, hbody⟩
  · have heq : f = g := by
      simp only [f, g, hbody, advancePart]
    exact ⟨by rw [heq], fun _ => heq⟩
  · rw [hbody] at hgoing
    have hne : (Scanner.advance {} rest).1.phase ≠ .invalid := of_decide_eq_false hgoing
    obtain ⟨hphase, heq⟩ := Scanner.advance_append hne piece
    have hf : f = ⟨maxHeader, consumed,
        .body h (.chunked ((Scanner.advance {} rest).1.advance piece).1)⟩ := by
      simp only [f, hbody, advancePart]
    have hg : g = ⟨maxHeader, consumed,
        .body h (.chunked (Scanner.advance {} (rest ++ piece)).1)⟩ := by
      simp only [g, hbody]
    rw [hf, hg]
    -- Scanners that have given up differ in what they remember, which is not observed.
    by_cases hinv : (Scanner.advance {} (rest ++ piece)).1.phase = .invalid
    · rw [hinv] at hphase
      rw [observed_of_invalid hphase, observed_of_invalid hinv]
      exact ⟨rfl, fun hgo => absurd hphase (of_decide_eq_false hgo)⟩
    · rw [heq hinv]
      exact ⟨rfl, fun _ => rfl⟩
  · have heq : f = g := by
      simp only [f, g, hbody, advancePart]
    exact ⟨by rw [heq], fun _ => heq⟩

/-- The next piece after bytes that were fed at once: as if it had been fed with them. -/
theorem feed_ofBytes {maxHeader : Nat} {b : Bytes}
    (hgoing : (ofBytes maxHeader b).isStalled = false)
    (hopen : (ofBytes maxHeader b).completeAt? = none) (piece : Bytes) :
    ((ofBytes maxHeader b).feed piece).observed = (ofBytes maxHeader (b ++ piece)).observed ∧
      (((ofBytes maxHeader b).feed piece).isStalled = false →
        (ofBytes maxHeader b).feed piece = ofBytes maxHeader (b ++ piece)) := by
  rw [feed_of_completeAt?_eq_none hopen]
  rcases Header.staysOpen_or_endsAt b with ho | ⟨h, he⟩
  · -- All bytes have been kept, and the search goes on from them.
    have hwithin : ¬ b.length > maxHeader := by
      intro hlong
      rw [ofBytes_of_staysOpen ho, if_pos hlong] at hgoing
      cases hgoing
    have hb : b.reverse.reverse ++ piece = b ++ piece := by rw [List.reverse_reverse]
    have hsame : (ofBytes maxHeader b).feed piece = ofBytes maxHeader (b ++ piece) := by
      rw [feed_of_completeAt?_eq_none hopen, ofBytes_of_staysOpen ho, if_neg hwithin]
      rcases Header.staysOpen_or_endsAt (b ++ piece) with ho' | ⟨h, he⟩
      · have hscan := scanHeader_of_staysOpen (hb ▸ ho')
        rw [ofBytes_of_staysOpen ho', advancePart, hscan]
        simp
      · have hscan := scanHeader_of_endsAt (hb ▸ he) (by rw [List.length_reverse]; exact ho.lt he)
        have hle := he.1
        rw [List.length_append] at hle
        rw [ofBytes_of_endsAt he, advancePart, hscan, hb]
        simp [hle]
    rw [feed_of_completeAt?_eq_none hopen] at hsame
    rw [hsame]
    exact ⟨rfl, fun _ => rfl⟩
  · -- The block has ended before, so that the whole piece belongs to the body.
    rw [ofBytes_of_endsAt he] at hgoing ⊢
    rw [ofBytes_of_endsAt (he.append piece), List.take_append_of_le_length he.1,
      List.drop_append_of_le_length he.1, List.length_append]
    exact advancePart_bodyOf hgoing piece

/-! ## Any number of pieces -/

/-- The framer has been fed the bytes `b` in pieces: it is what some of their first bytes make of it
at once, and it took no notice of the others, having completed or stalled. -/
def Follows (maxHeader : Nat) (f : Framer) (b : Bytes) : Prop :=
  ∃ early rest, b = early ++ rest ∧ f.observed = (ofBytes maxHeader early).observed ∧
    (f.isStalled = false → f = ofBytes maxHeader early) ∧
    (rest = [] ∨ f.completeAt? ≠ none ∨ f.isStalled = true)

theorem observed_isStalled {f g : Framer} (h : f.observed = g.observed) :
    f.isStalled = g.isStalled :=
  congrArg (fun o => o.2.2.2.2) h

namespace Follows

variable {maxHeader : Nat} {f : Framer} {b : Bytes}

theorem fresh : Follows maxHeader { maxHeader } [] := by
  have hopen : StaysOpen [] := by
    rw [StaysOpen, List.infix_nil]
    exact List.cons_ne_nil _ _
  have heq : ({ maxHeader } : Framer) = ofBytes maxHeader [] := by
    rw [ofBytes_of_staysOpen hopen, if_neg (by simp)]
    rfl
  exact ⟨[], [], rfl, by rw [heq], fun _ => heq, Or.inl rfl⟩

protected theorem feed (h : Follows maxHeader f b) (piece : Bytes) :
    Follows maxHeader (f.feed piece) (b ++ piece) := by
  obtain ⟨early, rest, rfl, hobserved, heq, hrest⟩ := h
  rcases hcomplete : f.completeAt? with _ | n
  · rcases hstalled : f.isStalled
    · -- The one case in which the piece is looked at: nothing has been left out so far.
      have hf := heq hstalled
      obtain rfl : rest = [] := by
        rcases hrest with hrest | hrest | hrest
        · exact hrest
        · exact absurd hcomplete hrest
        · rw [hstalled] at hrest
          cases hrest
      rw [hf] at hcomplete hstalled ⊢
      obtain ⟨hsame, hgoing⟩ := feed_ofBytes hstalled hcomplete piece
      exact ⟨early ++ piece, [], by simp, hsame, hgoing, Or.inl rfl⟩
    · have hstays := observed_feed_of_isStalled hstalled piece
      have hstill : (f.feed piece).isStalled = true := by
        rw [observed_isStalled hstays, hstalled]
      refine ⟨early, rest ++ piece, List.append_assoc .., hstays.trans hobserved, ?_,
        Or.inr (Or.inr hstill)⟩
      intro hgoing
      rw [hstill] at hgoing
      cases hgoing
  · rw [feed_of_completeAt? hcomplete]
    refine ⟨early, rest ++ piece, List.append_assoc .., hobserved, heq, Or.inr (Or.inl ?_)⟩
    rw [hcomplete]
    exact Option.some_ne_none n

protected theorem ofPieces (maxHeader : Nat) (pieces : List Bytes) :
    Follows maxHeader (ofPieces maxHeader pieces) pieces.flatten := by
  -- The induction goes backwards, because the last piece is the one that is fed last.
  induction pieces using List.reverseRecOn with
  | nil => exact fresh
  | append_singleton pieces piece ih =>
    rw [ofPieces_concat, List.flatten_append, List.flatten_singleton]
    exact ih.feed piece

/-- What a framer finds complete ends there. -/
theorem ends (h : Follows maxHeader f b) {n : Nat} (hn : f.progress = .complete n) : Ends b n := by
  obtain ⟨early, rest, rfl, -, heq, -⟩ := h
  have hgoing : f.isStalled = false := by
    rw [← Bool.not_eq_true]
    intro hstalled
    rw [progress_eq_complete_iff, totalNeeded?_of_isStalled hstalled] at hn
    cases hn.1
  rw [heq hgoing, ofBytes_progress_eq_complete_iff] at hn
  exact hn.append rest

end Follows

/-! ## Within the limits -/

/-- The limits do not stop a framer within the bytes: their header block ends in time, if it does,
and the control lines of a chunked body that they finish are short enough. -/
def WithinLimits (maxHeader : Nat) (b : Bytes) : Prop :=
  (∀ h, EndsAt b h → h ≤ maxHeader) ∧
    ((ofBytes maxHeader b).bodyMode = .chunked →
      Scanner.LinesWithin {} (b.drop (ofBytes maxHeader b).headerLength))

/-- A short response keeps within the limits. -/
theorem WithinLimits.of_length_le {maxHeader : Nat} {b : Bytes} (hheader : b.length ≤ maxHeader)
    (hline : b.length ≤ Chunked.maxLine) : WithinLimits maxHeader b := by
  refine ⟨fun h he => he.1.trans hheader, fun _ => Scanner.LinesWithin.of_length_le ?_⟩
  rw [List.length_drop]
  simp only [List.length_nil]
  omega

/-- A beginning of a response that stalls a framer makes it stall on the whole. -/
theorem isStalled_append {maxHeader : Nat} {early rest : Bytes}
    (hstalled : (ofBytes maxHeader early).isStalled = true)
    (hlimits : WithinLimits maxHeader (early ++ rest)) :
    (ofBytes maxHeader (early ++ rest)).observed = (ofBytes maxHeader early).observed := by
  rcases Header.staysOpen_or_endsAt early with ho | ⟨h, he⟩
  · -- The block has grown beyond the limit, so that it cannot end any more.
    rw [ofBytes_of_staysOpen ho] at hstalled ⊢
    split at hstalled
    · rename_i hlong
      rcases Header.staysOpen_or_endsAt (early ++ rest) with ho' | ⟨h, he⟩
      · rw [ofBytes_of_staysOpen ho', if_pos hlong, if_pos (by rw [List.length_append]; omega)]
        rfl
      · have hle := hlimits.1 h he
        have hlt := ho.lt he
        omega
    · cases hstalled
  · -- A control line was too long or unreadable; only the former depends on the cut.
    have he' := he.append rest
    obtain ⟨-, hlines⟩ := hlimits
    rw [ofBytes_of_endsAt he] at hstalled ⊢
    rw [ofBytes_of_endsAt he'] at hlines ⊢
    rw [List.take_append_of_le_length he.1, List.drop_append_of_le_length he.1] at hlines ⊢
    rcases bodyOf_cases (early.take h) with ⟨length, -, hbody⟩ | ⟨-, -, hbody⟩ | ⟨-, -, hbody⟩
    · rw [hbody] at hstalled
      cases hstalled
    · rw [hbody] at hstalled hlines ⊢
      rw [hbody]
      have hinv : (Scanner.advance {} (early.drop h)).1.phase = .invalid :=
        of_decide_eq_true hstalled
      have hlines' : Scanner.LinesWithin {} (early.drop h ++ rest) := by
        rw [← List.drop_append_of_le_length he.1]
        exact hlines rfl
      rw [observed_of_invalid hinv,
        observed_of_invalid (Scanner.advance_append_of_invalid hinv hlines')]
    · rw [hbody] at hstalled
      cases hstalled

/-- A complete response is observed in the same way whatever follows it. -/
theorem observed_append_of_ends {maxHeader n : Nat} {early : Bytes} (hends : Ends early n)
    (rest : Bytes) :
    (ofBytes maxHeader (early ++ rest)).observed = (ofBytes maxHeader early).observed := by
  obtain ⟨h, he⟩ : ∃ h, EndsAt early h := by
    cases hends with
    | declared he | chunked he | bare he => exact ⟨_, he⟩
  rw [← @ofBytes_progress_eq_complete_iff maxHeader, progress_eq_complete_iff] at hends
  obtain ⟨htotal, -⟩ := hends
  rw [ofBytes_of_endsAt he] at htotal ⊢
  rw [ofBytes_of_endsAt (he.append rest), List.take_append_of_le_length he.1,
    List.drop_append_of_le_length he.1]
  rcases bodyOf_cases (early.take h) with ⟨length, -, hbody⟩ | ⟨-, -, hbody⟩ | ⟨-, -, hbody⟩
  · rw [hbody, hbody]
    rfl
  · rw [hbody] at htotal ⊢
    rw [hbody]
    have hdone := (chunked_totalNeeded?_eq_some_iff.1 htotal).1
    have hstays := Scanner.advance_of_isFinal (by rw [hdone]; rfl) rest
    obtain ⟨hphase, heq⟩ := Scanner.advance_append (by rw [hdone]; decide) rest
    rw [hstays, hdone] at hphase
    rw [← heq (by rw [← hphase]; decide), hstays]
    rfl
  · rw [hbody, hbody]
    rfl

namespace Follows

variable {maxHeader : Nat} {f : Framer} {b : Bytes}

/-- Within the limits a framer that is fed pieces is observed as if it had been fed at once. -/
theorem observed_eq (h : Follows maxHeader f b) (hlimits : WithinLimits maxHeader b) :
    f.observed = (ofBytes maxHeader b).observed := by
  obtain ⟨early, rest, rfl, hobserved, heq, hrest⟩ := h
  rw [hobserved]
  rcases hstalled : f.isStalled
  · rcases hrest with rfl | hcomplete | hstalled'
    · rw [List.append_nil]
    · obtain ⟨n, hn⟩ := Option.ne_none_iff_exists'.1 hcomplete
      have hprogress : f.progress = .complete n := by rw [progress, hn]
      rw [heq hstalled, ofBytes_progress_eq_complete_iff] at hprogress
      exact (observed_append_of_ends hprogress rest).symm
    · rw [hstalled] at hstalled'
      cases hstalled'
  · rw [observed_isStalled hobserved] at hstalled
    exact (isStalled_append hstalled hlimits).symm

/-- As long as the bytes and what comes after them keep within the limits, a framer that is fed
pieces makes the progress that it would make at once. -/
theorem progress_eq (h : Follows maxHeader f b) {after : Bytes}
    (hlimits : WithinLimits maxHeader (b ++ after)) :
    f.progress = (ofBytes maxHeader b).progress := by
  rcases hwhole : (ofBytes maxHeader b).progress with _ | n
  · rw [progress_eq_incomplete_iff]
    intro n hn
    have hends := h.ends hn
    rw [← @ofBytes_progress_eq_complete_iff maxHeader, hwhole] at hends
    cases hends
  · have hends : Ends b n := ofBytes_progress_eq_complete_iff.1 hwhole
    obtain ⟨early, rest, rfl, hobserved, heq, hrest⟩ := h
    have hgoing : f.isStalled = false := by
      rw [← Bool.not_eq_true]
      intro hstalled
      -- Had it given up early, it would give up on all the bytes as well, but they have an end.
      rw [observed_isStalled hobserved] at hstalled
      have htotal := hends.append after
      rw [← @ofBytes_progress_eq_complete_iff maxHeader, progress_eq_complete_iff] at htotal
      rw [List.append_assoc] at hlimits htotal
      rw [← observed_isStalled (isStalled_append hstalled hlimits)] at hstalled
      rw [totalNeeded?_of_isStalled hstalled] at htotal
      cases htotal.1
    rcases hrest with rfl | hcomplete | hstalled
    · rw [heq hgoing, ← hwhole, List.append_nil]
    · obtain ⟨m, hm⟩ := Option.ne_none_iff_exists'.1 hcomplete
      have hprogress : f.progress = .complete m := by rw [progress, hm]
      rw [heq hgoing, ofBytes_progress_eq_complete_iff] at hprogress
      have hsame := hprogress.append rest
      rw [← @ofBytes_progress_eq_complete_iff maxHeader, hwhole] at hsame
      rw [progress, hm, hsame]
    · rw [hgoing] at hstalled
      cases hstalled

end Follows

/-- **Cuts do not matter.** What a framer that is fed pieces finds complete is found by a scan of
the bytes fed so far. Within the limits it finds the end of the response, if there is one, with the
piece that brings its last byte, and after all pieces it is observed as if it had been fed at once.
-/
theorem ofPieces_agrees (maxHeader : Nat) (pieces : List Bytes) :
    (∀ fed n, fed <+: pieces → (ofPieces maxHeader fed).progress = .complete n →
      scan fed.flatten = .complete n) ∧
    (pieces.flatten.length < Numeral.wordBound → WithinLimits maxHeader pieces.flatten →
      (∀ n, (ofBytes maxHeader pieces.flatten).progress = .complete n → ∀ fed, fed <+: pieces →
        (ofPieces maxHeader fed).progress =
          if n ≤ fed.flatten.length then .complete n else .incomplete) ∧
      ((ofBytes maxHeader pieces.flatten).progress = .incomplete → ∀ fed, fed <+: pieces →
        (ofPieces maxHeader fed).progress = .incomplete) ∧
      (ofPieces maxHeader pieces).observed = (ofBytes maxHeader pieces.flatten).observed) := by
  refine ⟨fun fed n _ hn => scan_eq_complete_iff.2 ((Follows.ofPieces maxHeader fed).ends hn), ?_⟩
  intro hbound hlimits
  refine ⟨?_, ?_, (Follows.ofPieces maxHeader pieces).observed_eq hlimits⟩
  · rintro n hn fed ⟨more, rfl⟩
    rw [List.flatten_append] at hbound hlimits hn
    have hends : Ends (fed.flatten ++ more.flatten) n := ofBytes_progress_eq_complete_iff.1 hn
    rw [(Follows.ofPieces maxHeader fed).progress_eq hlimits]
    split
    · rename_i hle
      exact ofBytes_progress_eq_complete_iff.2 (hends.of_append hbound hle)
    · -- An end found earlier would be the end of the whole, which has only one.
      rename_i hlt
      rw [progress_eq_incomplete_iff]
      intro m hm
      have hshort : Ends fed.flatten m := ofBytes_progress_eq_complete_iff.1 hm
      have hle := hshort.le_length
      have hsame := hshort.append more.flatten
      rw [← @ofBytes_progress_eq_complete_iff maxHeader, hn, Progress.complete.injEq] at hsame
      omega
  · -- What the first pieces end is ended for all of them.
    rintro hnone fed ⟨more, rfl⟩
    rw [List.flatten_append] at hnone
    rw [progress_eq_incomplete_iff] at hnone ⊢
    intro n hn
    have hends := ((Follows.ofPieces maxHeader fed).ends hn).append more.flatten
    exact hnone n (ofBytes_progress_eq_complete_iff.2 hends)

/-- A chunked response that is cut within its terminator and within two of its lines, once whole and
once without its last piece. -/
theorem ofPieces_agrees_chunked :
    let cut := [Bytes.ofString "HTTP/1.1 200 OK\r\nTransfer-Encoding: chunked\r\n\r",
      Bytes.ofString "\n1\r", Bytes.ofString "\na\r\n0", []]
    let pieces := cut ++ [Bytes.ofString "\r\n\r\nHTTP/1.1"]
    pieces.flatten.length < Numeral.wordBound ∧ WithinLimits 100 pieces.flatten ∧
      (ofBytes 100 pieces.flatten).progress = .complete 58 ∧
      (ofPieces 100 pieces).progress = .complete 58 ∧ scan pieces.flatten = .complete 58 ∧
      (ofPieces 100 cut).progress = .incomplete ∧
      (ofPieces 100 pieces).observed = (ofBytes 100 pieces.flatten).observed ∧
      WithinLimits 100 cut.flatten ∧ (ofBytes 100 cut.flatten).progress = .incomplete ∧
      (ofPieces 100 (cut.take 2)).progress = .incomplete := by
  intro cut pieces
  have hbound : pieces.flatten.length < Numeral.wordBound := by decide +kernel
  have hlimits : WithinLimits 100 pieces.flatten :=
    .of_length_le (by decide +kernel) (by decide +kernel)
  have hwhole : (ofBytes 100 pieces.flatten).progress = .complete 58 := by decide +kernel
  have hcut : WithinLimits 100 cut.flatten := .of_length_le (by decide +kernel) (by decide +kernel)
  have hopen : (ofBytes 100 cut.flatten).progress = .incomplete := by decide +kernel
  obtain ⟨hsound, hcomplete⟩ := ofPieces_agrees 100 pieces
  obtain ⟨hends, -, hobserved⟩ := hcomplete hbound hlimits
  have hall : (ofPieces 100 pieces).progress = .complete 58 := by
    rw [hends 58 hwhole pieces (List.prefix_refl _), if_pos (by decide +kernel)]
  have hsome : (ofPieces 100 cut).progress = .incomplete := by
    rw [hends 58 hwhole cut (List.prefix_append _ _), if_neg (by decide +kernel)]
  have hnone := ((ofPieces_agrees 100 cut).2 (by decide +kernel) hcut).2.1 hopen (cut.take 2)
    (List.take_prefix 2 cut)
  exact ⟨hbound, hlimits, hwhole, hall, hsound pieces 58 (List.prefix_refl _) hall, hsome,
    hobserved, hcut, hopen, hnone⟩

end TopicRelay.Framer
