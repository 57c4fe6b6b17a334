import TopicRelay.Proofs.Chunked.Counters
import TopicRelay.Proofs.Framing.Limit

/-!
# What a framer knows and never forgets

Whatever pieces a framer has been fed, what it knows of the response fits the bytes that it has
consumed (`Consistent`): while the header block is open it knows nothing and keeps all bytes, which
are no more than it allows; afterwards it keeps none of them, and where the body ends follows from
the length of the block and from what the scanner has counted. The scanner keeps no more than one
unfinished control line (`Scanner.IsTidy`). Every further piece leads forward (`Forward`): what is
known stays known, and what is over stays over. `consistent_and_forward` puts both together.
-/

namespace TopicRelay

namespace Framer

open Header (EndsAt StaysOpen)
open Chunked (Scanner)

/-! ## What a framer keeps -/

/-- The header bytes that a framer keeps. -/
def retained (f : Framer) : Bytes :=
  match f.part with
  | .header seen => seen.reverse
  | _ => []

/-- The scanner for a chunked body, which has seen nothing unless the framer is in such a body. -/
def scanner (f : Framer) : Scanner :=
  match f.part with
  | .body _ (.chunked s) => s
  | _ => {}

/-- What a framer knows fits the bytes `fed` that it has been fed. -/
structure Consistent (f : Framer) (fed : Bytes) : Prop where
  /-- While the header block is open nothing is known, and all bytes are kept. -/
  header_open : f.headerComplete = false →
    f.headerLength = 0 ∧ f.bodyMode = .unknown ∧ f.totalNeeded? = none ∧
      (f.isStalled = false →
        f.retained = fed ∧ StaysOpen f.retained ∧ f.retained.length ≤ f.maxHeader)
  header_closed : f.headerComplete = true →
    f.retained = [] ∧ 4 ≤ f.headerLength ∧ f.headerLength ≤ f.consumed
  fixed : ∀ n, f.bodyMode = .fixed n →
    f.totalNeeded? = some (min (f.headerLength + n) (Numeral.wordBound - 1))
  unknown : f.headerComplete = true → f.bodyMode = .unknown → f.totalNeeded? = some f.headerLength
  chunked_going : f.bodyMode = .chunked → f.completeAt? = none → f.isStalled = false →
    f.consumed = f.headerLength + f.scanner.bodyLength
  chunked_complete : f.bodyMode = .chunked → f.completeAt? ≠ none →
    f.totalNeeded? = some (f.headerLength + f.scanner.bodyLength) ∧
      f.headerLength + f.scanner.bodyLength ≤ f.consumed
  scanner_isTidy : f.scanner.IsTidy
  stalled : f.isStalled = true → f.totalNeeded? = none

/-- What is counted of a body that starts after `h` bytes fits the bytes consumed. -/
def BodyAgrees (consumed h : Nat) : Body → Prop
  | .chunked s => s.IsTidy ∧ (s.phase.isFinal = false → consumed = h + s.bodyLength) ∧
      (s.phase = .done → h + s.bodyLength ≤ consumed)
  | _ => True

theorem BodyAgrees.advance {consumed h : Nat} {s : Scanner}
    (hagrees : BodyAgrees consumed h (.chunked s)) (piece : Bytes) :
    BodyAgrees (consumed + piece.length) h (.chunked (s.advance piece).1) := by
  obtain ⟨htidy, hgoing, hdone⟩ := hagrees
  refine ⟨htidy.advance piece, fun hnext => ?_, fun hnext => ?_⟩
  · rcases hs : s.phase.isFinal
    · rw [Scanner.bodyLength_advance_of_going hnext, hgoing hs, Nat.add_assoc]
    · rw [Scanner.advance_of_isFinal hs, hs] at hnext
      cases hnext
  · rcases hs : s.phase.isFinal
    · have hle := Scanner.bodyLength_advance_le hnext
      have hconsumed := hgoing hs
      omega
    · rw [Scanner.advance_of_isFinal hs] at hnext ⊢
      exact (hdone hnext).trans (Nat.le_add_right _ _)

theorem agrees_bodyOf (header rest : Bytes) (h : Nat) :
    BodyAgrees (h + rest.length) h (bodyOf header rest) := by
  have hfresh : BodyAgrees h h (.chunked {}) := ⟨.fresh, fun _ => rfl, fun hno => nomatch hno⟩
  rcases bodyOf_cases header with ⟨length, -, hbody⟩ | ⟨-, -, hbody⟩ | ⟨-, -, hbody⟩
  · rw [hbody]
    trivial
  · rw [hbody]
    exact hfresh.advance rest
  · rw [hbody]
    trivial

/-- The framer is in no body yet, or in one that starts after the header block and is counted right.
-/
def BodyFits (f : Framer) : Prop :=
  ∀ h body, f.part = .body h body → 4 ≤ h ∧ h ≤ f.consumed ∧ BodyAgrees f.consumed h body

/-- A body that starts within a piece. -/
theorem bodyFits_feed_of_header {maxHeader : Nat} {pieces : List Bytes} {seen : List UInt8}
    (hseen : (ofPieces maxHeader pieces).part = .header seen) (piece : Bytes) :
    ((ofPieces maxHeader pieces).feed piece).BodyFits := by
  obtain ⟨hopen, heq, hkept⟩ := ofPieces_of_header hseen
  intro h body hpart
  rw [heq, feed_of_completeAt?_eq_none (by rfl)] at hpart ⊢
  simp only [advancePart] at hpart ⊢
  rcases Header.staysOpen_or_endsAt (pieces.flatten ++ piece) with ho | ⟨k, he⟩
  · rw [scanHeader_of_staysOpen (hkept ▸ ho)] at hpart
    simp only at hpart
    split at hpart <;> cases hpart
  · have hlt : seen.length < k := by
      rw [← List.length_reverse, hkept]
      exact hopen.lt he
    rw [scanHeader_of_endsAt (hkept ▸ he) hlt, hkept] at hpart
    simp only [Part.body.injEq, List.length_reverse, List.length_take,
      Nat.min_eq_left he.1] at hpart
    obtain ⟨rfl, rfl⟩ := hpart
    -- What follows the block in the piece is of the body.
    have hlength : pieces.flatten.length + piece.length =
        k + ((pieces.flatten ++ piece).drop k).length := by
      have hle := he.1
      rw [List.length_append] at hle
      rw [List.length_drop, List.length_append]
      omega
    rw [hlength]
    exact ⟨he.four_le, Nat.le_add_right _ _, agrees_bodyOf _ _ _⟩

/-- A piece of a body. -/
theorem BodyFits.feed {f : Framer} (hfits : f.BodyFits) (hseen : ∀ seen, f.part ≠ .header seen)
    (piece : Bytes) : (f.feed piece).BodyFits := by
  rcases hcomplete : f.completeAt? with _ | n
  · intro h body hpart
    rw [feed_of_completeAt?_eq_none hcomplete] at hpart ⊢
    rcases hbefore : f.part with seen | _ | ⟨k, before⟩
    · exact absurd hbefore (hseen seen)
    · rw [hbefore] at hpart
      cases hpart
    · obtain ⟨hfour, hle, hagrees⟩ := hfits k before hbefore
      have hmore := hle.trans (Nat.le_add_right _ piece.length)
      rw [hbefore] at hpart
      cases before with
      | chunked s =>
        obtain ⟨rfl, rfl⟩ := Part.body.inj hpart
        exact ⟨hfour, hmore, hagrees.advance piece⟩
      | _ =>
        obtain ⟨rfl, rfl⟩ := Part.body.inj hpart
        exact ⟨hfour, hmore, trivial⟩
  · rwa [feed_of_completeAt? hcomplete]

theorem bodyFits_ofPieces (maxHeader : Nat) (pieces : List Bytes) :
    (ofPieces maxHeader pieces).BodyFits := by
  -- The induction goes backwards, because the last piece is the one that is fed last.
  induction pieces using List.reverseRecOn with
  | nil =>
    intro h body hpart
    cases hpart
  | append_singleton pieces piece ih =>
    rw [ofPieces_concat]
    rcases hpart : (ofPieces maxHeader pieces).part with seen | _ | ⟨h, body⟩
    · exact bodyFits_feed_of_header hpart piece
    · exact ih.feed (fun seen => by rw [hpart]; exact nofun) piece
    · exact ih.feed (fun seen => by rw [hpart]; exact nofun) piece

theorem completeAt?_of_done {maxHeader consumed h : Nat} {s : Scanner} (hphase : s.phase = .done)
    (hle : h + s.bodyLength ≤ consumed) :
    completeAt? ⟨maxHeader, consumed, .body h (.chunked s)⟩ = some (h + s.bodyLength) := by
  rw [completeAt?, Option.filter_eq_some_iff]
  exact ⟨chunked_totalNeeded?_eq_some_iff.2 ⟨hphase, rfl⟩, decide_eq_true hle⟩

/-- What a framer knows fits what it has been fed. -/
theorem consistent_ofPieces (maxHeader : Nat) (pieces : List Bytes) :
    (ofPieces maxHeader pieces).Consistent pieces.flatten := by
  have hfits := bodyFits_ofPieces maxHeader pieces
  have hheader := @ofPieces_of_header maxHeader pieces
  have hlimit := @ofPieces_of_staysOpen maxHeader pieces
  have hmax := maxHeader_ofPieces maxHeader pieces
  generalize ofPieces maxHeader pieces = f at hfits hheader hlimit hmax ⊢
  have hstalled : f.isStalled = true → f.totalNeeded? = none := totalNeeded?_of_isStalled
  obtain ⟨limit, consumed, part⟩ := f
  rcases part with seen | _ | ⟨h, body⟩
  · obtain ⟨hopen, -, hkept⟩ := hheader rfl
    have hwithin : pieces.flatten.length ≤ maxHeader := by
      refine Nat.le_of_not_lt fun hlong => ?_
      cases (hlimit hopen).2.2 hlong
    refine ⟨fun _ => ⟨rfl, rfl, rfl, fun _ => ⟨hkept, ?_, ?_⟩⟩, nofun, nofun, nofun, nofun, nofun,
      .fresh, hstalled⟩
    · show StaysOpen seen.reverse
      rwa [hkept]
    · show seen.reverse.length ≤ limit
      rwa [hkept, show limit = maxHeader from hmax]
  · exact ⟨fun _ => ⟨rfl, rfl, rfl, nofun⟩, nofun, nofun, nofun, nofun, nofun, .fresh, hstalled⟩
  · obtain ⟨hfour, hle, hagrees⟩ := hfits h body rfl
    cases body with
    | empty =>
      exact ⟨nofun, fun _ => ⟨rfl, hfour, hle⟩, nofun, fun _ _ => rfl, nofun, nofun, .fresh,
        hstalled⟩
    | fixed length =>
      refine ⟨nofun, fun _ => ⟨rfl, hfour, hle⟩, fun n hn => ?_, fun _ => nofun, nofun, nofun,
        .fresh, hstalled⟩
      cases hn
      rfl
    | chunked s =>
      obtain ⟨htidy, hgoing, hdone⟩ := hagrees
      refine ⟨nofun, fun _ => ⟨rfl, hfour, hle⟩, nofun, fun _ => nofun, fun _ hopen hvalid => ?_,
        fun _ hcomplete => ?_, htidy, hstalled⟩
      · refine hgoing ?_
        rcases hphase : s.phase with _ | _ | _ | _ | _ | _
        case done =>
          rw [completeAt?_of_done hphase (hdone hphase)] at hopen
          cases hopen
        case invalid => exact absurd hphase (of_decide_eq_false hvalid)
        all_goals rfl
      · obtain ⟨n, hn⟩ := Option.ne_none_iff_exists'.1 hcomplete
        obtain ⟨htotal, -⟩ := Option.filter_eq_some_iff.1 hn
        obtain ⟨hphase, rfl⟩ := chunked_totalNeeded?_eq_some_iff.1 htotal
        exact ⟨htotal, hdone hphase⟩

/-! ## Forward only -/

/-- The framer `g` knows what `f` knows, and has forgotten nothing of it. -/
structure Forward (f g : Framer) : Prop where
  header : f.headerComplete = true →
    g.headerComplete = true ∧ g.headerLength = f.headerLength ∧ g.bodyMode = f.bodyMode
  stalled : f.isStalled = true → g.isStalled = true
  total : ∀ n, f.totalNeeded? = some n → g.totalNeeded? = some n
  consumed_le : f.consumed ≤ g.consumed
  /-- A complete framer takes no notice of what comes. -/
  complete : f.completeAt? ≠ none → g = f

namespace Forward

theorem refl (f : Framer) : f.Forward f :=
  ⟨fun h => ⟨h, rfl, rfl⟩, id, fun _ => id, Nat.le_refl _, fun _ => rfl⟩

theorem trans {f g k : Framer} (h : f.Forward g) (h' : g.Forward k) : f.Forward k where
  header hf := by
    obtain ⟨hg, hlength, hmode⟩ := h.header hf
    obtain ⟨hk, hlength', hmode'⟩ := h'.header hg
    exact ⟨hk, hlength'.trans hlength, hmode'.trans hmode⟩
  stalled hf := h'.stalled (h.stalled hf)
  total n hf := h'.total n (h.total n hf)
  consumed_le := h.consumed_le.trans h'.consumed_le
  complete hf := by
    have hsame := h.complete hf
    rw [h'.complete (hsame ▸ hf), hsame]

/-- One more piece. -/
protected theorem feed (f : Framer) (piece : Bytes) : f.Forward (f.feed piece) := by
  rcases hcomplete : f.completeAt? with _ | n
  · rw [feed_of_completeAt?_eq_none hcomplete]
    obtain ⟨maxHeader, consumed, part⟩ := f
    have hmore : consumed ≤ consumed + piece.length := Nat.le_add_right _ _
    rcases part with seen | _ | ⟨h, body⟩
    · refine ⟨?_, ?_, fun n => ?_, hmore, fun hno => absurd hcomplete hno⟩
      all_goals rintro ⟨⟩
    · refine ⟨?_, fun _ => rfl, fun n => ?_, hmore, fun hno => absurd hcomplete hno⟩
      all_goals rintro ⟨⟩
    · cases body with
      | chunked s =>
        -- A scanner that has ended its scan stays as it is.
        have hstays (hfinal : s.phase.isFinal = true) : (s.advance piece).1 = s :=
          Scanner.advance_of_isFinal hfinal piece
        refine ⟨fun _ => ⟨rfl, rfl, rfl⟩, fun hstalled => ?_, fun n hn => ?_, hmore,
          fun hno => absurd hcomplete hno⟩
        · have hphase : s.phase = .invalid := of_decide_eq_true hstalled
          rw [advancePart, hstays (by rw [hphase]; rfl)]
          exact hstalled
        · have hphase := (chunked_totalNeeded?_eq_some_iff.1 hn).1
          rw [advancePart, hstays (by rw [hphase]; rfl)]
          exact hn
      | _ =>
        refine ⟨fun _ => ⟨rfl, rfl, rfl⟩, ?_, fun _ => id, hmore,
          fun hno => absurd hcomplete hno⟩
        rintro ⟨⟩
  · rw [feed_of_completeAt? hcomplete]
    exact refl f

/-- Any number of pieces. -/
theorem ofPieces (maxHeader : Nat) (pieces more : List Bytes) :
    (ofPieces maxHeader pieces).Forward (ofPieces maxHeader (pieces ++ more)) := by
  induction more generalizing pieces with
  | nil =>
    rw [List.append_nil]
    exact refl _
  | cons piece rest ih =>
    have hrest := ih (pieces ++ [piece])
    rw [ofPieces_concat, List.append_assoc, List.singleton_append] at hrest
    exact (Forward.feed _ piece).trans hrest

end Forward

/-- The end of a chunked body is counted from the place where the piece begins that brings it. -/
theorem totalNeeded?_feed_of_done {maxHeader : Nat} {pieces : List Bytes}
    (hmode : (ofPieces maxHeader pieces).bodyMode = .chunked)
    (hopen : (ofPieces maxHeader pieces).completeAt? = none)
    (hvalid : (ofPieces maxHeader pieces).isStalled = false) {piece : Bytes} {used : Nat}
    (hdone : ((ofPieces maxHeader pieces).scanner.advance piece).2 = .done used) :
    ((ofPieces maxHeader pieces).feed piece).totalNeeded? =
      some ((ofPieces maxHeader pieces).consumed + used) := by
  have hconsumed := (consistent_ofPieces maxHeader pieces).chunked_going hmode hopen hvalid
  rw [feed_of_completeAt?_eq_none hopen]
  generalize ofPieces maxHeader pieces = f at hmode hconsumed hdone ⊢
  obtain ⟨limit, consumed, part⟩ := f
  rcases part with seen | _ | ⟨h, _ | length | s⟩
  case body.chunked =>
    obtain ⟨hphase, hlength⟩ := Scanner.advance_snd_eq_done_iff.1 hdone
    refine chunked_totalNeeded?_eq_some_iff.2 ⟨hphase, ?_⟩
    rw [show (Scanner.advance s piece).1.bodyLength = s.bodyLength + used from hlength,
      ← Nat.add_assoc]
    exact congrArg (· + used) hconsumed
  all_goals cases hmode

/-- **A framer never forgets, and knows only what fits.** After any pieces what a framer knows fits
the bytes that it has been fed, and every further piece leads forward. As long as the response is
not complete, the bytes of each piece are counted, and the end of a chunked body is counted from the
place where the piece begins that brings it. -/
theorem consistent_and_forward (maxHeader : Nat) (pieces : List Bytes) :
    let f := ofPieces maxHeader pieces
    (f.maxHeader = maxHeader ∧ f.Consistent pieces.flatten) ∧
    (∀ more, f.Forward (ofPieces maxHeader (pieces ++ more))) ∧
    (f.completeAt? = none → ∀ piece,
      (f.feed piece).consumed = f.consumed + piece.length ∧
        (f.bodyMode = .chunked → f.isStalled = false →
          ∀ used, (f.scanner.advance piece).2 = .done used →
            (f.feed piece).totalNeeded? = some (f.consumed + used))) := by
  intro f
  refine ⟨⟨maxHeader_ofPieces maxHeader pieces, consistent_ofPieces maxHeader pieces⟩,
    Forward.ofPieces maxHeader pieces, fun hopen piece => ⟨?_, ?_⟩⟩
  · rw [feed_of_completeAt?_eq_none hopen]
  · exact fun hmode hvalid used => totalNeeded?_feed_of_done hmode hopen hvalid

end Framer

end TopicRelay
