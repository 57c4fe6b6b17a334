import TopicRelay.Proofs.Header.Fields
import TopicRelay.Proofs.Header.Block
import TopicRelay.Proofs.Chunked.Acceptance

/-!
# Where a message ends

The end of a message is settled by its first bytes: by the header block, and in the chunked form by
the body after it. `Ends` says where it is without a framer, and `scan_eq_complete_iff` says that
scanning finds this place and no other. The bytes after the end play no part in `Ends`: a message is
found whatever follows it (`Ends.append`), and without them as well (`Ends.take`).
-/

namespace TopicRelay.Framer

open Header (EndsAt StaysOpen Declares AnnouncesChunks)
open Chunked (IsBody)

/-! ## The end of a message -/

/-- The message at the start of `b` ends after `n` bytes. A length that can be read decides before
chunks do, and without either signal the message ends with its header block. -/
inductive Ends (b : Bytes) : (n : Nat) → Prop
  /-- The total of a declared length stays below the bound of words. -/
  | declared {h length : Nat} : EndsAt b h → Declares (b.take h) length →
      min (h + length) (Numeral.wordBound - 1) ≤ b.length →
      Ends b (min (h + length) (Numeral.wordBound - 1))
  /-- The bytes after the header block start with a chunked body of `m` bytes. -/
  | chunked {h m : Nat} : EndsAt b h → (¬ ∃ length, Declares (b.take h) length) →
      AnnouncesChunks (b.take h) → m ≤ (b.drop h).length →
      (∃ chunks, IsBody chunks ((b.drop h).take m)) → Ends b (h + m)
  | bare {h : Nat} : EndsAt b h → (¬ ∃ length, Declares (b.take h) length) →
      ¬ AnnouncesChunks (b.take h) → Ends b h

namespace Ends

theorem le_length {b : Bytes} {n : Nat} (h : Ends b n) : n ≤ b.length := by
  cases h with
  | declared _ _ hle => exact hle
  | chunked he _ _ hm _ =>
    have := he.1
    rw [List.length_drop] at hm
    omega
  | bare he => exact he.1

/-- The header block lies within the message. -/
theorem header_le {b : Bytes} {n : Nat} (h : Ends b n) (hb : b.length < Numeral.wordBound) :
    ∃ k, EndsAt b k ∧ k ≤ n := by
  cases h with
  | @declared k length he _ _ =>
    -- A total that was cut down to the bound is still above the place where the block ends.
    have := he.1
    exact ⟨k, he, le_min (Nat.le_add_right k length) (by omega)⟩
  | @chunked k m he => exact ⟨k, he, Nat.le_add_right k m⟩
  | bare he => exact ⟨n, he, le_rfl⟩

/-- Bytes after the end of a message do not move it. -/
theorem append {b : Bytes} {n : Nat} (h : Ends b n) (rest : Bytes) : Ends (b ++ rest) n := by
  have hheader {k : Nat} (he : EndsAt b k) : (b ++ rest).take k = b.take k :=
    List.take_append_of_le_length he.1
  cases h with
  | declared he hlen hle =>
    refine .declared (he.append rest) (by rwa [hheader he]) ?_
    rw [List.length_append]
    omega
  | chunked he hlen hchunks hm hbody =>
    have hdrop := @List.drop_append_of_le_length _ b rest _ he.1
    refine .chunked (he.append rest) (by rwa [hheader he]) (by rwa [hheader he]) ?_ ?_
    · rw [hdrop, List.length_append]
      omega
    · rwa [hdrop, List.take_append_of_le_length hm]
  | bare he hlen hchunks =>
    exact .bare (he.append rest) (by rwa [hheader he]) (by rwa [hheader he])

/-- A message needs no bytes after its end. -/
theorem take {b : Bytes} {n : Nat} (h : Ends b n) (hb : b.length < Numeral.wordBound) :
    Ends (b.take n) n := by
  have hn := h.le_length
  have hlen : (b.take n).length = n := by rw [List.length_take, Nat.min_eq_left hn]
  -- What is decided in the header block is decided by the message, which contains it.
  have hend {k : Nat} (he : EndsAt b k) (hk : k ≤ n) : EndsAt (b.take n) k := by
    rw [← List.take_append_drop n b] at he
    exact he.of_append (by omega)
  have hheader {k : Nat} (hk : k ≤ n) : (b.take n).take k = b.take k := by
    rw [List.take_take, Nat.min_eq_left hk]
  obtain ⟨k, he, hk⟩ := h.header_le hb
  cases h with
  | declared he' hdecl hle =>
    obtain rfl := he.unique he'
    exact .declared (hend he hk) (by rwa [hheader hk]) (by omega)
  | chunked he' hdecl hchunks hm hbody =>
    obtain rfl := he.unique he'
    refine .chunked (hend he hk) (by rwa [hheader hk]) (by rwa [hheader hk]) ?_ ?_
    · rw [List.length_drop]
      omega
    · rwa [List.drop_take, Nat.add_sub_cancel_left, List.take_take, Nat.min_self]
  | bare he' hdecl hchunks =>
    obtain rfl := he.unique he'
    exact .bare (hend he hk) (by rwa [hheader hk]) (by rwa [hheader hk])

/-- An end within the first bytes needs no others. -/
theorem of_append {b c : Bytes} {n : Nat} (h : Ends (b ++ c) n)
    (hbound : (b ++ c).length < Numeral.wordBound) (hn : n ≤ b.length) : Ends b n := by
  have htake := h.take hbound
  rw [List.take_append_of_le_length hn] at htake
  rw [← List.take_append_drop n b]
  exact htake.append _

end Ends

section
variable {b : Bytes} {h n : Nat}

theorem ends_iff_of_declares {length : Nat} (he : EndsAt b h) (hdecl : Declares (b.take h) length) :
    Ends b n ↔ n = min (h + length) (Numeral.wordBound - 1) ∧ n ≤ b.length := by
  refine ⟨fun hends => ⟨?_, hends.le_length⟩, ?_⟩
  · cases hends with
    | declared he' hdecl' _ =>
      obtain rfl := he.unique he'
      rw [hdecl.unique hdecl']
    | chunked he' hnone | bare he' hnone =>
      obtain rfl := he.unique he'
      exact absurd ⟨_, hdecl⟩ hnone
  · rintro ⟨rfl, hle⟩
    exact .declared he hdecl hle

theorem ends_iff_of_announcesChunks (he : EndsAt b h)
    (hnone : ¬ ∃ length, Declares (b.take h) length) (hchunks : AnnouncesChunks (b.take h)) :
    Ends b n ↔ ∃ m, n = h + m ∧ m ≤ (b.drop h).length ∧
      ∃ chunks, IsBody chunks ((b.drop h).take m) := by
  constructor
  · intro hends
    cases hends with
    | declared he' hdecl _ =>
      obtain rfl := he.unique he'
      exact absurd ⟨_, hdecl⟩ hnone
    | chunked he' _ _ hm hbody =>
      obtain rfl := he.unique he'
      exact ⟨_, rfl, hm, hbody⟩
    | bare he' _ hno =>
      obtain rfl := he.unique he'
      exact absurd hchunks hno
  · rintro ⟨m, rfl, hm, hbody⟩
    exact .chunked he hnone hchunks hm hbody

theorem ends_iff_of_bare (he : EndsAt b h) (hnone : ¬ ∃ length, Declares (b.take h) length)
    (hno : ¬ AnnouncesChunks (b.take h)) : Ends b n ↔ n = h := by
  constructor
  · intro hends
    cases hends with
    | declared he' hdecl _ =>
      obtain rfl := he.unique he'
      exact absurd ⟨_, hdecl⟩ hnone
    | chunked he' _ hchunks =>
      obtain rfl := he.unique he'
      exact absurd hchunks hno
    | bare he' => exact he'.unique he
  · rintro rfl
    exact .bare he hnone hno

end

/-! ## What a framer finds -/

theorem progress_eq_complete_iff {f : Framer} {n : Nat} :
    f.progress = .complete n ↔ f.totalNeeded? = some n ∧ n ≤ f.consumed := by
  have hcomplete : f.progress = .complete n ↔ f.completeAt? = some n := by
    rw [progress]
    rcases f.completeAt? with _ | k <;> simp
  rw [hcomplete, completeAt?, Option.filter_eq_some_iff, decide_eq_true_iff]

theorem progress_eq_incomplete_iff {f : Framer} :
    f.progress = .incomplete ↔ ∀ n, f.progress ≠ .complete n := by
  rcases f.progress with _ | n <;> simp

/-- The length signals of the header block decide on the form of the body, whatever its bytes. -/
theorem bodyOf_cases (header : Bytes) :
    (∃ length, Declares header length ∧ ∀ rest, bodyOf header rest = .fixed length) ∨
    ((¬ ∃ length, Declares header length) ∧ AnnouncesChunks header ∧
      ∀ rest, bodyOf header rest = .chunked (Chunked.Scanner.advance {} rest).1) ∨
    ((¬ ∃ length, Declares header length) ∧ ¬ AnnouncesChunks header ∧
      ∀ rest, bodyOf header rest = .empty) := by
  rcases hlen : Header.contentLength? header with _ | length
  · have hnone := Header.contentLength?_eq_none_iff.1 hlen
    rcases hsignal : Header.isChunked header
    · have hno := mt Header.isChunked_iff.2 (Bool.eq_false_iff.1 hsignal)
      refine Or.inr (Or.inr ⟨hnone, hno, fun rest => ?_⟩)
      simp only [bodyOf, hlen, hsignal, Bool.false_eq_true, if_false]
    · refine Or.inr (Or.inl ⟨hnone, Header.isChunked_iff.1 hsignal, fun rest => ?_⟩)
      simp only [bodyOf, hlen, hsignal, if_true]
  · refine Or.inl ⟨length, Header.contentLength?_eq_some_iff.1 hlen, fun rest => ?_⟩
    simp only [bodyOf, hlen]

/-- A framer with a limit on the header block, after bytes that were fed to it at once. -/
def ofBytes (maxHeader : Nat) (b : Bytes) : Framer := ({ maxHeader } : Framer).feed b

theorem ofBytes_of_endsAt {maxHeader h : Nat} {b : Bytes} (he : EndsAt b h) :
    ofBytes maxHeader b = ⟨maxHeader, b.length, .body h (bodyOf (b.take h) (b.drop h))⟩ := by
  have hscan : scanHeader [] b = ((b.take h).reverse, some (b.drop h)) :=
    @scanHeader_of_endsAt [] b h he (Nat.lt_of_lt_of_le (by decide) he.four_le)
  have hlen : (b.take h).reverse.length = h := by
    rw [List.length_reverse, List.length_take, Nat.min_eq_left he.1]
  rw [ofBytes, feed, show ({ maxHeader } : Framer).completeAt? = none from rfl]
  simp only [advancePart, hscan, hlen, List.reverse_reverse, Nat.zero_add]

theorem ofBytes_of_staysOpen {maxHeader : Nat} {b : Bytes} (ho : StaysOpen b) :
    ofBytes maxHeader b =
      ⟨maxHeader, b.length, if b.length > maxHeader then .oversized else .header b.reverse⟩ := by
  have hscan : scanHeader [] b = (b.reverse, none) := by
    simpa using @scanHeader_of_staysOpen [] b ho
  rw [ofBytes, feed, show ({ maxHeader } : Framer).completeAt? = none from rfl]
  simp only [advancePart, hscan, Nat.zero_add]

/-- In the chunked form the total is known once the body has ended. -/
theorem chunked_totalNeeded?_eq_some_iff {maxHeader consumed h n : Nat} {s : Chunked.Scanner} :
    totalNeeded? ⟨maxHeader, consumed, .body h (.chunked s)⟩ = some n ↔
      s.phase = .done ∧ n = h + s.bodyLength := by
  rw [totalNeeded?]
  split <;> simp_all [eq_comm]

/-- Whatever the limit, bytes fed at once are complete where the message ends. -/
theorem ofBytes_progress_eq_complete_iff {maxHeader : Nat} {b : Bytes} {n : Nat} :
    (ofBytes maxHeader b).progress = .complete n ↔ Ends b n := by
  rw [progress_eq_complete_iff]
  rcases Header.staysOpen_or_endsAt b with ho | ⟨h, he⟩
  · rw [ofBytes_of_staysOpen ho]
    refine iff_of_false ?_ fun hends => ?_
    · rintro ⟨htotal, -⟩
      split at htotal <;> cases htotal
    · cases hends with
      | declared he | chunked he | bare he => exact he.not_staysOpen ho
  · rw [ofBytes_of_endsAt he]
    rcases bodyOf_cases (b.take h) with ⟨length, hdecl, hbody⟩ | ⟨hnone, hchunks, hbody⟩ |
      ⟨hnone, hno, hbody⟩
    · rw [ends_iff_of_declares he hdecl, hbody, totalNeeded?]
      simp only [Option.some.injEq, addLength]
      rw [eq_comm]
    · rw [ends_iff_of_announcesChunks he hnone hchunks, hbody, chunked_totalNeeded?_eq_some_iff]
      -- The scanner's answer and the form of the body are two views of one place.
      have hdone (m : Nat) : (m ≤ (b.drop h).length ∧ ∃ k, IsBody k ((b.drop h).take m)) ↔
          (Chunked.Scanner.advance {} (b.drop h)).1.phase = .done ∧
            (Chunked.Scanner.advance {} (b.drop h)).1.bodyLength = m := by
        rw [← Chunked.Scanner.advance_eq_done_iff, Chunked.Scanner.advance_snd_eq_done_iff,
          Nat.zero_add]
      simp only [hdone]
      constructor
      · rintro ⟨⟨hphase, rfl⟩, -⟩
        exact ⟨_, rfl, hphase, rfl⟩
      · rintro ⟨m, rfl, hphase, hm⟩
        have hle := ((hdone m).2 ⟨hphase, hm⟩).1
        have := he.1
        rw [List.length_drop] at hle
        exact ⟨⟨hphase, by rw [hm]⟩, by omega⟩
    · rw [ends_iff_of_bare he hnone hno, hbody, totalNeeded?]
      have := he.1
      simp only [Option.some.injEq]
      omega

/-- Scanning finds the end of the message where it is. -/
theorem scan_eq_complete_iff {b : Bytes} {n : Nat} : scan b = .complete n ↔ Ends b n :=
  ofBytes_progress_eq_complete_iff

/-! ## Messages delimit themselves -/

/-- **Scanning finds the end of the message, and the message delimits itself.** The end that is
found lies after the header block and within the bytes; no shorter piece of the message is taken for
the whole, and no bytes that follow the message change the answer. -/
theorem scan_delimits (b : Bytes) (n : Nat) :
    (scan b = .complete n ↔ Ends b n) ∧
    (b.length < Numeral.wordBound → scan b = .complete n →
      (∃ h, EndsAt b h ∧ h ≤ n) ∧ n ≤ b.length ∧
      (∀ k < n, scan (b.take k) = .incomplete) ∧
      ∀ rest, scan (b.take n ++ rest) = .complete n) := by
  refine ⟨scan_eq_complete_iff, fun hb hscan => ?_⟩
  have hends : Ends b n := scan_eq_complete_iff.1 hscan
  refine ⟨hends.header_le hb, hends.le_length, fun k hk => ?_, fun rest => ?_⟩
  · -- An end within the first `k` bytes would be an end of the whole as well.
    rw [scan, progress_eq_incomplete_iff]
    intro m hm
    have hshort : Ends (b.take k) m := scan_eq_complete_iff.1 hm
    have hle : m ≤ k := hshort.le_length.trans (by rw [List.length_take]; exact Nat.min_le_left _ _)
    have hwhole : scan b = .complete m := by
      rw [scan_eq_complete_iff, ← List.take_append_drop k b]
      exact hshort.append _
    rw [hscan, Progress.complete.injEq] at hwhole
    omega
  · exact scan_eq_complete_iff.2 ((hends.take hb).append rest)

/-- A chunked message that is followed by the next response. -/
theorem scan_delimits_before_next :
    let b := Bytes.ofString "HTTP/1.1 200 OK\r\nTransfer-Encoding: chunked\r\n\r\n" ++
      Bytes.ofString "1\r\na\r\n0\r\n\r\n" ++ Bytes.ofString "HTTP/1.1 200 OK\r\n\r\n"
    b.length < Numeral.wordBound ∧ scan b = .complete 58 ∧
      (∃ h, EndsAt b h ∧ h ≤ 58) ∧ 58 ≤ b.length ∧
      (∀ k < 58, scan (b.take k) = .incomplete) ∧
      ∀ rest, scan (b.take 58 ++ rest) = .complete 58 := by
  intro b
  have hb : b.length < Numeral.wordBound := by decide +kernel
  have hscan : scan b = .complete 58 := by decide +kernel
  exact ⟨hb, hscan, (scan_delimits b 58).2 hb hscan⟩

end TopicRelay.Framer
