import TopicRelay.Chunked
import TopicRelay.Proofs.Numeral

/-!
# The form of a chunked body

A chunked body is any number of chunks, a size line that declares zero, any number of trailer lines
and an empty line. `IsBody` says this of a byte string, without a scanner.

What is not a body may be the beginning of one, or may have gone wrong. For that `LeadsTo` follows
the form from the left up to a control line, `Fault` says what is wrong with the line found there,
and `Unfinished` says that the input ends before anything is. The main statement is `reads_cases`:
every input starts with a body, has a fault, or is unfinished.
-/

namespace TopicRelay.Chunked

/-! ## Bodies -/

/-- `raw` is one whole line, and `line` is what it says: the bytes up to the line feed, less one
carriage return at their end. -/
def IsLine (line raw : Bytes) : Prop :=
  ∃ content, Bytes.lf ∉ content ∧ raw = content ++ [Bytes.lf] ∧ line = Bytes.dropCR content

/-- The line declares the size `n`: what stands before its first `;`, trimmed, is a hexadecimal
numeral for `n`, which fits into 64 bits. -/
def Declares (line : Bytes) (n : Nat) : Prop :=
  Numeral.Denotes 16 (Bytes.trim (line.takeWhile (· ≠ 59))) n ∧ n < Numeral.wordBound

/-- `raw` is a line that declares the size `n`. -/
def IsSizeLine (n : Nat) (raw : Bytes) : Prop := ∃ line, IsLine line raw ∧ Declares line n

/-- A chunk: a line that declares a size above zero, that many bytes of any kind, an empty line. -/
def IsChunk (b : Bytes) : Prop :=
  ∃ n head data close, 0 < n ∧ IsSizeLine n head ∧ data.length = n ∧ IsLine [] close ∧
    b = head ++ data ++ close

/-- A trailer line is any line that is not empty. -/
def IsTrailer (raw : Bytes) : Prop := ∃ line, IsLine line raw ∧ line ≠ []

/-- A complete chunked body with `n` chunks before the closing one. -/
def IsBody (n : Nat) (b : Bytes) : Prop :=
  ∃ (chunks : List Bytes) (last : Bytes) (trailers : List Bytes) (close : Bytes),
    (∀ c ∈ chunks, IsChunk c) ∧ chunks.length = n ∧ IsSizeLine 0 last ∧
    (∀ t ∈ trailers, IsTrailer t) ∧ IsLine [] close ∧
    b = chunks.flatten ++ last ++ trailers.flatten ++ close

theorem size?_eq_some_iff {line : Bytes} {n : Nat} : size? line = some n ↔ Declares line n :=
  Numeral.toOption_read_eq_some_iff

theorem size?_eq_none_iff {line : Bytes} : size? line = none ↔ ∀ n, ¬ Declares line n := by
  rw [Option.eq_none_iff_forall_ne_some]
  exact forall_congr' fun n => not_congr size?_eq_some_iff

/-! ## Beginnings of bodies -/

/-- The control lines of a body. -/
inductive Place where
  /-- The line before the data of a chunk, or of the closing chunk. -/
  | size
  /-- The line after the data of a chunk. -/
  | dataEnd
  /-- The line after the closing chunk, or after a trailer line. -/
  | trailer

/-- The bytes are the beginning of a body up to a control line, and hold the size lines of `n`
chunks. -/
inductive LeadsTo : Place → (n : Nat) → Bytes → Prop
  | start : LeadsTo .size 0 []
  | data {n size : Nat} {b head data : Bytes} : LeadsTo .size n b → IsSizeLine size head →
      0 < size → data.length = size → LeadsTo .dataEnd (n + 1) (b ++ head ++ data)
  | dataEnd {n : Nat} {b close : Bytes} : LeadsTo .dataEnd n b → IsLine [] close →
      LeadsTo .size n (b ++ close)
  | last {n : Nat} {b head : Bytes} : LeadsTo .size n b → IsSizeLine 0 head →
      LeadsTo .trailer n (b ++ head)
  | trailer {n : Nat} {b raw : Bytes} : LeadsTo .trailer n b → IsTrailer raw →
      LeadsTo .trailer n (b ++ raw)

/-- Reading the input in the form of a body comes to a control line that cannot stand there. -/
inductive Fault : (input : Bytes) → Prop
  /-- A size line declares no size. -/
  | unreadable {n : Nat} {b line raw rest : Bytes} : LeadsTo .size n b → IsLine line raw →
      (∀ s, ¬ Declares line s) → Fault (b ++ raw ++ rest)
  /-- The line after the data of a chunk is not empty. -/
  | unclosed {n : Nat} {b line raw rest : Bytes} : LeadsTo .dataEnd n b → IsLine line raw →
      line ≠ [] → Fault (b ++ raw ++ rest)
  /-- The last line is not finished and already too long. -/
  | overlong {place : Place} {n : Nat} {b tail : Bytes} : LeadsTo place n b → Bytes.lf ∉ tail →
      maxLine < tail.length → Fault (b ++ tail)

/-- The input ends within a body, and nothing in it is wrong. -/
inductive Unfinished : (input : Bytes) → Prop
  /-- It ends in a control line. -/
  | line {place : Place} {n : Nat} {b tail : Bytes} : LeadsTo place n b → Bytes.lf ∉ tail →
      tail.length ≤ maxLine → Unfinished (b ++ tail)
  /-- It ends in the data of a chunk. -/
  | data {n size : Nat} {b head data : Bytes} : LeadsTo .size n b → IsSizeLine size head →
      data.length < size → Unfinished (b ++ head ++ data)

/-! ## A body is a beginning with its last line -/

theorem LeadsTo.append_chunks {n : Nat} {b : Bytes} (h : LeadsTo .size n b) {chunks : List Bytes}
    (hc : ∀ c ∈ chunks, IsChunk c) : LeadsTo .size (n + chunks.length) (b ++ chunks.flatten) := by
  induction chunks generalizing n b with
  | nil => simpa using h
  | cons c rest ih =>
    obtain ⟨size, head, data, close, hsize, hhead, hdata, hclose, rfl⟩ := hc c (by simp)
    have hnext := ih ((h.data hhead hsize hdata).dataEnd hclose) fun c hc' => hc c (by simp [hc'])
    rw [List.length_cons, List.flatten_cons,
      show n + (rest.length + 1) = n + 1 + rest.length by omega]
    simpa only [List.append_assoc] using hnext

theorem LeadsTo.append_trailers {n : Nat} {b : Bytes} (h : LeadsTo .trailer n b)
    {trailers : List Bytes} (ht : ∀ t ∈ trailers, IsTrailer t) :
    LeadsTo .trailer n (b ++ trailers.flatten) := by
  induction trailers generalizing b with
  | nil => simpa using h
  | cons t rest ih =>
    have hnext := ih (h.trailer (ht t (by simp))) fun t ht' => ht t (by simp [ht'])
    simpa only [List.flatten_cons, List.append_assoc] using hnext

/-- What a beginning of a body consists of, by the place it leads to. -/
def Place.Before : Place → (n : Nat) → Bytes → Prop
  | .size, n, b => ∃ chunks : List Bytes, (∀ c ∈ chunks, IsChunk c) ∧ chunks.length = n ∧
      b = chunks.flatten
  | .dataEnd, n, b => ∃ (chunks : List Bytes) (size : Nat) (head data : Bytes),
      (∀ c ∈ chunks, IsChunk c) ∧ chunks.length + 1 = n ∧ 0 < size ∧ IsSizeLine size head ∧
      data.length = size ∧ b = chunks.flatten ++ head ++ data
  | .trailer, n, b => ∃ (chunks : List Bytes) (last : Bytes) (trailers : List Bytes),
      (∀ c ∈ chunks, IsChunk c) ∧ chunks.length = n ∧ IsSizeLine 0 last ∧
      (∀ t ∈ trailers, IsTrailer t) ∧ b = chunks.flatten ++ last ++ trailers.flatten

theorem LeadsTo.before {place : Place} {n : Nat} {b : Bytes} (h : LeadsTo place n b) :
    place.Before n b := by
  induction h with
  | start => exact ⟨[], by simp, rfl, rfl⟩
  | data _ hhead hsize hdata ih =>
    obtain ⟨chunks, hc, rfl, rfl⟩ := ih
    exact ⟨chunks, _, _, _, hc, rfl, hsize, hhead, hdata, rfl⟩
  | @dataEnd n b close _ hclose ih =>
    obtain ⟨chunks, size, head, data, hc, rfl, hsize, hhead, hdata, rfl⟩ := ih
    have hchunk : IsChunk (head ++ data ++ close) :=
      ⟨size, head, data, close, hsize, hhead, hdata, hclose, rfl⟩
    refine ⟨chunks ++ [head ++ data ++ close], ?_, by simp, by simp⟩
    intro c hmem
    rcases List.mem_append.1 hmem with h | h
    · exact hc c h
    · rwa [List.mem_singleton.1 h]
  | last _ hhead ih =>
    obtain ⟨chunks, hc, rfl, rfl⟩ := ih
    exact ⟨chunks, _, [], hc, rfl, hhead, by simp, by simp⟩
  | @trailer n b raw _ hraw ih =>
    obtain ⟨chunks, last, trailers, hc, rfl, hlast, ht, rfl⟩ := ih
    refine ⟨chunks, last, trailers ++ [raw], hc, rfl, hlast, ?_, by simp⟩
    intro t hmem
    rcases List.mem_append.1 hmem with h | h
    · exact ht t h
    · rwa [List.mem_singleton.1 h]

theorem isBody_iff {n : Nat} {b : Bytes} :
    IsBody n b ↔
      ∃ start close, LeadsTo .trailer n start ∧ IsLine [] close ∧ b = start ++ close := by
  constructor
  · rintro ⟨chunks, last, trailers, close, hc, rfl, hlast, ht, hclose, rfl⟩
    have hsize := LeadsTo.start.append_chunks hc
    rw [Nat.zero_add, List.nil_append] at hsize
    exact ⟨_, close, (hsize.last hlast).append_trailers ht, hclose, rfl⟩
  · rintro ⟨start, close, h, hclose, rfl⟩
    obtain ⟨chunks, last, trailers, hc, hn, hlast, ht, rfl⟩ := h.before
    exact ⟨chunks, last, trailers, close, hc, hn, hlast, ht, hclose, rfl⟩

/-! ## Every input is one of three -/

/-- Reading on from a control line. The measure is what is left to read: a line takes at least its
line feed from it. -/
theorem LeadsTo.cases_append {place : Place} {n : Nat} {b : Bytes} (h : LeadsTo place n b)
    (rest : Bytes) :
    (∃ m body after, IsBody m body ∧ b ++ rest = body ++ after) ∨ Fault (b ++ rest) ∨
      Unfinished (b ++ rest) := by
  induction hlen : rest.length using Nat.strong_induction_on generalizing place n b rest with
  | _ len ih =>
    by_cases hmem : Bytes.lf ∈ rest
    · obtain ⟨content, after, rfl, hc⟩ := List.eq_append_cons_of_mem hmem
      have hline : IsLine (Bytes.dropCR content) (content ++ [Bytes.lf]) := ⟨content, hc, rfl, rfl⟩
      have hafter : after.length < len := by
        rw [← hlen, List.length_append, List.length_cons]
        omega
      rw [show b ++ (content ++ Bytes.lf :: after) = b ++ (content ++ [Bytes.lf]) ++ after by simp]
      cases place with
      | size =>
        rcases hd : size? (Bytes.dropCR content) with _ | size
        · exact Or.inr (Or.inl (.unreadable h hline (size?_eq_none_iff.1 hd)))
        · have hhead : IsSizeLine size (content ++ [Bytes.lf]) :=
            ⟨_, hline, size?_eq_some_iff.1 hd⟩
          rcases Nat.eq_zero_or_pos size with rfl | hsize
          · exact ih _ hafter (h.last hhead) after rfl
          · -- The next control line stands after the data, if the data is all there.
            rcases Nat.lt_or_ge after.length size with hlt | hge
            · exact Or.inr (Or.inr (.data h hhead hlt))
            · have hdata : (after.take size).length = size := by simp [hge]
              have hdrop : (after.drop size).length < len := by
                rw [List.length_drop]
                omega
              have hnext := ih _ hdrop (h.data hhead hsize hdata) (after.drop size) rfl
              simpa only [List.append_assoc, List.take_append_drop] using hnext
      | dataEnd =>
        by_cases hempty : Bytes.dropCR content = []
        · rw [hempty] at hline
          exact ih _ hafter (h.dataEnd hline) after rfl
        · exact Or.inr (Or.inl (.unclosed h hline hempty))
      | trailer =>
        by_cases hempty : Bytes.dropCR content = []
        · rw [hempty] at hline
          exact Or.inl ⟨n, _, after, isBody_iff.2 ⟨b, _, h, hline, rfl⟩, rfl⟩
        · exact ih _ hafter (h.trailer ⟨_, hline, hempty⟩) after rfl
    · -- No control line ends any more, so that only the length of this one is left to look at.
      rcases Nat.lt_or_ge maxLine rest.length with hlong | hshort
      · exact Or.inr (Or.inl (.overlong h hmem hlong))
      · exact Or.inr (Or.inr (.line h hmem hshort))

/-- Every input starts with a body, has a fault, or is unfinished. -/
theorem reads_cases (input : Bytes) :
    (∃ n body after, IsBody n body ∧ input = body ++ after) ∨ Fault input ∨ Unfinished input :=
  LeadsTo.start.cases_append input

end TopicRelay.Chunked
