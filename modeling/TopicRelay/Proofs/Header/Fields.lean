import TopicRelay.Header
import TopicRelay.Proofs.Numeral
import Mathlib.Data.List.Infix

/-!
# Length signals of a header block

The fields that decide where a body ends are read from the lines after the first. Of the lines that
start with the name of a field and a colon only the first counts. The main statements say when a
header block declares a length (`contentLength?_eq_some_iff`) and when it announces chunks
(`isChunked_iff`), in terms of its lines.
-/

namespace TopicRelay.Header

/-! ## Fields -/

/-- The lines of a header block that may hold fields: all but the first, each without one carriage
return at its end. -/
def fieldLines (header : Bytes) : List Bytes := (Bytes.lines header).tail.map Bytes.dropCR

/-- `value` is what follows the name and the colon on the first field line that starts with them,
without the white space around it. -/
def FirstValue (name header value : Bytes) : Prop :=
  ∃ before rest after, fieldLines header = before ++ (name ++ 58 :: rest) :: after ∧
    (∀ line ∈ before, ¬ name ++ [58] <+: line) ∧ value = Bytes.trim rest

theorem valueOn_eq_some_iff {name line value : Bytes} :
    valueOn name line = some value ↔
      ∃ rest, line = name ++ 58 :: rest ∧ value = Bytes.trim rest := by
  rw [valueOn, Option.map_eq_some_iff]
  constructor
  · rintro ⟨rest, h, rfl⟩
    obtain ⟨r, hname, hcolon⟩ := Option.bind_eq_some_iff.1 h
    rw [Bytes.after?_eq_some_iff] at hname hcolon
    exact ⟨rest, by rw [hname, hcolon, List.singleton_append], rfl⟩
  · rintro ⟨rest, rfl, rfl⟩
    refine ⟨rest, Option.bind_eq_some_iff.2 ⟨58 :: rest, ?_, ?_⟩, rfl⟩ <;>
      rw [Bytes.after?_eq_some_iff]
    rfl

theorem valueOn_eq_none_iff {name line : Bytes} :
    valueOn name line = none ↔ ¬ name ++ [58] <+: line := by
  rw [Option.eq_none_iff_forall_ne_some, ← not_exists_not]
  simp only [ne_eq, not_not, valueOn_eq_some_iff]
  refine not_congr ⟨?_, ?_⟩
  · rintro ⟨_, rest, rfl, -⟩
    exact ⟨rest, by rw [List.append_assoc, List.singleton_append]⟩
  · rintro ⟨rest, rfl⟩
    exact ⟨_, rest, by rw [List.append_assoc, List.singleton_append], rfl⟩

theorem fieldValue?_eq_some_iff {name header value : Bytes} :
    fieldValue? name header = some value ↔ FirstValue name header value := by
  have hmap : fieldValue? name header = (fieldLines header).findSome? (valueOn name) := by
    rw [fieldValue?, fieldLines, List.findSome?_map]
    rfl
  rw [hmap, List.findSome?_eq_some_iff]
  constructor
  · rintro ⟨before, line, after, hlines, hvalue, hbefore⟩
    obtain ⟨rest, rfl, rfl⟩ := valueOn_eq_some_iff.1 hvalue
    exact ⟨before, rest, after, hlines, fun l hl => valueOn_eq_none_iff.1 (hbefore l hl), rfl⟩
  · rintro ⟨before, rest, after, hlines, hbefore, rfl⟩
    exact ⟨before, _, after, hlines, valueOn_eq_some_iff.2 ⟨rest, rfl, rfl⟩,
      fun l hl => valueOn_eq_none_iff.2 (hbefore l hl)⟩

/-! ## The declared length -/

/-- The header block declares a body of `n` bytes: the value of its first length field is a decimal
numeral for `n`, which fits into 64 bits. -/
def Declares (header : Bytes) (n : Nat) : Prop :=
  ∃ value, FirstValue contentLengthName header value ∧ Numeral.Denotes 10 value n ∧
    n < Numeral.wordBound

theorem contentLength?_eq_some_iff {header : Bytes} {n : Nat} :
    contentLength? header = some n ↔ Declares header n := by
  rw [contentLength?, Option.bind_eq_some_iff]
  simp only [fieldValue?_eq_some_iff, Numeral.toOption_read_eq_some_iff]
  rfl

theorem Declares.unique {header : Bytes} {m n : Nat} (hm : Declares header m)
    (hn : Declares header n) : m = n := by
  rw [← contentLength?_eq_some_iff] at hm hn
  exact Option.some.inj (hm.symm.trans hn)

theorem contentLength?_eq_none_iff {header : Bytes} :
    contentLength? header = none ↔ ¬ ∃ n, Declares header n := by
  rw [Option.eq_none_iff_forall_ne_some, not_exists]
  exact forall_congr' fun n => not_congr contentLength?_eq_some_iff

/-! ## The announcement of chunks -/

/-- The header block announces a chunked body: the value of its first field on how the body is
transferred contains the word, in some letter case. -/
def AnnouncesChunks (header : Bytes) : Prop :=
  ∃ value word, FirstValue transferEncodingName header value ∧ word <:+: value ∧
    word.map Bytes.lower = Bytes.ofString "chunked"

theorem contains_iff {p b : Bytes} : Bytes.contains p b ↔ p <:+: b := by
  induction b with
  | nil => simp [Bytes.contains]
  | cons x rest ih =>
    rw [Bytes.contains, Bool.or_eq_true, ih, List.isPrefixOf_iff_prefix, List.infix_cons_iff]

/-- A word stands in a text in some letter case if its lower-case form stands in that of the text.
-/
theorem infix_map_iff {f : UInt8 → UInt8} {p b : Bytes} :
    p <:+: b.map f ↔ ∃ word, word <:+: b ∧ word.map f = p := by
  constructor
  · rintro ⟨l, r, h⟩
    obtain ⟨lp, r', rfl, hlp, rfl⟩ := List.map_eq_append_iff.1 h.symm
    obtain ⟨l', word, rfl, rfl, rfl⟩ := List.map_eq_append_iff.1 hlp
    exact ⟨word, ⟨l', r', rfl⟩, rfl⟩
  · rintro ⟨word, h, rfl⟩
    exact h.map f

theorem isChunked_iff {header : Bytes} : isChunked header ↔ AnnouncesChunks header := by
  rw [isChunked, AnnouncesChunks]
  rcases hv : fieldValue? transferEncodingName header with _ | value
  · simp only [Bool.false_eq_true, false_iff]
    rintro ⟨value, word, hvalue, -⟩
    rw [fieldValue?_eq_some_iff.2 hvalue] at hv
    cases hv
  · simp only
    rw [contains_iff, infix_map_iff]
    constructor
    · rintro ⟨word, hword, hlower⟩
      exact ⟨value, word, fieldValue?_eq_some_iff.1 hv, hword, hlower⟩
    · rintro ⟨v, word, hvalue, hword, hlower⟩
      obtain rfl : value = v := by
        rw [fieldValue?_eq_some_iff.2 hvalue] at hv
        exact (Option.some.inj hv).symm
      exact ⟨word, hword, hlower⟩

end TopicRelay.Header
