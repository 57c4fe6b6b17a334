import TopicRelay.Proofs.Header.Fields
import TopicRelay.Proofs.Lines
import Mathlib.Logic.Relation

/-!
# The lines that decide about the body

Of all lines of a header block at most two decide about its body: the first that starts with the
name of the field for its length, and the first that starts with the name of the field for how it is
transferred. `LeavesSignals` lists what may be done to the other lines.

`length_signals_depend_on_deciding_lines` is the main statement.
-/

namespace TopicRelay.Header

open Bytes (lf cr dropCR lines)

/-! ## Deciding lines -/

/-- The line starts with the name and a colon. -/
def Names (name line : Bytes) : Prop := name ++ [58] <+: line

instance (name line : Bytes) : Decidable (Names name line) :=
  inferInstanceAs (Decidable (name ++ [58] <+: line))

/-- The line that decides about a field: the first that starts with its name. -/
def deciding? (name : Bytes) (ls : List Bytes) : Option Bytes := ls.find? (Names name ·)

/-- A carriage return at the end of a line is no part of the name on it. -/
theorem names_dropCR_iff {name line : Bytes} : Names name (dropCR line) ↔ Names name line := by
  rw [dropCR]
  split
  · rename_i hcr
    obtain ⟨front, rfl⟩ := List.getLast?_eq_some_iff.1 hcr
    rw [List.dropLast_concat, Names, Names, List.prefix_concat_iff]
    refine ⟨Or.inr, fun h => h.resolve_left fun heq => ?_⟩
    have hlast := (List.append_inj' heq rfl).2
    exact absurd hlast (by decide)
  · exact Iff.rfl

theorem valueOn_dropCR_isSome {name line : Bytes} :
    (valueOn name (dropCR line)).isSome ↔ Names name line := by
  rw [← names_dropCR_iff, Names, ← not_iff_not, Option.not_isSome_iff_eq_none, valueOn_eq_none_iff]

/-- Only the deciding line is read. -/
theorem fieldValue?_eq (name header : Bytes) :
    fieldValue? name header =
      (deciding? name (lines header).tail).bind fun line => valueOn name (dropCR line) := by
  rw [fieldValue?, deciding?]
  induction (lines header).tail with
  | nil => rfl
  | cons line rest ih =>
    rw [List.findSome?_cons, List.find?_cons, ih]
    have hnames := @valueOn_dropCR_isSome name line
    rcases hvalue : valueOn name (dropCR line) with _ | value
    · rw [hvalue, Option.isSome_none, Bool.false_eq_true, false_iff] at hnames
      rw [decide_eq_false hnames]
    · rw [hvalue, Option.isSome_some, eq_self, true_iff] at hnames
      rw [decide_eq_true hnames, Option.bind_some, hvalue]

/-- The names of the fields that decide about the body. -/
def signalNames : List Bytes := [contentLengthName, transferEncodingName]

/-- Both answers are about the lines that decide about the two fields. -/
theorem signals_congr {header header' : Bytes}
    (h : ∀ name ∈ signalNames,
      deciding? name (lines header').tail = deciding? name (lines header).tail) :
    contentLength? header' = contentLength? header ∧ isChunked header' = isChunked header := by
  have hvalue (name : Bytes) (hname : name ∈ signalNames) :
      fieldValue? name header' = fieldValue? name header := by
    rw [fieldValue?_eq, fieldValue?_eq, h name hname]
  constructor
  · rw [contentLength?, contentLength?, hvalue _ (by decide)]
  · rw [isChunked, isChunked, hvalue _ (by decide)]

/-! ## The other lines -/

/-- What may be done to the lines after the first so that the deciding lines stay what they are. A
line that starts with the name of a field is idle if there is one before it. -/
inductive LeavesSignals : List Bytes → List Bytes → Prop
  | insert {before after : List Bytes} {line : Bytes} :
      (∀ name ∈ signalNames, Names name line → ∃ first ∈ before, Names name first) →
      LeavesSignals (before ++ after) (before ++ line :: after)
  | delete {before after : List Bytes} {line : Bytes} :
      (∀ name ∈ signalNames, Names name line → ∃ first ∈ before, Names name first) →
      LeavesSignals (before ++ line :: after) (before ++ after)
  /-- Neighbouring lines change places. If both start with the name of a field, they are idle. -/
  | swap {before after : List Bytes} {line next : Bytes} :
      (∀ name ∈ signalNames, Names name line → Names name next →
        ∃ first ∈ before, Names name first) →
      LeavesSignals (before ++ line :: next :: after) (before ++ next :: line :: after)

theorem deciding?_append {name : Bytes} {before : List Bytes} (after : List Bytes)
    (h : ∃ first ∈ before, Names name first) :
    deciding? name (before ++ after) = deciding? name before := by
  have hfirst : (before.find? (Names name ·)).isSome := by
    rw [List.find?_isSome]
    simpa using h
  obtain ⟨first, hfirst⟩ := Option.isSome_iff_exists.1 hfirst
  rw [deciding?, deciding?, List.find?_append, hfirst, Option.some_or]

/-- An idle line decides nothing. -/
theorem deciding?_insert {name line : Bytes} {before : List Bytes} (after : List Bytes)
    (h : Names name line → ∃ first ∈ before, Names name first) :
    deciding? name (before ++ line :: after) = deciding? name (before ++ after) := by
  by_cases hline : Names name line
  · rw [deciding?_append _ (h hline), deciding?_append _ (h hline)]
  · rw [deciding?, deciding?, List.find?_append, List.find?_append,
      List.find?_cons_of_neg (by simpa using hline)]

theorem deciding?_swap_of_not_names {name line next : Bytes} (before after : List Bytes)
    (h : ¬ Names name next) :
    deciding? name (before ++ next :: line :: after) =
      deciding? name (before ++ line :: next :: after) := by
  have hleft : deciding? name (before ++ next :: (line :: after)) =
      deciding? name (before ++ line :: after) := deciding?_insert _ fun hnext => absurd hnext h
  have hright : deciding? name (before ++ [line] ++ next :: after) =
      deciding? name (before ++ [line] ++ after) := deciding?_insert _ fun hnext => absurd hnext h
  rw [hleft, List.append_cons before line (next :: after), hright, ← List.append_cons]

/-- Neighbouring lines decide the same in either order if they do not compete for a field. -/
theorem deciding?_swap {name line next : Bytes} {before : List Bytes} (after : List Bytes)
    (h : Names name line → Names name next → ∃ first ∈ before, Names name first) :
    deciding? name (before ++ next :: line :: after) =
      deciding? name (before ++ line :: next :: after) := by
  by_cases hline : Names name line
  · by_cases hnext : Names name next
    · rw [deciding?_append _ (h hline hnext), deciding?_append _ (h hline hnext)]
    · exact deciding?_swap_of_not_names before after hnext
  · exact (deciding?_swap_of_not_names before after hline).symm

theorem LeavesSignals.deciding?_eq {ls ls' : List Bytes} (h : LeavesSignals ls ls') {name : Bytes}
    (hname : name ∈ signalNames) : deciding? name ls' = deciding? name ls := by
  cases h with
  | insert hidle => exact deciding?_insert _ (hidle name hname)
  | delete hidle => exact (deciding?_insert _ (hidle name hname)).symm
  | swap hidle => exact deciding?_swap _ (hidle name hname)

theorem deciding?_eq_of_leavesSignals {ls ls' : List Bytes}
    (h : Relation.ReflTransGen LeavesSignals ls ls') {name : Bytes} (hname : name ∈ signalNames) :
    deciding? name ls' = deciding? name ls := by
  induction h with
  | refl => rfl
  | tail _ hstep ih => rw [hstep.deciding?_eq hname, ih]

/-- **The length signals of a header block depend on its deciding lines.** A header block is a start
line and further lines, joined by line feeds. Of the further lines, each without one carriage return
at its end, the first that starts with the name of the length field and a colon declares the length,
if its value is a numeral for a number of 64 bits; if it is not, no later line does. The first that
starts with the name of the transfer field and a colon announces chunks, if its value contains the
word in some letter case. Whatever is done to the lines that do not decide, and to the start line,
both answers stay the same. -/
theorem length_signals_depend_on_deciding_lines :
    (∀ header : Bytes, ∃ start ls, (∀ line ∈ start :: ls, lf ∉ line) ∧
      header = [lf].intercalate (start :: ls)) ∧
    ∀ (start : Bytes) (ls : List Bytes), (∀ line ∈ start :: ls, lf ∉ line) →
      let header := [lf].intercalate (start :: ls)
      fieldLines header = ls.map dropCR ∧
      (∀ n, contentLength? header = some n ↔ Declares header n) ∧
      (isChunked header ↔ AnnouncesChunks header) ∧
      (∀ before rest after,
        ls.map dropCR = before ++ (contentLengthName ++ 58 :: rest) :: after →
        (∀ line ∈ before, ¬ Names contentLengthName line) →
        (¬ ∃ n < Numeral.wordBound, Numeral.Denotes 10 (Bytes.trim rest) n) →
        contentLength? header = none) ∧
      ∀ (start' : Bytes) (ls' : List Bytes), (∀ line ∈ start' :: ls', lf ∉ line) →
        Relation.ReflTransGen LeavesSignals ls ls' →
        let header' := [lf].intercalate (start' :: ls')
        contentLength? header' = contentLength? header ∧ isChunked header' = isChunked header := by
  have hlines {start : Bytes} {ls : List Bytes} (hlf : ∀ line ∈ start :: ls, lf ∉ line) :
      lines ([lf].intercalate (start :: ls)) = start :: ls :=
    Bytes.lines_eq_iff.2 ⟨List.cons_ne_nil _ _, hlf, rfl⟩
  refine ⟨fun header => ?_, fun start ls hlf => ?_⟩
  · obtain ⟨start, ls, hcons⟩ := List.exists_cons_of_ne_nil (Bytes.lines_ne_nil header)
    exact ⟨start, ls, (Bytes.lines_eq_iff.1 hcons).2⟩
  · have hfields : fieldLines ([lf].intercalate (start :: ls)) = ls.map dropCR := by
      rw [fieldLines, hlines hlf, List.tail_cons]
    refine ⟨hfields, fun n => contentLength?_eq_some_iff, isChunked_iff, ?_, ?_⟩
    · intro before rest after hsplit hbefore hbad
      rw [contentLength?_eq_none_iff]
      rintro ⟨n, value, hvalue, hn, hbound⟩
      have hfirst :
          FirstValue contentLengthName ([lf].intercalate (start :: ls)) (Bytes.trim rest) :=
        ⟨before, rest, after, hfields.trans hsplit, hbefore, rfl⟩
      rw [← fieldValue?_eq_some_iff] at hvalue hfirst
      obtain rfl : Bytes.trim rest = value := Option.some.inj (hfirst.symm.trans hvalue)
      exact hbad ⟨n, hbound, hn⟩
    · intro start' ls' hlf' hleaves
      refine signals_congr fun name hname => ?_
      rw [hlines hlf, hlines hlf', List.tail_cons, List.tail_cons,
        deciding?_eq_of_leavesSignals hleaves hname]

/-- A length field in another letter case, one with a space before its colon and a field whose name
ends in that of the length field come before the deciding line, and a second length field behind it.
-/
theorem length_signals_depend_on_deciding_lines_near_misses :
    let start := Bytes.ofString "HTTP/1.1 200 OK\r"
    let deciding := Bytes.ofString "Content-Length: 2\r"
    let before := ["content-length: 3\r", "Content-Length : 4\r", "X-Content-Length: 5\r"].map
      Bytes.ofString
    let again := Bytes.ofString "Content-Length: 6\r"
    let header := [lf].intercalate (start :: before ++ [deciding, again, [cr], []])
    contentLength? header = some 2 ∧ isChunked header = false := by
  intro start deciding before again header
  have hstart : ∀ line ∈ start :: [deciding, [cr], []], lf ∉ line := by decide +kernel
  have hheader : ∀ line ∈ start :: (before ++ [deciding, again, [cr], []]), lf ∉ line := by
    decide +kernel
  have hagain : LeavesSignals [deciding, [cr], []] [deciding, again, [cr], []] :=
    @LeavesSignals.insert [deciding] [[cr], []] again (by decide +kernel)
  have hidle : ∀ line ∈ before, ∀ name ∈ signalNames, ¬ Names name line := by decide +kernel
  have hfront {line : Bytes} (hline : line ∈ before) (ls : List Bytes) :
      LeavesSignals ls (line :: ls) :=
    @LeavesSignals.insert [] ls line fun name hname h => absurd h (hidle line hline name hname)
  have hleaves : Relation.ReflTransGen LeavesSignals [deciding, [cr], []]
      (before ++ [deciding, again, [cr], []]) :=
    ((((Relation.ReflTransGen.single hagain).tail (hfront (by simp [before]) _)).tail
      (hfront (by simp [before]) _)).tail (hfront (by simp [before]) _))
  obtain ⟨-, -, -, -, hsame⟩ :=
    length_signals_depend_on_deciding_lines.2 start [deciding, [cr], []] hstart
  obtain ⟨hlength, hchunked⟩ := hsame start _ hheader hleaves
  exact ⟨hlength.trans (by decide +kernel), hchunked.trans (by decide +kernel)⟩

end TopicRelay.Header
