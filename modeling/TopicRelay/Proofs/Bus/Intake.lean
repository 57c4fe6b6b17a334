import TopicRelay.Bus.Intake
import TopicRelay.Proofs.Lines
import Mathlib.Data.List.Induction

/-!
# The lines of a stream

However a stream is cut into pieces, the messages taken from it are those of its lines
(`forwardAll_forwards_lines`). The step is `Intake.feed_eq`: pieces leave behind what stands after
the last line feed so far, and nothing else of them is remembered.
-/

namespace TopicRelay

/-! ## Lines -/

namespace Bytes

/-- The lines that a line feed has ended. -/
def endedLines (b : Bytes) : List Bytes := (lines b).dropLast

/-- What stands after the last line feed. -/
def lastLine (b : Bytes) : Bytes := (lines b).getLast (lines_ne_nil b)

theorem lines_eq (b : Bytes) : lines b = endedLines b ++ [lastLine b] :=
  (List.dropLast_concat_getLast (lines_ne_nil b)).symm

theorem endedLines_of_not_mem {b : Bytes} (h : lf ∉ b) : endedLines b = [] := by
  rw [endedLines, lines_of_not_mem h]
  rfl

theorem lastLine_of_not_mem {b : Bytes} (h : lf ∉ b) : lastLine b = b := by
  simp only [lastLine, lines_of_not_mem h, List.getLast_singleton]

theorem endedLines_append_lf (a b : Bytes) :
    endedLines (a ++ lf :: b) = lines a ++ endedLines b := by
  rw [endedLines, lines_append_lf, List.dropLast_append_of_ne_nil (lines_ne_nil b), endedLines]

theorem lastLine_append_lf (a b : Bytes) : lastLine (a ++ lf :: b) = lastLine b := by
  simp only [lastLine, lines_append_lf]
  exact List.getLast_append_of_ne_nil _ (lines_ne_nil b)

end Bytes

open Bytes (lf lines endedLines lastLine)

/-! ## Intake -/

namespace Wire

/-- The messages that lines bring, in their order. -/
def messages (ls : List Bytes) : List Message := ls.filterMap message?

theorem messages_append (ls ms : List Bytes) : messages (ls ++ ms) = messages ls ++ messages ms :=
  List.filterMap_append

theorem message?_eq_none_iff {line : Bytes} :
    message? line = none ↔ line.all Bytes.isBlank = true ∨ decode? line = none := by
  rw [message?]
  split <;> simp [*]

end Wire

namespace Intake

/-- Messages that have come before stand in front. -/
theorem feedFrom_acc (i : Intake) (acc : List Message) (b : Bytes) :
    i.feedFrom acc b = (acc.reverse ++ (i.feed b).1, (i.feed b).2) := by
  rw [feed]
  induction b generalizing i acc with
  | nil => simp only [feedFrom, List.reverse_nil, List.append_nil]
  | cons c rest ih =>
    rw [feedFrom, feedFrom]
    split
    · rw [ih, ih {} (_ ++ [])]
      simp
    · rw [ih]

/-- Bytes that are taken one part after the other. -/
theorem feed_append (i : Intake) (a b : Bytes) :
    i.feed (a ++ b) = ((i.feed a).1 ++ ((i.feed a).2.feed b).1, ((i.feed a).2.feed b).2) := by
  have hfrom (acc : List Message) : i.feedFrom acc (a ++ b) =
      (i.feedFrom acc a).2.feedFrom (i.feedFrom acc a).1.reverse b := by
    induction a generalizing i acc with
    | nil => rw [List.nil_append, feedFrom, List.reverse_reverse]
    | cons c rest ih =>
      rw [List.cons_append, feedFrom, feedFrom]
      split <;> exact ih _ _
  rw [feed, hfrom, feedFrom_acc, List.reverse_reverse]
  rfl

/-- Where the pieces were cut makes no difference. -/
theorem feedAll_eq_feed (i : Intake) (pieces : List Bytes) :
    i.feedAll pieces = i.feed pieces.flatten := by
  -- The induction goes backwards, because the last piece is the one that is taken last.
  induction pieces using List.reverseRecOn with
  | nil => rfl
  | append_singleton pieces piece ih =>
    rw [List.flatten_append, List.flatten_singleton, feed_append, ← ih, feedAll, List.foldl_append]
    rfl

/-- Taking bytes brings the messages of the lines that end in them, and leaves behind what stands
after these lines. -/
theorem feed_eq {pending : List UInt8} (h : lf ∉ pending) (b : Bytes) :
    feed ⟨pending⟩ b = (Wire.messages (endedLines (pending.reverse ++ b)),
      ⟨(lastLine (pending.reverse ++ b)).reverse⟩) := by
  have hline : lf ∉ pending.reverse := fun hmem => h (List.mem_reverse.1 hmem)
  induction b generalizing pending with
  | nil =>
    rw [feed, feedFrom, List.append_nil, Bytes.endedLines_of_not_mem hline,
      Bytes.lastLine_of_not_mem hline, List.reverse_reverse]
    rfl
  | cons c rest ih =>
    rw [feed, feedFrom]
    split
    · rename_i hc
      rw [feedFrom_acc, ih List.not_mem_nil List.not_mem_nil, hc, Bytes.endedLines_append_lf,
        Bytes.lastLine_append_lf, Bytes.lines_of_not_mem hline, Wire.messages_append]
      rcases hm : Wire.message? pending.reverse with _ | m <;> simp [Wire.messages, hm]
    · rename_i hc
      have hmore : lf ∉ c :: pending := by
        rw [List.mem_cons, not_or]
        exact ⟨Ne.symm hc, h⟩
      rw [← feed, ih hmore fun hmem => hmore (List.mem_reverse.1 hmem), List.reverse_cons,
        List.append_assoc, List.singleton_append]

/-- After pieces the intake has brought the messages of the lines that have ended. -/
theorem feedAll_eq (pieces : List Bytes) :
    ({} : Intake).feedAll pieces =
      (Wire.messages (endedLines pieces.flatten), ⟨(lastLine pieces.flatten).reverse⟩) := by
  rw [feedAll_eq_feed]
  exact feed_eq List.not_mem_nil pieces.flatten

end Intake

/-- The lines of a stream that count when it stops: at its end what stands after the last line feed
is a line as well, and is lost if reading fails. -/
def StreamEnd.countedLines (stream : Bytes) : StreamEnd → List Bytes
  | .ended => lines stream
  | .failed _ => endedLines stream

/-- The messages of a stream that stops in this way. -/
def StreamEnd.messages (stream : Bytes) (last : StreamEnd) : List Message :=
  Wire.messages (last.countedLines stream)

theorem forwardAll_eq (receiver : Receiver) (pieces : List Bytes) (last : StreamEnd) :
    forwardAll receiver pieces last =
      match receiver, last.messages pieces.flatten, last with
      | .gone, _ :: _, _ => ([], .ok 0)
      | _, messages, .ended => (messages, .ok messages.length)
      | _, messages, .failed reason => (messages, .error reason) := by
  have hfinish : Intake.finish ⟨(lastLine pieces.flatten).reverse⟩ =
      Wire.messages [lastLine pieces.flatten] := by
    rw [Intake.finish, List.reverse_reverse]
    rcases hm : Wire.message? (lastLine pieces.flatten) with _ | m <;> simp [Wire.messages, hm]
  have hall : Wire.messages (endedLines pieces.flatten) ++
      Intake.finish ⟨(lastLine pieces.flatten).reverse⟩ =
        Wire.messages (lines pieces.flatten) := by
    rw [hfinish, ← Wire.messages_append, ← Bytes.lines_eq]
  rw [forwardAll, Intake.feedAll_eq]
  cases last with
  | ended =>
    simp only [hall, StreamEnd.messages, StreamEnd.countedLines]
    rcases receiver <;> rcases Wire.messages (lines pieces.flatten) <;> rfl
  | failed reason =>
    simp only [StreamEnd.messages, StreamEnd.countedLines]
    rcases receiver <;> rcases Wire.messages (endedLines pieces.flatten) <;> rfl

/-- The lines that count after a line feed stand behind the lines before it. -/
theorem StreamEnd.countedLines_append_lf (last : StreamEnd) (a b : Bytes) :
    last.countedLines (a ++ lf :: b) = lines a ++ last.countedLines b := by
  cases last with
  | ended => exact Bytes.lines_append_lf a b
  | failed reason => exact Bytes.endedLines_append_lf a b

/-- What comes later takes nothing back of the lines that have ended. -/
theorem StreamEnd.messages_prefix (last : StreamEnd) (a b : Bytes) :
    Wire.messages (endedLines a) <+: last.messages (a ++ b) := by
  have hended : Wire.messages (endedLines a) <+: Wire.messages (endedLines (a ++ b)) := by
    have happend := congrArg Prod.fst (Intake.feed_append {} a b)
    rw [Intake.feed_eq List.not_mem_nil, Intake.feed_eq List.not_mem_nil] at happend
    exact ⟨_, happend.symm⟩
  refine hended.trans ?_
  cases last with
  | ended =>
    rw [messages, countedLines, Bytes.lines_eq (a ++ b), Wire.messages_append]
    exact List.prefix_append _ _
  | failed reason => exact List.prefix_refl _

/-- A line that brings no message, between two lines of a stream or before its first line, leaves
the messages as they are. -/
theorem StreamEnd.messages_insert (last : StreamEnd) {before line after : Bytes}
    (hplace : before = [] ∨ ∃ b, before = b ++ [lf]) (hline : lf ∉ line)
    (hnone : Wire.message? line = none) :
    last.messages (before ++ line ++ lf :: after) = last.messages (before ++ after) := by
  have hskip : Wire.messages (lines line) = [] := by
    simp [Wire.messages, Bytes.lines_of_not_mem hline, hnone]
  rcases hplace with rfl | ⟨b, rfl⟩
  · rw [messages, List.nil_append, countedLines_append_lf, Wire.messages_append, hskip]
    rfl
  · have hsplit : b ++ [lf] ++ line ++ lf :: after = b ++ lf :: (line ++ lf :: after) := by simp
    have hwithout : b ++ [lf] ++ after = b ++ lf :: after := by simp
    rw [hsplit, hwithout, messages, messages, countedLines_append_lf, countedLines_append_lf,
      countedLines_append_lf, Wire.messages_append, Wire.messages_append, Wire.messages_append,
      hskip, List.nil_append]

/-- **Intake is by lines.** With a receiver the messages of all lines are forwarded in their order,
and their number is the result; if reading fails, those of the lines that have ended are, and the
result is the failure. Where the stream was cut into pieces makes no difference, nor does a line
between two others that is blank or cannot be decoded. Without a receiver nothing is forwarded, and
from the first message on nothing that comes makes any difference. -/
theorem forwardAll_forwards_lines (pieces : List Bytes) :
    let stream := pieces.flatten
    let all := (lines stream).filterMap Wire.message?
    let ended := (endedLines stream).filterMap Wire.message?
    (forwardAll .listening pieces .ended = (all, .ok all.length) ∧
      ∀ reason, forwardAll .listening pieces (.failed reason) = (ended, .error reason)) ∧
    (∀ receiver last others, others.flatten = stream →
      forwardAll receiver others last = forwardAll receiver pieces last) ∧
    (∀ before line after, stream = before ++ after → (before = [] ∨ ∃ b, before = b ++ [lf]) →
      lf ∉ line → (line.all Bytes.isBlank = true ∨ Wire.decode? line = none) →
      ∀ receiver last others, others.flatten = before ++ line ++ lf :: after →
        forwardAll receiver others last = forwardAll receiver pieces last) ∧
    forwardAll .gone pieces .ended = ([], .ok 0) ∧
    (∀ reason, forwardAll .gone pieces (.failed reason) =
      ([], if ended = [] then .error reason else .ok 0)) ∧
    (ended ≠ [] → ∀ more last, forwardAll .gone (pieces ++ more) last = ([], .ok 0)) := by
  intro stream all ended
  have hgone {pieces : List Bytes} {last : StreamEnd} (h : last.messages pieces.flatten ≠ []) :
      forwardAll .gone pieces last = ([], .ok 0) := by
    obtain ⟨m, rest, hm⟩ := List.exists_cons_of_ne_nil h
    rw [forwardAll_eq, hm]
  refine ⟨⟨forwardAll_eq .listening pieces .ended,
    fun reason => forwardAll_eq .listening pieces (.failed reason)⟩, ?_, ?_, ?_, ?_, ?_⟩
  · intro receiver last others hsame
    rw [forwardAll_eq, hsame, forwardAll_eq]
  · intro before line after hstream hplace hline hno receiver last others hothers
    rw [forwardAll_eq, hothers,
      last.messages_insert hplace hline (Wire.message?_eq_none_iff.2 hno), ← hstream, forwardAll_eq]
  · rw [forwardAll_eq]
    rcases StreamEnd.messages pieces.flatten .ended <;> rfl
  · intro reason
    by_cases hended : ended = []
    · have hno : StreamEnd.messages pieces.flatten (.failed reason) = [] := hended
      rw [if_pos hended, forwardAll_eq, hno]
    · have hsome : StreamEnd.messages pieces.flatten (.failed reason) ≠ [] := hended
      rw [if_neg hended, hgone hsome]
  · intro hended more last
    apply hgone
    intro hno
    have hpre := last.messages_prefix stream more.flatten
    rw [List.flatten_append] at hno
    rw [hno] at hpre
    exact hended (List.prefix_nil.1 hpre)

/-- A stream of two messages, the last line of which has not ended, and the same stream cut within
its lines and with a line between them that is no text. -/
theorem forwardAll_forwards_lines_cut :
    let first := Bytes.ofString "\x7b\"topic\":\"a\",\"payload\":\"x\"\x7d\n"
    let second := Bytes.ofString "\x7b\"topic\":\"b\",\"payload\":\"y\"\x7d"
    let pieces := [first.take 5, first.drop 5 ++ [255, 10] ++ second.take 9, second.drop 9]
    let a : Message := ⟨"a", [120], "", none⟩
    let b : Message := ⟨"b", [121], "", none⟩
    forwardAll .listening [first ++ second] .ended = ([a, b], .ok 2) ∧
      forwardAll .listening pieces .ended = ([a, b], .ok 2) ∧
      forwardAll .listening pieces (.failed "reset") = ([a], .error "reset") ∧
      forwardAll .gone pieces (.failed "reset") = ([], .ok 0) := by
  intro first second pieces a b
  have hall : (lines [first ++ second].flatten).filterMap Wire.message? = [a, b] := by
    decide +kernel
  have hended : (endedLines pieces.flatten).filterMap Wire.message? = [a] := by decide +kernel
  obtain ⟨⟨hwhole, -⟩, -, hinsert, -⟩ := forwardAll_forwards_lines [first ++ second]
  obtain ⟨⟨-, hfailed⟩, -, -, -, hgone, -⟩ := forwardAll_forwards_lines pieces
  have hcut := hinsert first [255] second (by decide +kernel)
    (Or.inr ⟨first.dropLast, by decide +kernel⟩) (by decide) (Or.inr (by decide +kernel))
    .listening .ended pieces (by decide +kernel)
  rw [hall] at hwhole
  rw [hended] at hfailed
  refine ⟨hwhole, hcut.trans hwhole, hfailed "reset", ?_⟩
  rw [hgone "reset", hended]
  rfl

end TopicRelay
