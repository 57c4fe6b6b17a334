import TopicRelay.Proofs.Bus.Stream
import TopicRelay.Proofs.Bus.Wire

/-!
# Lines determine publications

The line of a publication is a text with one line feed, at its end, and it says all that there is to
say about the publication: two publications with the same line are the same
(`lines_determine_publications`).

A way of writing is `SelfDelimiting` if what is written can be told from whatever follows it. The
parts of a line are so because they can be read back, or because brackets enclose them; a line is so
because its parts are. The texts of many publications then determine the publications, too.
-/

namespace TopicRelay

open Bytes (lf IsUtf8 IsAscii)
open Json

/-- What is written for a value shows the value and where it ends, whatever follows. -/
def SelfDelimiting {α : Type} (f : α → Bytes) : Prop :=
  ∀ ⦃a b : α⦄ ⦃r s : Bytes⦄, f a ++ r = f b ++ s → a = b ∧ r = s

namespace SelfDelimiting

variable {α β : Type} {f : α → Bytes}

/-- What can be read back is self-delimiting. -/
theorem of_read (read : Bytes → Option (α × Bytes))
    (h : ∀ a r, read (f a ++ r) = some (a, r)) : SelfDelimiting f := by
  intro a b r s heq
  have hread := (h a r).symm.trans ((congrArg read heq).trans (h b s))
  exact Prod.mk.inj (Option.some.inj hread)

theorem injective (h : SelfDelimiting f) : Function.Injective f :=
  fun _ _ heq => (h (congrArg (· ++ []) heq)).1

theorem comp (h : SelfDelimiting f) {g : β → α} (hg : Function.Injective g) :
    SelfDelimiting fun b => f (g b) :=
  fun _ _ _ _ heq => (h heq).imp_left fun hab => hg hab

/-- The texts of many values, one after the other, determine the values. -/
theorem injective_flatten (h : SelfDelimiting f) (hne : ∀ a, f a ≠ []) :
    Function.Injective fun as : List α => (as.map f).flatten := by
  intro as bs heq
  induction as generalizing bs with
  | nil =>
    cases bs with
    | nil => rfl
    | cons b bs => exact absurd (List.append_eq_nil_iff.1 heq.symm).1 (hne b)
  | cons a as ih =>
    cases bs with
    | nil => exact absurd (List.append_eq_nil_iff.1 heq).1 (hne a)
    | cons b bs =>
      obtain ⟨rfl, hrest⟩ := h heq
      rw [ih hrest]

end SelfDelimiting

namespace Wire

/-! ## The parts of a line -/

theorem selfDelimiting_text : SelfDelimiting text :=
  .of_read readString fun s r => by
    rw [text, readString_of_value (spells_quote _), Value.text?, textOf?_unitsOf_ofString,
      Option.map_some]

theorem selfDelimiting_content : SelfDelimiting content :=
  .of_read readBytes fun b r => by
    rw [readBytes_of_spells (spells_content b), bytes?_eq_some_iff.2 (isBytes_contentValue b),
      Option.map_some]

/-- What follows an element of an array: the elements behind it, or the bracket. -/
def behind : List Bytes → Bytes → Bytes
  | [], rest => 93 :: rest
  | v :: vs, rest => 44 :: (separated (v :: vs) ++ 93 :: rest)

theorem separated_append (v : Bytes) (vs : List Bytes) (rest : Bytes) :
    separated (v :: vs) ++ 93 :: rest = v ++ behind vs rest := by
  cases vs with
  | nil => rw [separated_singleton, behind]
  | cons w vs => rw [separated_cons_cons, List.append_assoc, List.cons_append, behind]

/-- Elements with something behind them are told apart one by one. -/
theorem elements_inj {α : Type} {f : α → Bytes} (h : SelfDelimiting f) {a b : α} {as bs : List α}
    {r s : Bytes} (heq : separated (f a :: as.map f) ++ 93 :: r =
      separated (f b :: bs.map f) ++ 93 :: s) : a :: as = b :: bs ∧ r = s := by
  induction as generalizing a b bs with
  | nil =>
    rw [separated_append, separated_append] at heq
    obtain ⟨rfl, hbehind⟩ := h heq
    cases bs with
    | nil => exact ⟨rfl, (List.cons.inj hbehind).2⟩
    | cons b bs => exact absurd (List.cons.inj hbehind).1 (by decide)
  | cons a' as ih =>
    rw [separated_append, separated_append] at heq
    obtain ⟨rfl, hbehind⟩ := h heq
    cases bs with
    | nil => exact absurd (List.cons.inj hbehind).1 (by decide)
    | cons b' bs =>
      obtain ⟨hmore, hrest⟩ := ih (List.cons.inj hbehind).2
      exact ⟨congrArg (a :: ·) hmore, hrest⟩

/-- Arrays are self-delimiting if their elements are and none of them starts like the end. -/
theorem selfDelimiting_array {α : Type} {f : α → Bytes} (h : SelfDelimiting f)
    (hstart : ∀ a, ∃ c tail, f a = c :: tail ∧ c ≠ 93) :
    SelfDelimiting fun as : List α => array (as.map f) := by
  have hopens (a : α) (as : List α) (r s : Bytes) :
      93 :: r ≠ separated ((a :: as).map f) ++ 93 :: s := by
    obtain ⟨c, tail, hf, hc⟩ := hstart a
    rw [List.map_cons, separated_append, hf]
    exact fun heq => hc (List.cons.inj heq).1.symm
  intro as bs r s heq
  simp only [array, List.cons_append, List.append_assoc, List.nil_append, List.cons.injEq,
    true_and] at heq
  cases as with
  | nil =>
    cases bs with
    | nil => exact ⟨rfl, (List.cons.inj heq).2⟩
    | cons b bs => exact absurd heq (hopens b bs r s)
  | cons a as =>
    cases bs with
    | nil => exact absurd heq.symm (hopens a as s r)
    | cons b bs => exact elements_inj h heq

theorem selfDelimiting_properties :
    SelfDelimiting fun properties : List (String × String) =>
      array (properties.map fun e => array [text e.1, text e.2]) := by
  have htext : SelfDelimiting fun ss : List String => array (ss.map text) :=
    selfDelimiting_array selfDelimiting_text fun _ => ⟨34, _, rfl, by decide⟩
  have hpair : Function.Injective fun e : String × String => [e.1, e.2] := by
    rintro ⟨k, v⟩ ⟨k', v'⟩ heq
    cases heq
    rfl
  exact selfDelimiting_array (htext.comp hpair) fun _ => ⟨91, _, rfl, by decide⟩

/-! ## The line -/

/-- A sign and a key, in front of the value of the key. -/
def opening (sign : UInt8) (key : String) : Bytes := sign :: quote (Bytes.ofString key) ++ [58]

/-- What follows the properties of a publication. -/
def ending : Option Bytes → Bytes
  | none => [125, lf]
  | some c => opening 44 "correlation_data" ++ (content c ++ [125, lf])

theorem selfDelimiting_ending : SelfDelimiting ending := by
  rintro (_ | c) (_ | d) r s heq
  · exact ⟨rfl, List.append_cancel_left heq⟩
  · exact absurd (List.cons.inj heq).1 (by decide)
  · exact absurd (List.cons.inj heq).1 (by decide)
  · simp only [ending, List.append_assoc] at heq
    obtain ⟨rfl, hrest⟩ := selfDelimiting_content (List.append_cancel_left heq)
    exact ⟨rfl, List.append_cancel_left hrest⟩

/-- The parts of a line in their order. -/
theorem encode_append (p : Publication) (rest : Bytes) :
    encode p ++ rest =
      opening 123 "topic" ++ (text p.topic ++ (opening 44 "payload" ++ (content p.payload ++
        (opening 44 "user_properties" ++
          (array (p.properties.map fun e => array [text e.1, text e.2]) ++
            (ending p.correlation ++ rest)))))) := by
  rcases p with ⟨topic, payload, properties, _ | c⟩ <;>
    simp [encode, object, separated, member, opening, ending]

/-- A line shows its publication, whatever follows. -/
theorem selfDelimiting_encode : SelfDelimiting encode := by
  rintro ⟨topic, payload, properties, correlation⟩ ⟨topic', payload', properties', correlation'⟩ r s
    heq
  rw [encode_append, encode_append] at heq
  obtain ⟨rfl, heq⟩ := selfDelimiting_text (List.append_cancel_left heq)
  obtain ⟨rfl, heq⟩ := selfDelimiting_content (List.append_cancel_left heq)
  obtain ⟨rfl, heq⟩ := selfDelimiting_properties (List.append_cancel_left heq)
  obtain ⟨rfl, hrest⟩ := selfDelimiting_ending heq
  exact ⟨rfl, hrest⟩

theorem holdsOfParts_isUtf8 : HoldsOfParts IsUtf8 where
  nil := Bytes.isUtf8_nil
  append := .append
  sign hc := by
    have hsigns : ∀ c ∈ signs, IsAscii c := by simp [signs, IsAscii]
    exact Bytes.isUtf8_singleton (hsigns _ hc)
  quote s := isUtf8_quote (Bytes.isUtf8_ofString s)
  number _ := Bytes.isUtf8_ofString _

end Wire

open Wire
open MessageBus (publishAll)

/-- **Lines determine publications.** The line of a publication is a text that holds one line feed,
as its last byte, and no other publication has the same line. What is written for publications, one
after the other, is divided by its line feeds into their lines, and no other publications are
written in the same way. -/
theorem lines_determine_publications :
    (∀ p, (Bytes.text? (encode p)).isSome = true ∧ (encode p).count lf = 1 ∧
      (encode p).getLast? = some lf) ∧
    (∀ p q, encode p = encode q → p = q) ∧
    (∀ ps, Bytes.lines (publishAll ({} : StreamBus) ps).2.writer.written =
      ps.map (fun p => (encode p).dropLast) ++ [[]]) ∧
    ∀ ps qs, (publishAll ({} : StreamBus) ps).2.writer.written =
      (publishAll ({} : StreamBus) qs).2.writer.written → ps = qs := by
  have hwritten (ps : List Publication) :
      (publishAll ({} : StreamBus) ps).2.writer.written = encodeAll ps := by
    rw [StreamBus.publishAll_of_unbounded rfl, Writer.written_append]
    rfl
  refine ⟨fun p => ⟨?_, ?_, ?_⟩, fun p q heq => selfDelimiting_encode.injective heq,
    fun ps => ?_, fun ps qs heq => ?_⟩
  · exact (holdsOfParts_isUtf8.object_members p).append (Bytes.isUtf8_singleton (by decide))
  · rw [encode_eq, List.count_append, List.count_eq_zero_of_not_mem (lf_not_mem_object_members p)]
    rfl
  · rw [encode_eq, List.getLast?_concat]
  · rw [hwritten, encodeAll, lines_encode]
    simp only [encode_eq, List.dropLast_concat]
  · rw [hwritten, hwritten] at heq
    exact selfDelimiting_encode.injective_flatten
      (fun p => List.ne_nil_of_length_pos (length_encode_pos p)) heq

end TopicRelay
