import TopicRelay.Proofs.Bus.Intake
import TopicRelay.Proofs.Bus.Representation

/-!
# Publications read back as messages

What is written as the line of a publication can be read as a message: the line spells a JSON value
(`spells_members`), and the value expresses the message (`expresses_valueOf`). What is true of the
parts of a line and kept when they are put together is true of the line (`HoldsOfParts`). So a line
never contains a line feed before its end, and the lines of many publications stay apart
(`lines_encode`).
-/

namespace TopicRelay

open Bytes (lf lines)

namespace Wire

open Json

/-! ## Values that are written -/

theorem separated_singleton (v : Bytes) : separated [v] = v := List.append_nil v

theorem separated_cons_cons (v w : Bytes) (vs : List Bytes) :
    separated (v :: w :: vs) = v ++ 44 :: separated (w :: vs) := rfl

/-- A byte as it stands in an array of bytes. -/
def number (x : UInt8) : Bytes := Numeral.write x.toNat

/-- A byte is written in digits, without a zero in front, and they denote it. -/
theorem number_denotes (x : UInt8) :
    IsWhole (number x) ∧ Numeral.Spells 10 (number x) x.toNat := by
  have hall : ∀ x, IsWhole (number x) ∧
      (Numeral.readDigits 10 256 0 (number x)).toOption = some x.toNat :=
    forall_byte (by decide +kernel)
  obtain ⟨hwhole, hread⟩ := hall x
  exact ⟨hwhole, ((Numeral.toOption_readDigits_eq_some_iff hwhole.digits.1).1 hread).1⟩

/-- The value that is written for a text. -/
def textValue (s : String) : Value := .string (unitsOf (Bytes.ofString s))

/-- The value that is written for a byte string. -/
def contentValue (b : Bytes) : Value :=
  if (Bytes.text? b).isSome then .string (unitsOf b)
  else .array (b.map fun x => .number (number x))

theorem isText_textValue (s : String) : IsText (textValue s) s :=
  ⟨_, rfl, textOf?_unitsOf_ofString s⟩

theorem isBytes_contentValue (b : Bytes) : IsBytes (contentValue b) b := by
  rw [contentValue]
  rcases htext : Bytes.text? b with _ | s
  · rw [Option.isSome_none, if_neg Bool.false_ne_true]
    refine .numbers (List.forall₂_map_left_iff.2 (List.forall₂_same.2 fun x _ => ?_))
    exact ⟨_, rfl, (number_denotes x).2⟩
  · rw [Option.isSome_some, if_pos rfl]
    have hbytes : IsBytes (.string (unitsOf b)) (Bytes.ofString s) :=
      .text ((textOf?_unitsOf b).trans htext)
    rwa [Bytes.ofString_of_text? htext] at hbytes

/-! ## Their spellings -/

/-- Items with commas between them spell the elements of an array. -/
theorem spells_separated {vs : List Value} {items : List Bytes}
    (h : List.Forall₂ (fun v b => Spells (.value v) b) vs items) :
    Spells (.elements vs) (separated items) := by
  induction h with
  | nil => exact .noElement nofun
  | cons hv hvs ih =>
    cases hvs with
    | nil =>
      rw [separated_singleton]
      exact .lastElement hv.bare
    | cons _ _ => exact .element hv.bare ih

theorem spells_array {vs : List Value} {items : List Bytes}
    (h : List.Forall₂ (fun v b => Spells (.value v) b) vs items) :
    Spells (.value (.array vs)) (array items) :=
  .array (spells_separated h)

theorem spells_number (x : UInt8) : Spells (.value (.number (number x))) (number x) :=
  .number ⟨[], number x, [], [], Or.inl rfl, (number_denotes x).1, Or.inl rfl, Or.inl rfl,
    by simp⟩

theorem spells_content (b : Bytes) : Spells (.value (contentValue b)) (content b) := by
  rw [contentValue, content]
  split
  · exact spells_quote b
  · refine spells_array (List.forall₂_map_left_iff.2 (List.forall₂_map_right_iff.2 ?_))
    exact List.forall₂_same.2 fun x _ => spells_number x

/-- Named values, written as the members of an object. -/
theorem spells_object {ms : List (String × Value × Bytes)}
    (h : ∀ e ∈ ms, Spells (.value e.2.1) e.2.2) :
    Spells (.value (.object (ms.map fun e => (unitsOf (Bytes.ofString e.1), e.2.1))))
      (object (ms.map fun e => member e.1 e.2.2)) := by
  refine .object ?_
  have hmember (key : String) (value : Bytes) :
      member key value = (quote (Bytes.ofString key) ++ [58]) ++ value := by
    rw [member, List.append_assoc, List.singleton_append]
  induction ms with
  | nil => exact .noMember nofun
  | cons e ms ih =>
    rw [List.forall_mem_cons] at h
    have hmore := ih h.2
    cases ms with
    | nil =>
      simp only [List.map_cons, List.map_nil, separated_singleton, hmember]
      exact .lastMember (spellsKey_quote _) h.1.bare
    | cons d ms =>
      simp only [List.map_cons, separated_cons_cons] at hmore ⊢
      rw [hmember, List.append_assoc]
      exact .member (spellsKey_quote _) h.1.bare hmore

/-! ## Lines -/

/-- The members of the object that is written for a publication. -/
def members (p : Publication) : List Bytes :=
  [member "topic" (text p.topic), member "payload" (content p.payload),
    member "user_properties" (array (p.properties.map fun e => array [text e.1, text e.2]))] ++
    (p.correlation.map fun c => member "correlation_data" (content c)).toList

theorem encode_eq (p : Publication) : encode p = object (members p) ++ [lf] := rfl

/-- The value that is written for the properties of a publication. -/
def propertiesValue (properties : List (String × String)) : Value :=
  .array (properties.map fun e => .array [textValue e.1, textValue e.2])

theorem spells_properties (properties : List (String × String)) :
    Spells (.value (propertiesValue properties))
      (array (properties.map fun e => array [text e.1, text e.2])) := by
  refine spells_array (List.forall₂_map_left_iff.2 (List.forall₂_map_right_iff.2 ?_))
  exact List.forall₂_same.2 fun e _ =>
    spells_array (.cons (spells_quote _) (.cons (spells_quote _) .nil))

/-- The names that are written for a publication, each with its value and how it is written. -/
def namedValues (p : Publication) : List (String × Value × Bytes) :=
  [("topic", textValue p.topic, text p.topic),
    ("payload", contentValue p.payload, content p.payload),
    ("user_properties", propertiesValue p.properties,
      array (p.properties.map fun e => array [text e.1, text e.2]))] ++
    (p.correlation.map fun c => ("correlation_data", contentValue c, content c)).toList

/-- The value that is written for a publication. -/
def valueOf (p : Publication) : Value :=
  .object ((namedValues p).map fun e => (unitsOf (Bytes.ofString e.1), e.2.1))

/-- The line of a publication spells its value. -/
theorem spells_members (p : Publication) :
    Spells (.value (valueOf p)) (object (members p)) := by
  have hmembers : members p = (namedValues p).map fun e => member e.1 e.2.2 := by
    rcases p with ⟨topic, payload, properties, _ | c⟩ <;> rfl
  rw [hmembers]
  refine spells_object ?_
  simp only [namedValues, List.forall_mem_append, List.forall_mem_cons, List.not_mem_nil,
    false_imp_iff, implies_true, and_true, Option.mem_toList, Option.map_eq_some_iff,
    forall_exists_index, and_imp]
  refine ⟨⟨spells_quote _, spells_content _, spells_properties _⟩, ?_⟩
  rintro e c - rfl
  exact spells_content c

/-- The value of a publication is a message, whose reply is not awaited. -/
theorem expresses_valueOf (p : Publication) :
    Expresses (valueOf p)
      { topic := p.topic, payload := p.payload, replyTopic := "",
        correlation := p.correlation } := by
  have hentries : entries (valueOf p) =
      (.topic, textValue p.topic) :: (.payload, contentValue p.payload) ::
        (p.correlation.map fun c => (Key.correlation, contentValue c)).toList := by
    rcases p with ⟨topic, payload, properties, _ | c⟩ <;>
      simp [entries, valueOf, namedValues, textOf?_unitsOf_ofString, Key.ofName?]
  constructor
  · intro e he
    obtain ⟨d, -, rfl⟩ := List.mem_map.1 he
    rw [textOf?_unitsOf_ofString]
    rfl
  all_goals rw [hentries]
  · refine ⟨_, ?_, isText_textValue p.topic⟩
    rcases p.correlation with _ | c <;> rfl
  · refine ⟨_, ?_, isBytes_contentValue p.payload⟩
    rcases p.correlation with _ | c <;> rfl
  · refine Or.inl ⟨?_, rfl⟩
    rcases p.correlation with _ | c <;> rfl
  · rcases p.correlation with _ | c
    · exact Or.inl ⟨rfl, rfl⟩
    · exact Or.inr ⟨_, rfl, .some (isBytes_contentValue c)⟩

/-- The line of a publication is read as a message, whose reply is not awaited. -/
theorem decode?_object (p : Publication) :
    decode? (object (members p)) =
      some { topic := p.topic, payload := p.payload, replyTopic := "",
             correlation := p.correlation } := by
  have hdecode := decode?_of_spells (w := []) nofun (spells_members p) []
  rw [if_pos nofun, message_eq_some_iff.2 (expresses_valueOf p), List.nil_append,
    List.append_nil] at hdecode
  exact hdecode

/-! ## What is put together -/

/-- The signs that stand between values and around them. -/
def signs : List UInt8 := [44, 58, 91, 93, 123, 125]

/-- A property of quoted texts, of numbers and of signs that is kept when byte strings are put
together. Whatever is written has it. -/
structure HoldsOfParts (P : Bytes → Prop) : Prop where
  nil : P []
  append {a b : Bytes} : P a → P b → P (a ++ b)
  sign {c : UInt8} : c ∈ signs → P [c]
  quote (s : String) : P (quote (Bytes.ofString s))
  number (x : UInt8) : P (number x)

namespace HoldsOfParts

variable {P : Bytes → Prop}

theorem cons (h : HoldsOfParts P) {c : UInt8} {b : Bytes} (hc : c ∈ signs) (hb : P b) :
    P (c :: b) :=
  h.append (h.sign hc) hb

theorem separated (h : HoldsOfParts P) {items : List Bytes} (hitems : ∀ v ∈ items, P v) :
    P (separated items) := by
  rcases items with _ | ⟨v, vs⟩
  · exact h.nil
  · induction vs generalizing v with
    | nil =>
      rw [separated_singleton]
      exact hitems v List.mem_cons_self
    | cons w vs ih =>
      rw [separated_cons_cons]
      exact h.append (hitems v List.mem_cons_self)
        (h.cons (by decide) (ih w fun x hx => hitems x (List.mem_cons_of_mem v hx)))

/-- Items between brackets or braces. -/
theorem enclosed (h : HoldsOfParts P) {first last : UInt8} {items : List Bytes}
    (hfirst : first ∈ signs) (hlast : last ∈ signs) (hitems : ∀ v ∈ items, P v) :
    P (first :: Wire.separated items ++ [last]) :=
  h.append (h.cons hfirst (h.separated hitems)) (h.sign hlast)

theorem member (h : HoldsOfParts P) {key : String} {value : Bytes} (hvalue : P value) :
    P (member key value) :=
  h.append (h.quote key) (h.cons (by decide) hvalue)

theorem content (h : HoldsOfParts P) (b : Bytes) : P (content b) := by
  rw [Wire.content]
  rcases htext : Bytes.text? b with _ | s
  · rw [Option.isSome_none, if_neg Bool.false_ne_true]
    exact h.enclosed (by decide) (by decide) (List.forall_mem_map.2 fun x _ => h.number x)
  · rw [Option.isSome_some, if_pos rfl, ← Bytes.ofString_of_text? htext]
    exact h.quote s

/-- What is written for a publication. -/
theorem object_members (h : HoldsOfParts P) (p : Publication) : P (object (members p)) := by
  have hpair (e : String × String) : P (array [text e.1, text e.2]) := by
    refine h.enclosed (by decide) (by decide) ?_
    simp only [List.forall_mem_cons, List.not_mem_nil, false_imp_iff, implies_true, and_true]
    exact ⟨h.quote _, h.quote _⟩
  have hproperties : P (array (p.properties.map fun e => array [text e.1, text e.2])) :=
    h.enclosed (by decide) (by decide) (List.forall_mem_map.2 fun e _ => hpair e)
  apply h.enclosed (by decide) (by decide)
  simp only [members, List.forall_mem_append, List.forall_mem_cons, List.not_mem_nil,
    false_imp_iff, implies_true, and_true, Option.mem_toList, Option.map_eq_some_iff,
    forall_exists_index, and_imp]
  refine ⟨⟨h.member (h.quote _), h.member (h.content _), h.member hproperties⟩, ?_⟩
  rintro v c - rfl
  exact h.member (h.content c)

end HoldsOfParts

theorem holdsOfParts_lf_not_mem : HoldsOfParts (lf ∉ ·) where
  nil := List.not_mem_nil
  append ha hb := fun h => (List.mem_append.1 h).elim ha hb
  sign hc := by
    rw [List.mem_singleton]
    rintro rfl
    exact absurd hc (by decide)
  quote s := lf_not_mem_quote _
  number x := fun h =>
    absurd (sign_of_isDigit ((number_denotes x).1.digits.2 lf h)).1 (by decide)

/-- The only line feed in the line of a publication is the one that ends it. -/
theorem lf_not_mem_object_members (p : Publication) : lf ∉ object (members p) :=
  holdsOfParts_lf_not_mem.object_members p

theorem message?_object (p : Publication) :
    message? (object (members p)) =
      some { topic := p.topic, payload := p.payload, replyTopic := "",
             correlation := p.correlation } := by
  rw [message?, decode?_object]
  rfl

/-- The lines of publications stay apart, and nothing stands behind the last of them. -/
theorem lines_encode (ps : List Publication) :
    lines (ps.map encode).flatten = ps.map (fun p => object (members p)) ++ [[]] := by
  induction ps with
  | nil => rfl
  | cons p ps ih =>
    rw [List.map_cons, List.flatten_cons, encode_eq, List.append_assoc, List.singleton_append,
      Bytes.lines_append_lf, Bytes.lines_of_not_mem (lf_not_mem_object_members p), ih]
    rfl

end Wire

/-- **Publications are read back.** Whatever publications are written, and wherever their lines are
cut into pieces, one message is forwarded for each of them, in their order. It has the topic, the
payload and the correlation data of the publication, and no reply is awaited. -/
theorem publications_read_back {ps : List Publication} {pieces : List Bytes}
    (h : pieces.flatten = (ps.map Wire.encode).flatten) :
    forwardAll .listening pieces .ended =
      (ps.map fun p => { topic := p.topic, payload := p.payload, replyTopic := "",
                         correlation := p.correlation },
        .ok ps.length) := by
  have hempty : Wire.messages [[]] = [] := rfl
  have hmessages : StreamEnd.messages pieces.flatten .ended =
      ps.map fun p => { topic := p.topic, payload := p.payload, replyTopic := "",
                        correlation := p.correlation } := by
    rw [StreamEnd.messages, StreamEnd.countedLines, h, Wire.lines_encode, Wire.messages_append,
      hempty, List.append_nil, Wire.messages, List.filterMap_map,
      show Wire.message? ∘ _ = some ∘ _ from funext Wire.message?_object, List.filterMap_eq_map]
  rw [forwardAll_eq, hmessages]
  simp only [List.length_map]

/-- A text and bytes that are none, with a line feed and a quote among them. The stream is cut
between the two bytes of a character. -/
theorem publications_read_back_cut :
    let ps : List Publication :=
      [{ topic := "a\"b", payload := [195, 169, 10], properties := [("indx", "0")],
         correlation := some [] },
       { topic := "", payload := [255, 10] }]
    let stream := (ps.map Wire.encode).flatten
    stream[27]? = some 195 ∧
      forwardAll .listening [stream.take 28, stream.drop 28] .ended =
        ([⟨"a\"b", [195, 169, 10], "", some []⟩, ⟨"", [255, 10], "", none⟩], .ok 2) := by
  intro ps stream
  have hcut : [stream.take 28, stream.drop 28].flatten = (ps.map Wire.encode).flatten := by
    rw [List.flatten_cons, List.flatten_singleton, List.take_append_drop]
  exact ⟨by decide +kernel, publications_read_back hcut⟩

end TopicRelay
