import TopicRelay.Proofs.Bus.Spelled
import Mathlib.Data.List.Forall2

/-!
# Messages do not depend on how they are written

`Expresses` says when a JSON value is a message. It names no order of the keys, no white space and
no escapes, and it does not look at the values of other keys. The readers go through a line member
by member; `Fields.Filled` says what has become of each key when they are through, so that the order
of the members is gone. A line is then decoded to the message that its value expresses, and to none
if it expresses none (`decoding_independent_of_spelling`).
-/

namespace TopicRelay

open Json

namespace Wire

/-! ## What a value expresses -/

/-- The value is a string of this text. -/
def IsText (v : Value) (s : String) : Prop := ∃ us, v = .string us ∧ textOf? us = some s

/-- The value is a number below 256, in decimal digits alone. -/
def IsByte (v : Value) (x : UInt8) : Prop :=
  ∃ digits, v = .number digits ∧ Numeral.Spells 10 digits x.toNat

/-- The value is this byte string, as a text or as an array of bytes. -/
inductive IsBytes : Value → Bytes → Prop
  | text {us : List StringUnit} {s : String} :
    textOf? us = some s → IsBytes (.string us) (Bytes.ofString s)
  | numbers {vs : List Value} {content : Bytes} :
    List.Forall₂ IsByte vs content → IsBytes (.array vs) content

/-- The value is this byte string, or the word for none. -/
inductive IsOptionalBytes : Value → Option Bytes → Prop
  | none : IsOptionalBytes .null none
  | some {v : Value} {content : Bytes} : IsBytes v content → IsOptionalBytes v (some content)

/-- The values that a line gives to keys. An object names the keys and may hold other members, an
array gives the values in the order of the keys. -/
def entries : Value → List (Key × Value)
  | .object ms => ms.filterMap fun e => ((textOf? e.1).bind Key.ofName?).map fun key => (key, e.2)
  | .array vs => keys.zip vs
  | _ => []

/-- The values among entries that belong to a key. -/
def valuesOf (es : List (Key × Value)) (key : Key) : List Value :=
  (es.filter fun e => e.1 = key).map (·.2)

/-- The value has the form of a line: an object whose keys are texts, or an array that is no longer
than there are keys. -/
def IsLine : Value → Prop
  | .object ms => ∀ e ∈ ms, (textOf? e.1).isSome = true
  | .array vs => vs.length ≤ keys.length
  | _ => False

/-- There is exactly one value, and it is `a`. -/
def Once {α : Type} (P : Value → α → Prop) (vs : List Value) (a : α) : Prop :=
  ∃ v, vs = [v] ∧ P v a

/-- There is one value that is `a`, or there is none and `a` is the default. -/
def AtMostOnce {α : Type} (P : Value → α → Prop) (default : α) (vs : List Value) (a : α) : Prop :=
  vs = [] ∧ a = default ∨ Once P vs a

/-- The value expresses the message. -/
structure Expresses (v : Value) (m : Message) : Prop where
  line : IsLine v
  topic : Once IsText (valuesOf (entries v) .topic) m.topic
  payload : Once IsBytes (valuesOf (entries v) .payload) m.payload
  replyTopic : AtMostOnce IsText "" (valuesOf (entries v) .replyTopic) m.replyTopic
  correlation : AtMostOnce IsOptionalBytes none (valuesOf (entries v) .correlation) m.correlation

/-- What is wrong with a line that says too much, too little or no bytes. -/
inductive Faulty (v : Value) : Prop
  /-- A key is given twice. -/
  | repeated (key : Key) : 2 ≤ (valuesOf (entries v) key).length → Faulty v
  | noTopic : valuesOf (entries v) .topic = [] → Faulty v
  | noPayload : valuesOf (entries v) .payload = [] → Faulty v
  /-- A byte of the payload or of the correlation data is above 255. -/
  | largeByte {key : Key} {vs : List Value} {digits : Bytes} {n : Nat} :
    key = .payload ∨ key = .correlation → .array vs ∈ valuesOf (entries v) key →
    .number digits ∈ vs → Numeral.Spells 10 digits n → 255 < n → Faulty v

/-! ## What readers accept -/

theorem text?_eq_some_iff {v : Value} {s : String} : v.text? = some s ↔ IsText v s := by
  cases v with
  | string us =>
    refine ⟨fun h => ⟨us, rfl, h⟩, ?_⟩
    rintro ⟨_, ⟨⟩, h⟩
    exact h
  | null | bool | number | array | object =>
    refine ⟨fun h => (nomatch h), ?_⟩
    rintro ⟨_, ⟨⟩, -⟩

theorem byte?_eq_some_iff {v : Value} {x : UInt8} : v.byte? = some x ↔ IsByte v x :=
  Value.byte?_eq_some_iff

theorem mapM_byte?_eq_some_iff {vs : List Value} {content : Bytes} :
    vs.mapM Value.byte? = some content ↔ List.Forall₂ IsByte vs content := by
  induction vs generalizing content with
  | nil => rw [List.mapM_nil, List.forall₂_nil_left_iff, Option.pure_def, Option.some_inj, eq_comm]
  | cons v vs ih =>
    simp only [List.mapM_cons, List.forall₂_cons_left_iff, Option.bind_eq_bind,
      Option.bind_eq_some_iff, Option.pure_def, Option.some_inj, byte?_eq_some_iff, ih]
    constructor
    · rintro ⟨x, hx, xs, hxs, rfl⟩
      exact ⟨x, xs, hx, hxs, rfl⟩
    · rintro ⟨x, xs, hx, hxs, rfl⟩
      exact ⟨x, hx, xs, hxs, rfl⟩

theorem bytes?_eq_some_iff {v : Value} {content : Bytes} :
    v.bytes? = some content ↔ IsBytes v content := by
  constructor
  · intro h
    cases v with
    | string us =>
      obtain ⟨s, hs, rfl⟩ := Option.map_eq_some_iff.1 h
      exact .text hs
    | array vs => exact .numbers (mapM_byte?_eq_some_iff.1 h)
    | null | bool | number | object => cases h
  · rintro (h | h)
    · exact Option.map_eq_some_iff.2 ⟨_, h, rfl⟩
    · exact mapM_byte?_eq_some_iff.2 h

theorem optionalBytes?_eq_some_iff {v : Value} {content : Option Bytes} :
    v.optionalBytes? = some content ↔ IsOptionalBytes v content := by
  by_cases hnull : v = .null
  · subst hnull
    constructor
    · rintro ⟨⟩
      exact .none
    · rintro (_ | ⟨⟨⟩⟩)
      rfl
  · rw [Value.optionalBytes?]
    · constructor
      · intro h
        obtain ⟨b, hb, rfl⟩ := Option.map_eq_some_iff.1 h
        exact .some (bytes?_eq_some_iff.1 hb)
      · rintro (_ | h)
        · exact absurd rfl hnull
        · exact Option.map_eq_some_iff.2 ⟨_, bytes?_eq_some_iff.2 h, rfl⟩
    · exact hnull

/-! ## What becomes of each key -/

/-- What was known of a key before its values are read, and after that. -/
def Fills {α : Type} (read : Value → Option α) (old : Option α) (vs : List Value)
    (new : Option α) : Prop :=
  vs = [] ∧ new = old ∨ ∃ v, vs = [v] ∧ old = none ∧ (read v).isSome = true ∧ new = read v

theorem fills_nil_iff {α : Type} {read : Value → Option α} {old new : Option α} :
    Fills read old [] new ↔ new = old := by
  simp [Fills]

/-- The first value of a key finds nothing, and leaves no room for another. -/
theorem fills_cons_iff {α : Type} {read : Value → Option α} {old new : Option α} {v : Value}
    {vs : List Value} :
    Fills read old (v :: vs) new ↔
      old = none ∧ (read v).isSome = true ∧ Fills read (read v) vs new := by
  constructor
  · rintro (⟨h, -⟩ | ⟨u, h, hold, hsome, hnew⟩)
    · cases h
    · cases h
      exact ⟨hold, hsome, Or.inl ⟨rfl, hnew⟩⟩
  · rintro ⟨hold, hsome, ⟨rfl, hnew⟩ | ⟨u, -, hnone, -⟩⟩
    · exact Or.inr ⟨v, rfl, hold, hsome, hnew⟩
    · rw [hnone] at hsome
      cases hsome

theorem fills_none_some_iff {α : Type} {read : Value → Option α} {vs : List Value} {a : α} :
    Fills read none vs (some a) ↔ ∃ v, vs = [v] ∧ read v = some a := by
  constructor
  · rintro (⟨-, h⟩ | ⟨v, hv, -, -, h⟩)
    · cases h
    · exact ⟨v, hv, h.symm⟩
  · rintro ⟨v, hv, h⟩
    exact Or.inr ⟨v, hv, rfl, by rw [h]; rfl, h.symm⟩

/-- What was not given is the default. -/
theorem fills_none_getD_iff {α : Type} {read : Value → Option α} {vs : List Value} {a d : α} :
    (∃ new, Fills read none vs new ∧ new.getD d = a) ↔
      vs = [] ∧ a = d ∨ ∃ v, vs = [v] ∧ read v = some a := by
  constructor
  · rintro ⟨new, ⟨rfl, rfl⟩ | ⟨v, hv, -, hsome, rfl⟩, h⟩
    · exact Or.inl ⟨rfl, h.symm⟩
    · obtain ⟨x, hx⟩ := Option.isSome_iff_exists.1 hsome
      rw [hx, Option.getD_some] at h
      exact Or.inr ⟨v, hv, by rw [hx, h]⟩
  · rintro (⟨rfl, rfl⟩ | h)
    · exact ⟨none, Or.inl ⟨rfl, rfl⟩, rfl⟩
    · exact ⟨some a, fills_none_some_iff.2 h, rfl⟩

theorem valuesOf_cons (key k : Key) (v : Value) (es : List (Key × Value)) :
    valuesOf ((key, v) :: es) k = if key = k then v :: valuesOf es k else valuesOf es k := by
  rw [valuesOf, List.filter_cons]
  by_cases h : key = k <;> simp [h, valuesOf]

namespace Fields

/-- The values given to each key are read, and nothing else. -/
structure Filled (f : Fields) (values : Key → List Value) (g : Fields) : Prop where
  topic : Fills Value.text? f.topic (values .topic) g.topic
  payload : Fills Value.bytes? f.payload (values .payload) g.payload
  replyTopic : Fills Value.text? f.replyTopic (values .replyTopic) g.replyTopic
  correlation : Fills Value.optionalBytes? f.correlation (values .correlation) g.correlation

theorem filled_iff {f g : Fields} {values : Key → List Value} :
    Filled f values g ↔
      Fills Value.text? f.topic (values .topic) g.topic ∧
      Fills Value.bytes? f.payload (values .payload) g.payload ∧
      Fills Value.text? f.replyTopic (values .replyTopic) g.replyTopic ∧
      Fills Value.optionalBytes? f.correlation (values .correlation) g.correlation :=
  ⟨fun ⟨ht, hp, hr, hc⟩ => ⟨ht, hp, hr, hc⟩, fun ⟨ht, hp, hr, hc⟩ => ⟨ht, hp, hr, hc⟩⟩

/-- One entry is taken in front of the others. -/
theorem filled_cons_iff {f g : Fields} {key : Key} {v : Value} {es : List (Key × Value)} :
    Filled f (valuesOf ((key, v) :: es)) g ↔
      ∃ h, f.put key v = some h ∧ Filled h (valuesOf es) g := by
  simp only [filled_iff, valuesOf_cons]
  -- Each key has its own part of the fields, and the other parts see no difference.
  cases key
  case topic =>
    rcases ht : f.topic with _ | t <;> rcases hv : v.text? with _ | s <;>
      simp [put, ht, hv, fills_cons_iff]
  case payload =>
    rcases hp : f.payload with _ | p <;> rcases hv : v.bytes? with _ | b <;>
      simp [put, hp, hv, fills_cons_iff]
  case replyTopic =>
    rcases ht : f.replyTopic with _ | t <;> rcases hv : v.text? with _ | s <;>
      simp [put, ht, hv, fills_cons_iff]
  case correlation =>
    rcases hc : f.correlation with _ | c <;> rcases hv : v.optionalBytes? with _ | b <;>
      simp [put, hc, hv, fills_cons_iff]

/-- Entries are taken in any order, each key once. -/
theorem foldlM_put_eq_some_iff {f g : Fields} {es : List (Key × Value)} :
    es.foldlM (fun f e => f.put e.1 e.2) f = some g ↔ Filled f (valuesOf es) g := by
  induction es generalizing f with
  | nil =>
    have hnil (key : Key) : valuesOf [] key = [] := rfl
    rw [List.foldlM_nil, Option.pure_def, Option.some_inj, filled_iff]
    simp only [hnil, fills_nil_iff]
    constructor
    · rintro rfl
      exact ⟨rfl, rfl, rfl, rfl⟩
    · rintro ⟨ht, hp, hr, hc⟩
      cases f
      cases g
      simp_all
  | cons e es ih =>
    rw [List.foldlM_cons, Option.bind_eq_bind, Option.bind_eq_some_iff, filled_cons_iff]
    simp only [ih]

/-- The members of an object are taken as the entries that they are, if every key is a text. -/
theorem takeAll_eq_some_iff {f g : Fields} {ms : List (List StringUnit × Value)} :
    f.takeAll ms = some g ↔ IsLine (.object ms) ∧
      (entries (.object ms)).foldlM (fun f e => f.put e.1 e.2) f = some g := by
  induction ms generalizing f with
  | nil => simp [takeAll, IsLine, entries]
  | cons e ms ih =>
    obtain ⟨k, v⟩ := e
    have hmore (h : Fields) : ms.foldlM (fun f e => (textOf? e.1).bind fun name =>
        f.take (name, e.2)) h = some g ↔ _ := ih
    rw [takeAll, List.foldlM_cons, Option.bind_eq_bind, Option.bind_eq_some_iff]
    simp only [hmore, IsLine, entries, List.forall_mem_cons, List.filterMap_cons]
    rcases hk : textOf? k with _ | name
    · simp
    · rcases hkey : Key.ofName? name with _ | key
      · simp [take, hkey]
      · simp only [take, hkey, Option.bind_some, Option.map_some, Option.isSome_some, true_and,
          List.foldlM_cons, Option.bind_eq_bind, Option.bind_eq_some_iff]
        constructor
        · rintro ⟨h, hput, hkeys, hrest⟩
          exact ⟨hkeys, h, hput, hrest⟩
        · rintro ⟨hkeys, h, hput, hrest⟩
          exact ⟨h, hput, hkeys, hrest⟩

end Fields

theorem fieldsOf?_eq_some_iff {v : Value} {f : Fields} :
    fieldsOf? v = some f ↔ IsLine v ∧ Fields.Filled {} (valuesOf (entries v)) f := by
  rw [← Fields.foldlM_put_eq_some_iff]
  cases v with
  | object ms => exact Fields.takeAll_eq_some_iff
  | array vs =>
    rw [fieldsOf?, Fields.putAll]
    by_cases h : vs.length ≤ keys.length <;> simp [IsLine, h, entries]
  | null | bool | number | string => simp [fieldsOf?, IsLine]

/-- The parts of a message make up the one that they hold. -/
theorem toMessage?_eq_some_iff {f : Fields} {m : Message} :
    f.toMessage? = some m ↔ f.topic = some m.topic ∧ f.payload = some m.payload ∧
      f.replyTopic.getD "" = m.replyTopic ∧ f.correlation.getD none = m.correlation := by
  obtain ⟨topic, payload, replyTopic, correlation⟩ := f
  obtain ⟨t, p, r, c⟩ := m
  rcases topic with _ | topic <;> rcases payload with _ | payload <;> simp [Fields.toMessage?]

/-- The message that the parts of a value make up is the one that the value expresses. -/
theorem message_eq_some_iff {v : Value} {m : Message} :
    (fieldsOf? v).bind Fields.toMessage? = some m ↔ Expresses v m := by
  rw [Option.bind_eq_some_iff]
  constructor
  · rintro ⟨f, hf, hm⟩
    obtain ⟨hline, ht, hp, hr, hc⟩ := fieldsOf?_eq_some_iff.1 hf
    obtain ⟨htopic, hpayload, hreply, hcorrelation⟩ := toMessage?_eq_some_iff.1 hm
    rw [htopic, fills_none_some_iff] at ht
    rw [hpayload, fills_none_some_iff] at hp
    have hr' := fills_none_getD_iff.1 ⟨_, hr, hreply⟩
    have hc' := fills_none_getD_iff.1 ⟨_, hc, hcorrelation⟩
    simp only [text?_eq_some_iff, bytes?_eq_some_iff, optionalBytes?_eq_some_iff] at ht hp hr' hc'
    exact ⟨hline, ht, hp, hr', hc'⟩
  · rintro ⟨hline, ht, hp, hr, hc⟩
    simp only [Once, AtMostOnce, ← text?_eq_some_iff, ← bytes?_eq_some_iff,
      ← optionalBytes?_eq_some_iff] at ht hp hr hc
    obtain ⟨replyTopic, hr, hreply⟩ := fills_none_getD_iff.2 hr
    obtain ⟨correlation, hc, hcorrelation⟩ := fills_none_getD_iff.2 hc
    refine ⟨⟨some m.topic, some m.payload, replyTopic, correlation⟩, ?_, ?_⟩
    · exact fieldsOf?_eq_some_iff.2
        ⟨hline, fills_none_some_iff.2 ht, fills_none_some_iff.2 hp, hr, hc⟩
    · exact toMessage?_eq_some_iff.2 ⟨rfl, rfl, hreply, hcorrelation⟩

/-! ## Faulty lines -/

/-- Digits denote one number. -/
theorem spells_unique {digits : Bytes} {n k : Nat} (hn : Numeral.Spells 10 digits n)
    (hk : Numeral.Spells 10 digits k) : n = k := by
  obtain ⟨-, ds, hds, rfl⟩ := hn
  obtain ⟨-, ds', hds', rfl⟩ := hk
  rw [List.map_injective_iff.2 (Option.some_injective Nat) (hds.symm.trans hds')]

/-- An array that is a byte string holds no number above 255. -/
theorem IsBytes.le_of_mem {vs : List Value} {content digits : Bytes} {n : Nat}
    (h : IsBytes (.array vs) content) (hmem : .number digits ∈ vs)
    (hn : Numeral.Spells 10 digits n) : n ≤ 255 := by
  obtain _ | h := h
  induction h with
  | nil => cases hmem
  | cons hbyte _ ih =>
    rcases List.mem_cons.1 hmem with rfl | hmem
    · obtain ⟨_, ⟨⟩, hspells⟩ := hbyte
      rw [spells_unique hn hspells]
      exact Nat.le_of_lt_succ (UInt8.toNat_lt _)
    · exact ih hmem

theorem Once.length_eq_one {α : Type} {P : Value → α → Prop} {vs : List Value} {a : α}
    (h : Once P vs a) : vs.length = 1 := by
  obtain ⟨v, rfl, -⟩ := h
  rfl

theorem AtMostOnce.length_le_one {α : Type} {P : Value → α → Prop} {d : α} {vs : List Value}
    {a : α} (h : AtMostOnce P d vs a) : vs.length ≤ 1 := by
  obtain ⟨rfl, -⟩ | h := h
  · exact Nat.zero_le 1
  · exact h.length_eq_one.le

/-- A faulty line expresses no message. -/
theorem Faulty.not_expresses {v : Value} (h : Faulty v) (m : Message) : ¬ Expresses v m := by
  intro hm
  cases h with
  | repeated key h =>
    refine absurd h (Nat.not_le.2 (Nat.lt_succ_of_le ?_))
    cases key with
    | topic => exact hm.topic.length_eq_one.le
    | payload => exact hm.payload.length_eq_one.le
    | replyTopic => exact hm.replyTopic.length_le_one
    | correlation => exact hm.correlation.length_le_one
  | noTopic h =>
    have hone := hm.topic.length_eq_one
    rw [h] at hone
    cases hone
  | noPayload h =>
    have hone := hm.payload.length_eq_one
    rw [h] at hone
    cases hone
  | largeByte hkey harray hmem hn hlarge =>
    refine absurd hlarge (Nat.not_lt.2 ?_)
    rcases hkey with rfl | rfl
    · obtain ⟨u, hu, hbytes⟩ := hm.payload
      rw [hu, List.mem_singleton] at harray
      subst harray
      exact hbytes.le_of_mem hmem hn
    · obtain ⟨h, -⟩ | ⟨u, hu, hbytes⟩ := hm.correlation
      · rw [h] at harray
        cases harray
      · rw [hu, List.mem_singleton] at harray
        subst harray
        generalize m.correlation = content at hbytes
        obtain _ | hbytes := hbytes
        exact hbytes.le_of_mem hmem hn

/-! ## Lines -/

/-- Every spelling of a value, with white space around it, is decoded to the message that the value
expresses, and to none if it expresses none or if anything but white space follows it. A line that
gives a key twice, that has no topic or no payload, or that gives a byte above 255 is refused. -/
theorem decoding_independent_of_spelling {v : Value} {w b : Bytes} (hw : Blank w)
    (hb : Spells (.value v) b) (rest : Bytes) :
    (∀ m, decode? (w ++ (b ++ rest)) = some m ↔ Expresses v m ∧ Blank rest) ∧
      (Faulty v ∨ ¬ Blank rest → decode? (w ++ (b ++ rest)) = none) := by
  have hdecode (m : Message) :
      decode? (w ++ (b ++ rest)) = some m ↔ Expresses v m ∧ Blank rest := by
    rw [decode?_of_spells hw hb]
    by_cases hrest : Blank rest
    · rw [if_pos hrest, message_eq_some_iff, and_iff_left hrest]
    · rw [if_neg hrest]
      exact ⟨fun h => (nomatch h), fun h => absurd h.2 hrest⟩
  refine ⟨hdecode, fun hfault => Option.eq_none_iff_forall_ne_some.2 fun m hm => ?_⟩
  obtain ⟨hexpresses, hrest⟩ := (hdecode m).1 hm
  rcases hfault with hfaulty | hno
  · exact hfaulty.not_expresses m hexpresses
  · exact hno hrest

/-- A line with white space, escapes, a nested value of another key and numbers for the payload. -/
def nestedLine : Bytes :=
  Bytes.ofString (" \x7b\"x\": [null,\x7b\"a\":-1.5e3\x7d],\"payload\":[0 ,255]," ++
    "\"\\u0074opic\":\"\\u00e9\"\x7d\r")

/-- What the line spells. -/
def nestedValue : Value :=
  .object
    [(unitsOf (Bytes.ofString "x"),
        .array
          [.null, .object [(unitsOf (Bytes.ofString "a"), .number [45, 49, 46, 53, 101, 51])]]),
      (unitsOf (Bytes.ofString "payload"), .array [.number [48], .number [50, 53, 53]]),
      (.code 116 :: unitsOf (Bytes.ofString "opic"), .string [.code 233])]

theorem spells_nestedValue :
    ∃ b, Spells (.value nestedValue) b ∧ nestedLine = [32] ++ (b ++ [13]) := by
  have hnumber : IsNumber [45, 49, 46, 53, 101, 51] :=
    ⟨[45], [49], [46, 53], [101, 51], Or.inr rfl, by decide, Or.inr ⟨[53], by decide, rfl⟩,
      Or.inr ⟨101, [], [51], Or.inl rfl, Or.inl rfl, by decide, rfl⟩, rfl⟩
  have hzero : IsNumber [48] :=
    ⟨[], [48], [], [], Or.inl rfl, by decide, Or.inl rfl, Or.inl rfl, rfl⟩
  have hlarge : IsNumber [50, 53, 53] :=
    ⟨[], [50, 53, 53], [], [], Or.inl rfl, by decide, Or.inl rfl, Or.inl rfl, rfl⟩
  have hother : Spells (.item (.array [.null,
      .object [(unitsOf (Bytes.ofString "a"), .number [45, 49, 46, 53, 101, 51])]])) _ :=
    .item (by decide : Blank [32])
      (.array (.element (Spells.bare .nullWord) (.lastElement (Spells.bare
        (.object (.lastMember (spellsKey_quote _) (Spells.bare (.number hnumber))))))))
      (by decide : Blank [])
  have hpayload : Spells (.item (.array [.number [48], .number [50, 53, 53]])) _ :=
    Spells.bare (.array (.element
      (.item (by decide : Blank []) (.number hzero) (by decide : Blank [32]))
      (.lastElement (Spells.bare (.number hlarge)))))
  have hkey : SpellsUnits (.code 116 :: unitsOf (Bytes.ofString "opic")) _ :=
    .cons (.code (a := 48) (b := 48) (c := 55) (d := 52) ⟨by decide, [0, 0, 7, 4], rfl, rfl⟩)
      (spellsUnits_escape _)
  have htopic : SpellsUnits [.code 233] _ :=
    .cons (.code (a := 48) (b := 48) (c := 101) (d := 57) ⟨by decide, [0, 0, 14, 9], rfl, rfl⟩) .nil
  exact ⟨_, .object (.member (spellsKey_quote _) hother (.member (spellsKey_quote _) hpayload
    (.lastMember (.mk (by decide : Blank []) hkey (by decide : Blank []))
      (Spells.bare (.string htopic))))),
    by decide +kernel⟩

theorem expresses_nestedValue :
    Expresses nestedValue { topic := "é", payload := [0, 255], replyTopic := "" } := by
  have hkey : textOf? (.code 116 :: unitsOf (Bytes.ofString "opic")) = some "topic" :=
    textOf?_eq_some (by decide +kernel)
  have htopic : textOf? [.code 233] = some "é" := textOf?_eq_some (by decide +kernel)
  have hentries : entries nestedValue =
      [(.payload, .array [.number [48], .number [50, 53, 53]]), (.topic, .string [.code 233])] := by
    simp [entries, nestedValue, textOf?_unitsOf_ofString, hkey, Key.ofName?]
  constructor
  · simp [nestedValue, IsLine, textOf?_unitsOf_ofString, hkey]
  all_goals rw [hentries]
  · exact ⟨_, rfl, _, rfl, htopic⟩
  · exact ⟨_, rfl, .numbers (.cons ⟨_, rfl, by decide, [0], rfl, rfl⟩
      (.cons ⟨_, rfl, by decide, [2, 5, 5], rfl, rfl⟩ .nil))⟩
  · exact Or.inl ⟨rfl, rfl⟩
  · exact Or.inl ⟨rfl, rfl⟩

theorem decoding_independent_of_spelling_nested :
    ∃ b, Blank [32] ∧ Spells (.value nestedValue) b ∧ nestedLine = [32] ++ (b ++ [13]) ∧
      decode? nestedLine = some { topic := "é", payload := [0, 255], replyTopic := "" } := by
  obtain ⟨b, hb, hline⟩ := spells_nestedValue
  refine ⟨b, by decide, hb, hline, ?_⟩
  rw [hline]
  exact ((decoding_independent_of_spelling (by decide) hb [13]).1 _).2
    ⟨expresses_nestedValue, by decide⟩

end Wire

end TopicRelay
