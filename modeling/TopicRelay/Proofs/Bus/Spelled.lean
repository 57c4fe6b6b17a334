import TopicRelay.Bus.Wire
import TopicRelay.Proofs.Json.Passing

/-!
# What is read of spelled values

The readers of the line format go through the bytes of a line. Here each of them is given by the
value that the bytes spell, so that what is read does not depend on the spelling: `readString` by
`Value.text?`, `readBytes` by `Value.bytes?`, a member of an object by `Fields.take` and an element
of an array by `Fields.put`. A reader that refuses a value refuses every spelling of it.
-/

namespace TopicRelay

open Json

namespace Json.Value

/-! ## What values are read as -/

/-- The text that a value is. -/
def text? : Value → Option String
  | .string us => textOf? us
  | _ => none

/-- The byte that a value is: a whole number below 256, in digits alone. -/
def byte? : Value → Option UInt8
  | .number (d :: ds) => (Numeral.readDigits 10 256 0 (d :: ds)).toOption.map UInt8.ofNat
  | _ => none

/-- The byte string that a value is, in either form. -/
def bytes? : Value → Option Bytes
  | .string us => (textOf? us).map Bytes.ofString
  | .array vs => vs.mapM byte?
  | _ => none

/-- The byte string that a value is, or that there is none. -/
def optionalBytes? : Value → Option (Option Bytes)
  | .null => some none
  | v => v.bytes?.map some

/-- Only numbers start with a digit. -/
theorem Opens.isDigit_eq_false {v : Value} {c : UInt8} (h : v.Opens c)
    (hv : ∀ digits, v ≠ .number digits) : isDigit c = false := by
  cases v with
  | number => exact absurd rfl (hv _)
  | bool b => cases b <;> cases h <;> rfl
  | null | string | array | object =>
    cases h
    rfl

/-- The kind of a value shows in its first byte. -/
theorem Opens.kind {v : Value} {c : UInt8} (h : v.Opens c) :
    (c = 110 → v = .null) ∧ (c = 34 → ∃ us, v = .string us) ∧ (c = 91 → ∃ vs, v = .array vs) ∧
      (c = 123 → ∃ ms, v = .object ms) := by
  cases v with
  | number =>
    refine ⟨?_, ?_, ?_, ?_⟩ <;> rintro rfl <;> rcases h with h | h <;> cases h
  | bool b => cases b <;> cases h <;> simp
  | null | string | array | object =>
    cases h
    simp

end Json.Value

namespace Json

/-- An item is a value with white space around it. -/
theorem Spells.of_item {v : Value} {b : Bytes} (h : Spells (.item v) b) :
    ∃ w a w', Blank w ∧ Spells (.value v) a ∧ Blank w' ∧ b = w ++ (a ++ w') := by
  cases h with
  | item hw hv hw' => exact ⟨_, _, _, hw, hv, hw', rfl⟩

theorem isDigit_of_digit? {b : UInt8} {d : Nat} (h : Numeral.digit? 10 b = some d) :
    isDigit b = true := by
  have hall : ∀ c, (Numeral.digit? 10 c).isSome = true → isDigit c = true :=
    forall_byte (by decide +kernel)
  exact hall b (by rw [h]; rfl)

theorem isDigit_of_spells {digits : Bytes} {n : Nat} (h : Numeral.Spells 10 digits n) :
    ∀ d ∈ digits, isDigit d = true := by
  obtain ⟨-, ns, hns, -⟩ := h
  intro d hd
  have hmem := List.mem_map_of_mem (f := Numeral.digit? 10) hd
  rw [hns] at hmem
  obtain ⟨k, -, hk⟩ := List.mem_map.1 hmem
  exact isDigit_of_digit? hk.symm

/-- A byte is a number in decimal digits that denote it. -/
theorem Value.byte?_eq_some_iff {v : Value} {x : UInt8} :
    v.byte? = some x ↔ ∃ digits, v = .number digits ∧ Numeral.Spells 10 digits x.toNat := by
  constructor
  · intro h
    rcases v with _ | _ | (_ | ⟨d, ds⟩) | _ | _ | _
    case number.cons =>
      obtain ⟨n, hn, rfl⟩ := Option.map_eq_some_iff.1 h
      obtain ⟨hspells, hlt⟩ :=
        (Numeral.toOption_readDigits_eq_some_iff (List.cons_ne_nil d ds)).1 hn
      refine ⟨d :: ds, rfl, ?_⟩
      rwa [UInt8.toNat_ofNat_of_lt' hlt]
    all_goals cases h
  · rintro ⟨digits, rfl, hspells⟩
    obtain ⟨d, ds, rfl⟩ := List.exists_cons_of_ne_nil hspells.1
    rw [byte?, (Numeral.toOption_readDigits_eq_some_iff hspells.1).2 ⟨hspells, x.toNat_lt⟩]
    exact congrArg some x.ofNat_toNat

theorem IsWhole.digits {b : Bytes} (h : IsWhole b) : IsDigits b := by
  obtain rfl | ⟨h, -⟩ := h
  · decide
  · exact h

/-- A number is whole, or its first digits are followed by a sign that no byte has. -/
theorem IsNumber.whole_or {b : Bytes} (h : IsNumber b) :
    IsWhole b ∨ ∃ ds x tail, b = ds ++ x :: tail ∧ (∀ d ∈ ds, isDigit d = true) ∧
      (x = 45 ∨ x = 46 ∨ x = 101 ∨ x = 69) := by
  obtain ⟨sign, whole, fraction, exponent, hsign, hwhole, hfraction, hexponent, rfl⟩ := h
  have hdigits := hwhole.digits.2
  obtain rfl | rfl := hsign
  · rw [List.nil_append]
    obtain rfl | ⟨decimals, -, rfl⟩ := hfraction
    · obtain rfl | ⟨letter, sign, digits, hletter, -, -, rfl⟩ := hexponent
      · rw [List.nil_append, List.append_nil]
        exact Or.inl hwhole
      · exact Or.inr ⟨whole, letter, _, rfl, hdigits, Or.inr (Or.inr hletter)⟩
    · exact Or.inr ⟨whole, 46, _, rfl, hdigits, Or.inr (Or.inl rfl)⟩
  · exact Or.inr ⟨[], 45, _, rfl, List.forall_mem_nil _, Or.inl rfl⟩

/-- What is no whole number shows this where its first digits end, if it has any. -/
theorem Spells.stops {v : Value} {b : Bytes} (h : Spells (.value v) b)
    (hv : ∀ digits, v = .number digits → ¬ IsWhole digits) :
    ∃ ds x tail, b = ds ++ x :: tail ∧ (∀ d ∈ ds, isDigit d = true) ∧ isDigit x = false ∧
      (ds = [] ∨ isBlank x = false ∧ x ≠ 44 ∧ x ≠ 93) := by
  by_cases hnumber : ∃ digits, v = .number digits
  · obtain ⟨digits, rfl⟩ := hnumber
    cases h with
    | number h =>
      obtain hwhole | ⟨ds, x, tail, rfl, hds, hx⟩ := h.whole_or
      · exact absurd hwhole (hv _ rfl)
      · refine ⟨ds, x, tail, rfl, hds, ?_⟩
        rcases hx with rfl | rfl | rfl | rfl <;> exact ⟨rfl, Or.inr (by decide)⟩
  · obtain ⟨c, tail, rfl, hc⟩ := h.exists_cons
    exact ⟨[], c, tail, rfl, List.forall_mem_nil _,
      hc.isDigit_eq_false fun digits hdigits => hnumber ⟨digits, hdigits⟩, Or.inl rfl⟩

/-- What is no whole number is no byte. -/
theorem Spells.byte?_eq_none {v : Value} {b : Bytes} (h : Spells (.value v) b)
    (hv : ∀ digits, v = .number digits → ¬ IsWhole digits) : v.byte? = none := by
  obtain ⟨ds, x, tail, hb, -, hx, -⟩ := h.stops hv
  refine Option.eq_none_iff_forall_ne_some.2 fun y hy => ?_
  obtain ⟨digits, rfl, hspells⟩ := Value.byte?_eq_some_iff.1 hy
  cases h with
  | number h =>
    have hdigit := isDigit_of_spells hspells x (by simp [hb])
    rw [hx] at hdigit
    cases hdigit

end Json

namespace Wire

/-! ## Arrays of bytes -/

theorem readNumbers_blank {w : Bytes} (h : Blank w) (fuel : Nat) (acc : List UInt8) (b : Bytes) :
    readNumbers fuel acc (w ++ b) = readNumbers fuel acc b := by
  cases fuel with
  | zero => rfl
  | succ fuel => rw [readNumbers, readNumbers, skipBlank_append h]

/-- Digits go on up to the first byte that is none. -/
theorem digits_append {ds rest : Bytes} (hds : ∀ d ∈ ds, isDigit d = true)
    (hrest : ∀ c ∈ rest.head?, isDigit c = false) :
    (ds ++ rest).takeWhile isDigit = ds ∧ (ds ++ rest).dropWhile isDigit = rest := by
  rw [List.takeWhile_append_of_pos hds, List.dropWhile_append_of_pos hds]
  cases rest with
  | nil => exact ⟨List.append_nil ds, rfl⟩
  | cons c rest =>
    have hc : ¬ isDigit c = true := by rw [hrest c rfl]; exact Bool.false_ne_true
    rw [List.takeWhile_cons_of_neg hc, List.dropWhile_cons_of_neg hc, List.append_nil]
    exact ⟨rfl, rfl⟩

/-- Digits that end with their item are one byte. -/
theorem readNumbers_whole {digits w : Bytes} (h : IsWhole digits) (hw : Blank w) {c : UInt8}
    (hc : c = 44 ∨ c = 93) (fuel : Nat) (acc : List UInt8) (rest : Bytes) :
    readNumbers (fuel + 1) acc (digits ++ (w ++ c :: rest)) =
      (Value.number digits).byte?.bind fun x =>
        if c = 44 then readNumbers fuel (x :: acc) rest
        else some ((x :: acc).reverse, rest) := by
  have hdigits := h.digits.2
  obtain ⟨d, ds, rfl, hd⟩ := h.digits.exists_cons
  have hdelimits : Delimits (w ++ c :: rest) :=
    IsEnd.delimits (hc.imp_right Or.inl) hw rest
  have hzero : ¬ ((d :: ds).length > 1 ∧ (d :: ds).head? = some 48) := by
    rintro ⟨hlength, hhead⟩
    obtain h | ⟨-, h⟩ := h
    · rw [h] at hlength
      exact absurd hlength (by decide)
    · exact h hhead
  have hstart : skipBlank (d :: ds ++ (w ++ c :: rest)) = d :: ds ++ (w ++ c :: rest) :=
    skipBlank_cons (sign_of_isDigit hd).1 _
  have hend : skipBlank (w ++ c :: rest) = c :: rest := by
    rw [skipBlank_append hw]
    rcases hc with rfl | rfl <;> exact skipBlank_cons rfl _
  obtain ⟨htake, hdrop⟩ := digits_append hdigits fun x hx => (hdelimits x hx).1
  rw [readNumbers]
  simp only [hstart, htake, hdrop, hend]
  rw [if_neg hzero, Value.byte?]
  rcases Numeral.readDigits 10 256 0 (d :: ds) with e | n
  · rfl
  · rcases hc with rfl | rfl <;> rfl

/-- What is no byte ends the reading. -/
theorem readNumbers_eq_none {ds tail : Bytes} {x : UInt8} (hds : ∀ d ∈ ds, isDigit d = true)
    (hx : isDigit x = false) (hend : ds = [] ∨ isBlank x = false ∧ x ≠ 44 ∧ x ≠ 93)
    (hstart : skipBlank (ds ++ x :: tail) = ds ++ x :: tail) (fuel : Nat) (acc : List UInt8) :
    readNumbers fuel acc (ds ++ x :: tail) = none := by
  have hhead : ∀ c ∈ (x :: tail).head?, isDigit c = false := by
    rintro c ⟨⟩
    exact hx
  obtain ⟨htake, hdrop⟩ := digits_append hds hhead
  cases fuel with
  | zero => rfl
  | succ fuel =>
    rw [readNumbers]
    simp only [hstart, htake, hdrop]
    split
    · rfl
    · obtain rfl | ⟨hblank, hcomma, hbracket⟩ := hend
      · rfl
      · rw [skipBlank_cons hblank]
        split
        · rename_i heq _ _
          exact absurd (List.cons.inj heq).1 hcomma
        · rename_i heq _ _
          exact absurd (List.cons.inj heq).1 hbracket
        · rfl

/-- One number of an array, with the sign after it. -/
theorem readNumbers_item {v : Value} {b : Bytes} (h : Spells (.item v) b) {c : UInt8}
    (hc : c = 44 ∨ c = 93) (fuel : Nat) (acc : List UInt8) (rest : Bytes) :
    readNumbers (fuel + 1) acc (b ++ c :: rest) =
      v.byte?.bind fun x =>
        if c = 44 then readNumbers fuel (x :: acc) rest
        else some ((x :: acc).reverse, rest) := by
  obtain ⟨w, a, w', hw, hv, hw', rfl⟩ := h.of_item
  rw [List.append_assoc, List.append_assoc, readNumbers_blank hw]
  by_cases hwhole : ∃ digits, v = .number digits ∧ IsWhole digits
  · obtain ⟨digits, rfl, hwhole⟩ := hwhole
    cases hv with
    | number => exact readNumbers_whole hwhole hw' hc fuel acc rest
  · have hno : ∀ digits, v = .number digits → ¬ IsWhole digits :=
      fun digits hdigits h => hwhole ⟨digits, hdigits, h⟩
    have hstart := hv.skipBlank_item (List.forall_mem_nil _) (w' ++ c :: rest)
    rw [hv.byte?_eq_none hno, Option.bind_none]
    obtain ⟨ds, x, tail, rfl, hds, hx, hend⟩ := hv.stops hno
    rw [List.nil_append, List.append_assoc, List.cons_append] at hstart
    rw [List.append_assoc, List.cons_append]
    exact readNumbers_eq_none hds hx hend hstart (fuel + 1) acc

/-- The numbers of an array, up to its bracket. -/
theorem readNumbers_elements {fuel : Nat} {v : Value} {vs : List Value} {b : Bytes}
    (h : Spells (.elements (v :: vs)) b) (hfuel : vs.length < fuel) (acc : List UInt8)
    (rest : Bytes) :
    readNumbers fuel acc (b ++ 93 :: rest) =
      ((v :: vs).mapM Value.byte?).map fun xs => (acc.reverse ++ xs, rest) := by
  induction vs generalizing fuel v b acc with
  | nil =>
    obtain ⟨fuel, rfl⟩ := Nat.exists_eq_add_one.2 hfuel
    cases h with
    | lastElement h =>
      rw [readNumbers_item h (Or.inr rfl), List.mapM_cons, List.mapM_nil]
      rcases v.byte? with _ | x
      · rfl
      · simp
  | cons u vs ih =>
    rw [List.length_cons] at hfuel
    obtain ⟨fuel, rfl⟩ := Nat.exists_eq_add_one.2 (Nat.zero_lt_of_lt hfuel)
    cases h with
    | element h hmore =>
      rw [List.append_assoc, List.cons_append, readNumbers_item h (Or.inl rfl), List.mapM_cons]
      rcases v.byte? with _ | x
      · rfl
      · rw [Option.bind_some, if_pos rfl, ih hmore (Nat.lt_of_succ_lt_succ hfuel)]
        rcases (u :: vs).mapM Value.byte? with _ | xs <;> simp

theorem length_skipBlank_le (b : Bytes) : (skipBlank b).length ≤ b.length :=
  (List.dropWhile_suffix isBlank).length_le

/-- Every element of an array takes a byte or more, and so does every comma. -/
theorem length_elements_lt {v : Value} {vs : List Value} {b : Bytes}
    (h : Spells (.elements (v :: vs)) b) (rest : Bytes) :
    vs.length < (skipBlank (b ++ rest)).length := by
  induction vs generalizing v b rest with
  | nil =>
    obtain ⟨w, c, tail, hw, hc, hopens⟩ := h.elements_opens rest
    rw [hopens, skipBlank_append hw, skipBlank_cons hc.sign.1]
    exact Nat.succ_pos _
  | cons u vs ih =>
    cases h with
    | @element _ _ _ _ more h hmore =>
      obtain ⟨w, a, w', hw, hv, -, rfl⟩ := h.of_item
      have hlt := Nat.lt_of_lt_of_le (ih hmore rest) (length_skipBlank_le (more ++ rest))
      simp only [List.append_assoc, List.cons_append]
      rw [hv.skipBlank_item hw]
      simp only [List.length_append, List.length_cons] at hlt ⊢
      omega

/-- A byte string starts with a quote or with a bracket. -/
theorem readBytes_eq_none {c : UInt8} (hquote : c ≠ 34) (hbracket : c ≠ 91) (b : Bytes) :
    readBytes (c :: b) = none := by
  rw [readBytes]
  · exact fun _ h => hquote (List.cons.inj h).1
  · exact fun _ h => hbracket (List.cons.inj h).1

/-- An array of bytes is read from every spelling of its elements. -/
theorem readBytes_of_elements {vs : List Value} {b : Bytes} (h : Spells (.elements vs) b)
    (rest : Bytes) :
    readBytes (91 :: (b ++ 93 :: rest)) =
      (vs.mapM Value.byte?).map fun content => (content, rest) := by
  rcases vs with _ | ⟨v, vs⟩
  · cases h with
    | noElement hw =>
      rw [readBytes, skipBlank_append hw, skipBlank_cons rfl]
      rfl
  · obtain ⟨w, c, tail, hw, hc, hopens⟩ := h.elements_opens (93 :: rest)
    have hstart : skipBlank (b ++ 93 :: rest) = c :: tail := by
      rw [hopens, skipBlank_append hw, skipBlank_cons hc.sign.1]
    -- The bytes bound the elements, so that the reader does not stop before the bracket.
    have hlength := length_elements_lt h (93 :: rest)
    rw [hstart] at hlength
    have hread := readNumbers_elements h (Nat.lt_succ_of_lt hlength) [] rest
    rw [hopens, readNumbers_blank hw] at hread
    rw [readBytes, hstart]
    split
    · rename_i heq
      exact absurd (List.cons.inj heq).1 hc.sign.2.1
    · exact hread

/-- A byte string is read from every spelling of a value that is one. -/
theorem readBytes_of_spells {v : Value} {b : Bytes} (h : Spells (.value v) b) (rest : Bytes) :
    readBytes (b ++ rest) = v.bytes?.map fun content => (content, rest) := by
  cases v with
  | string us =>
    cases h with
    | string h =>
      rw [List.cons_append, List.append_assoc, readBytes, List.singleton_append,
        readString_of_spells h, Value.bytes?, Option.map_map, Option.map_map]
      rfl
  | array vs =>
    cases h with
    | array h =>
      rw [List.cons_append, List.append_assoc]
      exact readBytes_of_elements h rest
  | null | bool | number | object =>
    obtain ⟨c, tail, rfl, hc⟩ := h.exists_cons
    have hquote : c ≠ 34 := fun h => by obtain ⟨_, ⟨⟩⟩ := hc.kind.2.1 h
    have hbracket : c ≠ 91 := fun h => by obtain ⟨_, ⟨⟩⟩ := hc.kind.2.2.1 h
    rw [List.cons_append, readBytes_eq_none hquote hbracket]
    rfl

theorem readOptionalBytes_of_spells {v : Value} {b : Bytes} (h : Spells (.value v) b)
    (rest : Bytes) :
    readOptionalBytes (b ++ rest) = v.optionalBytes?.map fun content => (content, rest) := by
  rw [readOptionalBytes]
  by_cases hnull : v = .null
  · subst hnull
    cases h with
    | nullWord =>
      rw [Bytes.after?_eq_some_iff.2 rfl]
      rfl
  · have hword : Bytes.after? (Bytes.ofString "null") (b ++ rest) = none := by
      obtain ⟨c, tail, rfl, hc⟩ := h.exists_cons
      rw [ofString_null, List.cons_append, Bytes.after?, if_neg]
      exact fun h => hnull (hc.kind.1 h.symm)
    rw [hword, readBytes_of_spells h, Value.optionalBytes?, Option.map_map, Option.map_map]
    · rfl
    · exact hnull

/-- A text is read from every spelling of a string. -/
theorem readString_of_value {v : Value} {b : Bytes} (h : Spells (.value v) b) (rest : Bytes) :
    readString (b ++ rest) = v.text?.map fun s => (s, rest) := by
  cases v with
  | string us =>
    cases h with
    | string h =>
      rw [List.cons_append, List.append_assoc]
      exact readString_of_spells h rest
  | null | bool | number | array | object =>
    obtain ⟨c, tail, rfl, hc⟩ := h.exists_cons
    rw [List.cons_append, readString]
    · rfl
    · intro _ h
      obtain ⟨_, ⟨⟩⟩ := hc.kind.2.1 (List.cons.inj h).1

/-! ## The parts of a message -/

namespace Fields

/-- Takes the value of a key that has not been taken before. -/
def put (f : Fields) (key : Key) (v : Value) : Option Fields :=
  match key with
  | .topic =>
    if f.topic.isSome then none else v.text?.map fun s => { f with topic := some s }
  | .payload =>
    if f.payload.isSome then none else v.bytes?.map fun p => { f with payload := some p }
  | .replyTopic =>
    if f.replyTopic.isSome then none else v.text?.map fun s => { f with replyTopic := some s }
  | .correlation =>
    if f.correlation.isSome then none
    else v.optionalBytes?.map fun c => { f with correlation := some c }

/-- Takes a named value; nothing is kept of a name that is no key. -/
def take (f : Fields) (e : String × Value) : Option Fields :=
  match Key.ofName? e.1 with
  | some key => f.put key e.2
  | none => some f

/-- The value of a key is taken from every spelling of it. -/
theorem read_of_spells {v : Value} {b : Bytes} (h : Spells (.value v) b) (f : Fields) (key : Key)
    (rest : Bytes) : f.read key (b ++ rest) = (f.put key v).map fun g => (g, rest) := by
  have htext := readString_of_value h rest
  have hbytes := readBytes_of_spells h rest
  have hoptional := readOptionalBytes_of_spells h rest
  cases key <;> simp only [read, put, htext, hbytes, hoptional]
  all_goals
    split
    · rfl
    · simp only [Option.map_map, Function.comp_def]

/-- A member of an object is taken from every spelling of it. -/
theorem readMember_of_spells {k : List StringUnit} {v : Value} {a b : Bytes} (hk : SpellsKey k a)
    (hb : Spells (.item v) b) {c : UInt8} (hc : IsEnd c) (f : Fields) (rest : Bytes) :
    ∃ w, Blank w ∧ f.readMember (a ++ (b ++ c :: rest)) =
      ((textOf? k).bind fun name => f.take (name, v)).map fun g => (g, w ++ c :: rest) := by
  obtain ⟨hw, hus, hw'⟩ := hk
  obtain ⟨u, inner, u', hu, hv, hu', rfl⟩ := hb.of_item
  have hcolon (b : Bytes) : Bytes.after? [58] (58 :: b) = some b := rfl
  refine ⟨u', hu', ?_⟩
  simp only [List.append_assoc, List.cons_append, List.nil_append]
  rw [readMember, skipBlank_append hw, skipBlank_cons rfl, readString_of_spells hus]
  rcases textOf? k with _ | name
  · rfl
  · simp only [Option.map_some, Option.bind_some, skipBlank_append hw']
    rw [skipBlank_cons rfl, hcolon]
    simp only [take]
    rcases Key.ofName? name with _ | key
    · simp only [hv.skipValue hu (hc.delimits hu' rest)]
      rfl
    · simp only [hv.skipBlank_item hu]
      exact read_of_spells hv f key _

/-- Takes the members of an object one after the other. Every key must be a text. -/
def takeAll (f : Fields) (ms : List (List StringUnit × Value)) : Option Fields :=
  ms.foldlM (fun f e => (textOf? e.1).bind fun name => f.take (name, e.2)) f

/-- The members of an object, up to its brace. -/
theorem readMembers_of_spells {fuel : Nat} {m : List StringUnit × Value}
    {ms : List (List StringUnit × Value)} {b : Bytes} (h : Spells (.members (m :: ms)) b)
    (hfuel : ms.length < fuel) (f : Fields) (rest : Bytes) :
    readMembers fuel f (b ++ 125 :: rest) =
      (f.takeAll (m :: ms)).map fun g => (g, rest) := by
  induction ms generalizing fuel m b f with
  | nil =>
    obtain ⟨fuel, rfl⟩ := Nat.exists_eq_add_one.2 hfuel
    cases h with
    | @lastMember k v a b hk h =>
      obtain ⟨w, hw, hread⟩ := readMember_of_spells hk h (Or.inr (Or.inr rfl)) f rest
      rw [List.append_assoc, readMembers, hread, takeAll, List.foldlM_cons]
      rcases (textOf? k).bind fun name => f.take (name, v) with _ | g
      · rfl
      · simp only [Option.map_some, skipBlank_append hw, skipBlank_cons (c := 125) rfl]
        rfl
  | cons e ms ih =>
    rw [List.length_cons] at hfuel
    obtain ⟨fuel, rfl⟩ := Nat.exists_eq_add_one.2 (Nat.zero_lt_of_lt hfuel)
    cases h with
    | @member k v _ _ a b more hk h hmore =>
      obtain ⟨w, hw, hread⟩ :=
        readMember_of_spells hk h (Or.inl rfl) f (more ++ 125 :: rest)
      rw [List.append_assoc, List.append_assoc, List.cons_append, readMembers, hread, takeAll,
        List.foldlM_cons]
      rcases (textOf? k).bind fun name => f.take (name, v) with _ | g
      · rfl
      · simp only [Option.map_some, skipBlank_append hw, skipBlank_cons (c := 44) rfl]
        exact ih hmore (Nat.lt_of_succ_lt_succ hfuel) g

/-- Takes the elements of an array, one for each key in turn. -/
def putAll (f : Fields) (keys : List Key) (vs : List Value) : Option Fields :=
  if vs.length ≤ keys.length then (keys.zip vs).foldlM (fun f e => f.put e.1 e.2) f else none

/-- The elements of an array, up to its bracket. -/
theorem readElements_of_spells {keys : List Key} {v : Value} {vs : List Value} {b : Bytes}
    (h : Spells (.elements (v :: vs)) b) (f : Fields) (rest : Bytes) :
    readElements keys f (b ++ 93 :: rest) =
      (f.putAll keys (v :: vs)).map fun g => (g, rest) := by
  induction keys generalizing v vs b f with
  | nil => rfl
  | cons key keys ih =>
    cases h with
    | lastElement h =>
      obtain ⟨w, a, w', hw, hv, hw', rfl⟩ := h.of_item
      simp only [List.append_assoc]
      rw [readElements, hv.skipBlank_item hw, read_of_spells hv]
      rcases hput : f.put key v with _ | g
      · simp [putAll, hput]
      · simp [putAll, hput, skipBlank_append hw', skipBlank_cons (c := 93) rfl]
    | @element _ u us _ more h hmore =>
      obtain ⟨w, a, w', hw, hv, hw', rfl⟩ := h.of_item
      simp only [List.append_assoc, List.cons_append]
      rw [readElements, hv.skipBlank_item hw, read_of_spells hv]
      rcases hput : f.put key v with _ | g
      · simp [putAll, hput]
      · simp only [Option.map_some, skipBlank_append hw', skipBlank_cons (c := 44) rfl]
        rw [ih hmore]
        simp [putAll, hput]

theorem readMembers_blank {w : Bytes} (h : Blank w) (fuel : Nat) (f : Fields) (b : Bytes) :
    readMembers fuel f (w ++ b) = readMembers fuel f b := by
  cases fuel with
  | zero => rfl
  | succ fuel => rw [readMembers, readMembers, readMember, readMember, skipBlank_append h]

/-- Every member of an object takes a byte or more, and so does every comma. -/
theorem length_members_lt {m : List StringUnit × Value} {ms : List (List StringUnit × Value)}
    {b : Bytes} (h : Spells (.members (m :: ms)) b) (rest : Bytes) :
    ms.length < (skipBlank (b ++ rest)).length := by
  obtain ⟨w, tail, hw, hopens⟩ := h.members_opens rest
  induction ms generalizing m b w tail rest with
  | nil =>
    rw [hopens, skipBlank_append hw, skipBlank_cons rfl]
    exact Nat.succ_pos _
  | cons e ms ih =>
    cases h with
    | @member k v _ _ a b more hk h hmore =>
      obtain ⟨w', tail', hw', hopens'⟩ := hmore.members_opens rest
      have hlt := Nat.lt_of_lt_of_le (ih hmore rest w' tail' hw' hopens')
        (length_skipBlank_le (more ++ rest))
      obtain ⟨hw, -, -⟩ := hk
      simp only [List.append_assoc, List.cons_append]
      rw [skipBlank_append hw, skipBlank_cons rfl]
      simp only [List.length_append, List.length_cons] at hlt ⊢
      omega

end Fields

/-! ## Lines -/

/-- The keys in the order in which an array gives them. -/
def keys : List Key := [.topic, .payload, .replyTopic, .correlation]

/-- The parts of a message that a value gives. -/
def fieldsOf? : Value → Option Fields
  | .object ms => Fields.takeAll {} ms
  | .array vs => Fields.putAll {} keys vs
  | _ => none

/-- The parts of a message are read from every spelling of an object. -/
theorem readFields_of_members {ms : List (List StringUnit × Value)} {b : Bytes}
    (h : Spells (.members ms) b) (rest : Bytes) :
    readFields (123 :: (b ++ 125 :: rest)) = (Fields.takeAll {} ms).map fun f => (f, rest) := by
  rw [readFields, skipBlank_cons rfl]
  rcases ms with _ | ⟨m, ms⟩
  · cases h with
    | noMember hw =>
      simp only [skipBlank_append hw, skipBlank_cons (c := 125) rfl]
      rfl
  · obtain ⟨w, tail, hw, hopens⟩ := h.members_opens (125 :: rest)
    have hstart : skipBlank (b ++ 125 :: rest) = 34 :: tail := by
      rw [hopens, skipBlank_append hw, skipBlank_cons rfl]
    have hlength := Fields.length_members_lt h (125 :: rest)
    rw [hstart] at hlength
    have hread := Fields.readMembers_of_spells h (Nat.lt_succ_of_lt hlength) {} rest
    rw [hopens, Fields.readMembers_blank hw] at hread
    simp only [hstart]
    exact hread

/-- The parts of a message are read from every spelling of an array that has elements. -/
theorem readFields_of_elements {v : Value} {vs : List Value} {b : Bytes}
    (h : Spells (.elements (v :: vs)) b) (rest : Bytes) :
    readFields (91 :: (b ++ 93 :: rest)) =
      (Fields.putAll {} keys (v :: vs)).map fun f => (f, rest) := by
  rw [readFields, skipBlank_cons rfl]
  exact Fields.readElements_of_spells h {} rest

/-- An array without elements gives no topic. -/
theorem readFields_of_noElement {b : Bytes} (h : Blank b) (rest : Bytes) :
    readFields (91 :: (b ++ 93 :: rest)) = none := by
  have hend : skipBlank (b ++ 93 :: rest) = 93 :: rest := by
    rw [skipBlank_append h, skipBlank_cons rfl]
  rw [readFields, skipBlank_cons rfl]
  simp only [Fields.readElements, hend]
  rfl

/-- Only objects and arrays are lines. -/
theorem readFields_eq_none {c : UInt8} (hblank : isBlank c = false) (hobject : c ≠ 123)
    (harray : c ≠ 91) (b : Bytes) : readFields (c :: b) = none := by
  rw [readFields, skipBlank_cons hblank]
  split
  · rename_i heq
    exact absurd (List.cons.inj heq).1 hobject
  · rename_i heq
    exact absurd (List.cons.inj heq).1 harray
  · rfl

/-- What is read of a line makes a message if only white space follows. -/
theorem decode?_of_read {line rest : Bytes} {o : Option Fields}
    (h : readFields line = o.map fun f => (f, rest)) :
    decode? line = if Blank rest then o.bind Fields.toMessage? else none := by
  have hempty : (skipBlank rest).isEmpty = true ↔ Blank rest := by
    rw [List.isEmpty_iff, skipBlank_eq_nil_iff]
  rw [decode?, h]
  cases o with
  | none => exact (ite_self _).symm
  | some f => simp only [Option.map_some, Option.bind_some, hempty]

/-- What a line is decoded to is given by the value that it spells. -/
theorem decode?_of_spells {v : Value} {w b : Bytes} (hw : Blank w) (h : Spells (.value v) b)
    (rest : Bytes) :
    decode? (w ++ (b ++ rest)) =
      if Blank rest then (fieldsOf? v).bind Fields.toMessage? else none := by
  have hstart : readFields (w ++ (b ++ rest)) = readFields (b ++ rest) := by
    rw [readFields, readFields, skipBlank_append hw]
  cases v with
  | object ms =>
    cases h with
    | object h =>
      rw [List.cons_append, List.append_assoc] at hstart ⊢
      exact decode?_of_read (hstart.trans (readFields_of_members h rest))
  | array vs =>
    cases h with
    | array h =>
      rw [List.cons_append, List.append_assoc] at hstart ⊢
      cases vs with
      | nil =>
        -- The reader refuses the array at once; its value gives no topic either.
        cases h with
        | noElement hb =>
          exact decode?_of_read (o := none) (hstart.trans (readFields_of_noElement hb rest))
      | cons v vs => exact decode?_of_read (hstart.trans (readFields_of_elements h rest))
  | null | bool | number | string =>
    obtain ⟨c, tail, rfl, hc⟩ := h.exists_cons
    have hobject : c ≠ 123 := fun h => by obtain ⟨_, ⟨⟩⟩ := hc.kind.2.2.2 h
    have harray : c ≠ 91 := fun h => by obtain ⟨_, ⟨⟩⟩ := hc.kind.2.2.1 h
    rw [List.cons_append] at hstart ⊢
    exact decode?_of_read (hstart.trans (readFields_eq_none hc.sign.1 hobject harray _))

end Wire

end TopicRelay
