import TopicRelay.Json.Skip
import TopicRelay.Proofs.Json.Text
import TopicRelay.Proofs.Numeral
import Mathlib.Data.List.TakeWhile

/-!
# JSON values and their spellings

`Value` is what a JSON text says and `Spells` how it may say it: with any white space between its
signs, and with each character of a string written as it stands, by a letter or by a code. A string
is kept as its units, which need not make up a text; `textOf?` is the text that they do make up.

What is read of a spelled string depends on its units alone (`readString_of_spells`), and what
`quote` writes is one of the spellings of its bytes (`spells_quote`). The byte that a value starts
with tells its kind (`Spells.exists_cons`).
-/

namespace TopicRelay

namespace Json

/-! ## Values -/

/-- A unit of a string. -/
inductive StringUnit where
  | byte (b : UInt8)
  /-- A code of four hexadecimal digits: a character, or one half of one. -/
  | code (n : Nat)
deriving DecidableEq, Repr

/-- A JSON value. -/
inductive Value where
  | null
  | bool (b : Bool)
  /-- A number is kept as it is written. -/
  | number (digits : Bytes)
  | string (units : List StringUnit)
  | array (elements : List Value)
  | object (members : List (List StringUnit × Value))
deriving Repr

/-- The bytes that units make up. Halves of a character stand in pairs, the high one first. -/
def bytesOf? : List StringUnit → Option Bytes
  | [] => some []
  | .byte b :: rest => (bytesOf? rest).map (b :: ·)
  | .code n :: rest =>
    if isLowHalf n then none
    else if isHighHalf n then
      match rest with
      | .code m :: rest =>
        if isLowHalf m then (bytesOf? rest).map (encodePoint (joinHalves n m) ++ ·) else none
      | _ => none
    else (bytesOf? rest).map (encodePoint n ++ ·)

/-- The text that units make up. -/
def textOf? (units : List StringUnit) : Option String := (bytesOf? units).bind Bytes.text?

/-! ## Spellings -/

/-- White space of any length, or none. -/
def Blank (w : Bytes) : Prop := ∀ c ∈ w, isBlank c = true

instance (w : Bytes) : Decidable (Blank w) :=
  decidable_of_iff (w.all isBlank = true) List.all_eq_true

/-- The letters that may stand after a backslash, each with the byte that it stands for. -/
def letters : List (UInt8 × UInt8) :=
  [(34, 34), (92, 92), (47, 47), (98, 8), (102, 12), (110, 10), (114, 13), (116, 9)]

/-- How a unit of a string may be written. -/
inductive SpellsUnit : StringUnit → Bytes → Prop
  | plain {b : UInt8} : ¬ b < 32 → b ≠ 34 → b ≠ 92 → SpellsUnit (.byte b) [b]
  | letter {c b : UInt8} : (c, b) ∈ letters → SpellsUnit (.byte b) [92, c]
  | code {a b c d : UInt8} {n : Nat} : Numeral.Spells 16 [a, b, c, d] n →
      SpellsUnit (.code n) [92, 117, a, b, c, d]

/-- How units may be written one after the other. -/
inductive SpellsUnits : List StringUnit → Bytes → Prop
  | nil : SpellsUnits [] []
  | cons {u : StringUnit} {us : List StringUnit} {a b : Bytes} :
      SpellsUnit u a → SpellsUnits us b → SpellsUnits (u :: us) (a ++ b)

/-- One decimal digit or more. -/
def IsDigits (b : Bytes) : Prop := b ≠ [] ∧ ∀ c ∈ b, isDigit c = true

instance (b : Bytes) : Decidable (IsDigits b) :=
  decidable_of_iff (b ≠ [] ∧ b.all isDigit = true) (and_congr_right fun _ => List.all_eq_true)

/-- The digits of a whole number, with no zero in front. -/
def IsWhole (b : Bytes) : Prop := b = [48] ∨ IsDigits b ∧ b.head? ≠ some 48

instance (b : Bytes) : Decidable (IsWhole b) :=
  inferInstanceAs (Decidable (_ ∨ _))

/-- The decimals of a number, which may be missing. -/
def IsFraction (b : Bytes) : Prop := b = [] ∨ ∃ digits, IsDigits digits ∧ b = 46 :: digits

/-- The exponent of a number, which may be missing. -/
def IsExponent (b : Bytes) : Prop :=
  b = [] ∨ ∃ letter sign digits, (letter = 101 ∨ letter = 69) ∧
    (sign = [] ∨ sign = [43] ∨ sign = [45]) ∧ IsDigits digits ∧ b = letter :: (sign ++ digits)

/-- How a number is written. -/
def IsNumber (b : Bytes) : Prop :=
  ∃ sign whole fraction exponent, (sign = [] ∨ sign = [45]) ∧ IsWhole whole ∧
    IsFraction fraction ∧ IsExponent exponent ∧ b = sign ++ (whole ++ (fraction ++ exponent))

/-- A key with its colon. -/
inductive SpellsKey : List StringUnit → Bytes → Prop
  | mk {us : List StringUnit} {w inner w' : Bytes} : Blank w → SpellsUnits us inner → Blank w' →
      SpellsKey us (w ++ 34 :: (inner ++ 34 :: (w' ++ [58])))

/-- What is spelled: a value, or one of the parts of a container. -/
inductive Phrase where
  | value (v : Value)
  /-- A value with white space around it. -/
  | item (v : Value)
  /-- What stands between the brackets of an array. -/
  | elements (vs : List Value)
  /-- What stands between the braces of an object. -/
  | members (ms : List (List StringUnit × Value))

/-- How values and their parts may be written. -/
inductive Spells : Phrase → Bytes → Prop
  | nullWord : Spells (.value .null) (Bytes.ofString "null")
  | trueWord : Spells (.value (.bool true)) (Bytes.ofString "true")
  | falseWord : Spells (.value (.bool false)) (Bytes.ofString "false")
  | number {b : Bytes} : IsNumber b → Spells (.value (.number b)) b
  | string {us : List StringUnit} {inner : Bytes} : SpellsUnits us inner →
      Spells (.value (.string us)) (34 :: (inner ++ [34]))
  | array {vs : List Value} {b : Bytes} : Spells (.elements vs) b →
      Spells (.value (.array vs)) (91 :: (b ++ [93]))
  | object {ms : List (List StringUnit × Value)} {b : Bytes} : Spells (.members ms) b →
      Spells (.value (.object ms)) (123 :: (b ++ [125]))
  | item {v : Value} {w b w' : Bytes} : Blank w → Spells (.value v) b → Blank w' →
      Spells (.item v) (w ++ (b ++ w'))
  | noElement {w : Bytes} : Blank w → Spells (.elements []) w
  | lastElement {v : Value} {b : Bytes} : Spells (.item v) b → Spells (.elements [v]) b
  | element {v u : Value} {vs : List Value} {b rest : Bytes} : Spells (.item v) b →
      Spells (.elements (u :: vs)) rest → Spells (.elements (v :: u :: vs)) (b ++ 44 :: rest)
  | noMember {w : Bytes} : Blank w → Spells (.members []) w
  | lastMember {k : List StringUnit} {v : Value} {a b : Bytes} : SpellsKey k a →
      Spells (.item v) b → Spells (.members [(k, v)]) (a ++ b)
  | member {k : List StringUnit} {v : Value} {e : List StringUnit × Value}
      {ms : List (List StringUnit × Value)} {a b rest : Bytes} : SpellsKey k a →
      Spells (.item v) b → Spells (.members (e :: ms)) rest →
      Spells (.members ((k, v) :: e :: ms)) (a ++ (b ++ 44 :: rest))

/-! ## White space -/

theorem skipBlank_append {w : Bytes} (h : Blank w) (b : Bytes) :
    skipBlank (w ++ b) = skipBlank b :=
  List.dropWhile_append_of_pos h

/-- What starts a value or a word, and no white space, is left as it is. -/
theorem skipBlank_cons {c : UInt8} (h : isBlank c = false) (rest : Bytes) :
    skipBlank (c :: rest) = c :: rest := by
  rw [skipBlank, List.dropWhile_cons, h, if_neg Bool.false_ne_true]

theorem skipBlank_eq_nil_iff {b : Bytes} : skipBlank b = [] ↔ Blank b := by
  rw [skipBlank, List.dropWhile_eq_nil_iff]
  rfl

/-! ## Strings -/

theorem unescape?_of_mem {c b : UInt8} (h : (c, b) ∈ letters) :
    unescape? c = some b ∧ c ≠ 117 := by
  have hall : letters.all fun e => unescape? e.1 = some e.2 ∧ e.1 ≠ 117 := by decide
  exact of_decide_eq_true (List.all_eq_true.1 hall _ h)

/-- A code is read as the number that its digits denote. -/
theorem readCode_eq_some_iff {a b c d : UInt8} {n : Nat} :
    readCode a b c d = some n ↔ Numeral.Spells 16 [a, b, c, d] n := by
  have hdigits (p q r s : Nat) : Nat.ofDigits 16 [p, q, r, s].reverse =
      ((p * 16 + q) * 16 + r) * 16 + s := by
    simp only [List.reverse_cons, List.reverse_nil, List.nil_append, List.cons_append,
      Nat.ofDigits_cons, Nat.ofDigits_nil]
    omega
  simp only [readCode, Option.bind_eq_bind, Option.bind_eq_some_iff, Option.pure_def,
    Option.some_inj]
  constructor
  · rintro ⟨p, hp, q, hq, r, hr, s, hs, rfl⟩
    exact ⟨List.cons_ne_nil _ _, [p, q, r, s], by simp [hp, hq, hr, hs], hdigits p q r s⟩
  · rintro ⟨-, ds, hds, rfl⟩
    rcases ds with _ | ⟨p, _ | ⟨q, _ | ⟨r, _ | ⟨s, _ | ⟨t, ds⟩⟩⟩⟩⟩ <;>
      simp only [List.map_cons, List.map_nil, List.cons.injEq, reduceCtorEq, and_false,
        and_true] at hds
    obtain ⟨hp, hq, hr, hs⟩ := hds
    exact ⟨p, hp, q, hq, r, hr, s, hs, (hdigits p q r s).symm⟩

/-- A string is passed over whatever its units make up. -/
theorem skipString_of_spells {us : List StringUnit} {inner : Bytes} (h : SpellsUnits us inner)
    (rest : Bytes) : skipString (inner ++ 34 :: rest) = some rest := by
  induction h with
  | nil => rw [List.nil_append, skipString]
  | cons hu _ ih =>
    rw [List.append_assoc]
    cases hu with
    | @plain b hplain hquote hbackslash =>
      rw [List.singleton_append, skipString, if_neg hplain, ih]
      · exact hquote
      · intro _ _ _ _ _ h
        exact absurd h hbackslash
      · intro _ _ h
        exact absurd h hbackslash
    | letter hletter =>
      obtain ⟨hbyte, hcode⟩ := unescape?_of_mem hletter
      rw [List.cons_append, List.singleton_append, skipString, hbyte, Option.isSome_some,
        if_pos rfl, ih]
      intro _ _ _ _ _ h
      exact absurd h hcode
    | code hcode =>
      simp only [List.cons_append, List.nil_append]
      rw [skipString, readCode_eq_some_iff.2 hcode, Option.isSome_some, if_pos rfl, ih]

/-- A unit that is no code does not start with the sign of one. -/
theorem SpellsUnits.not_code {us : List StringUnit} {inner : Bytes} (h : SpellsUnits us inner)
    (hus : ∀ n more, us ≠ .code n :: more) {rest tail : Bytes} :
    inner ++ 34 :: rest ≠ 92 :: 117 :: tail := by
  intro heq
  cases h with
  | nil => cases heq
  | cons hu _ =>
    cases hu with
    | plain _ _ hbackslash => exact hbackslash (List.cons.inj heq).1
    | letter hletter =>
      have hcode := (unescape?_of_mem hletter).2
      simp only [List.cons_append, List.nil_append, List.cons.injEq] at heq
      exact hcode heq.2.1
    | code _ => exact hus _ _ rfl

/-- What a unit makes up joins what was read before it. -/
theorem map_append_read (o : Option Bytes) (acc : List UInt8) (x rest : Bytes) :
    (o.map (x ++ ·)).map (fun b => (acc.reverse ++ b, rest)) =
      o.map fun b => ((x.reverse ++ acc).reverse ++ b, rest) := by
  rw [Option.map_map]
  congr 1
  funext b
  simp

/-- A string is read as the bytes that its units make up, if they do. -/
theorem readBody_of_spells {us : List StringUnit} {inner : Bytes} (h : SpellsUnits us inner)
    (acc : List UInt8) (rest : Bytes) :
    readBody acc (inner ++ 34 :: rest) =
      (bytesOf? us).map fun b => (acc.reverse ++ b, rest) := by
  -- The cases are those of `bytesOf?`, which takes two halves of a character together.
  fun_induction bytesOf? us generalizing inner acc with
  | case1 =>
    cases h
    rw [List.nil_append, readBody, Option.map_some, List.append_nil]
  | case2 b us ih =>
    obtain _ | ⟨hu, hus⟩ := h
    rw [List.append_assoc]
    refine Eq.trans ?_ ((ih hus (b :: acc)).trans (map_append_read _ acc [b] rest).symm)
    cases hu with
    | plain hplain hquote hbackslash =>
      exact readBody_cons hplain hquote hbackslash acc _
    | letter hletter =>
      obtain ⟨hletter, hcode⟩ := unescape?_of_mem hletter
      exact readBody_letter hletter hcode acc _
  | case3 n us hlow =>
    obtain _ | ⟨hu, hus⟩ := h
    obtain _ | _ | hcode := hu
    simp only [List.cons_append, List.nil_append]
    rw [readBody, readCode_eq_some_iff.2 hcode]
    simp only [hlow, if_true]
    rfl
  | case4 n hlow hhigh m us hlow' ih =>
    obtain _ | ⟨hu, _ | ⟨hu', hus⟩⟩ := h
    obtain _ | _ | hcode := hu
    obtain _ | _ | hcode' := hu'
    simp only [List.cons_append, List.nil_append]
    rw [readBody, readCode_eq_some_iff.2 hcode]
    simp only [hlow, hhigh, readCode_eq_some_iff.2 hcode', hlow', if_true]
    exact (ih hus _).trans (map_append_read _ acc _ rest).symm
  | case5 n hlow hhigh m us hlow' =>
    obtain _ | ⟨hu, _ | ⟨hu', hus⟩⟩ := h
    obtain _ | _ | hcode := hu
    obtain _ | _ | hcode' := hu'
    simp only [List.cons_append, List.nil_append]
    rw [readBody, readCode_eq_some_iff.2 hcode]
    simp only [hlow, hhigh, readCode_eq_some_iff.2 hcode', hlow', if_true]
    rfl
  | case6 n us hlow hhigh hno =>
    obtain _ | ⟨hu, hus⟩ := h
    obtain _ | _ | hcode := hu
    simp only [List.cons_append, List.nil_append]
    rw [readBody, readCode_eq_some_iff.2 hcode]
    simp only [hlow, hhigh, if_true, Bool.false_eq_true, if_false]
    -- A high half that no code follows: the reader must not find one either.
    split
    · rename_i heq
      exact absurd heq (hus.not_code hno)
    · rfl
  | case7 n us hlow hhigh ih =>
    obtain _ | ⟨hu, hus⟩ := h
    obtain _ | _ | hcode := hu
    simp only [List.cons_append, List.nil_append]
    rw [readBody, readCode_eq_some_iff.2 hcode]
    simp only [hlow, hhigh]
    exact (ih hus _).trans (map_append_read _ acc _ rest).symm

/-- A string is read as the text that its units make up, if they do. -/
theorem readString_of_spells {us : List StringUnit} {inner : Bytes} (h : SpellsUnits us inner)
    (rest : Bytes) :
    readString (34 :: (inner ++ 34 :: rest)) = (textOf? us).map fun s => (s, rest) := by
  rw [readString, readBody_of_spells h, textOf?]
  rcases bytesOf? us with _ | b <;> rfl

theorem textOf?_eq_some {us : List StringUnit} {s : String}
    (h : bytesOf? us = some (Bytes.ofString s)) : textOf? us = some s := by
  rw [textOf?, h, Option.bind_some, Bytes.text?_ofString]

/-! ## Strings as they are written -/

/-- The unit that a byte is written as: its code, if it is a control character without a letter. -/
def unitOf (b : UInt8) : StringUnit :=
  if b < 32 ∧ b ∉ letters.map (·.2) then .code b.toNat else .byte b

/-- The units that bytes are written as. -/
def unitsOf (b : Bytes) : List StringUnit := b.map unitOf

theorem spellsUnit_escape (b : UInt8) : SpellsUnit (unitOf b) (escape b) := by
  unfold escape
  -- Seven bytes have a letter of their own.
  iterate 7
    split
    · rename_i h
      subst h
      exact .letter (by decide)
  split
  · rename_i hcontrol
    obtain ⟨high, low, hescape, hread, -⟩ := escapeCode_eq hcontrol
    have hunit : unitOf b = .code b.toNat := by
      refine if_pos ⟨hcontrol, fun hmem => ?_⟩
      simp only [letters, List.map_cons, List.map_nil, List.mem_cons, List.not_mem_nil,
        or_false] at hmem
      rcases hmem with rfl | rfl | rfl | rfl | rfl | rfl | rfl | rfl <;> simp_all
    rw [hescape, hunit]
    exact .code (readCode_eq_some_iff.1 hread)
  · rename_i hquote hbackslash _ _ _ _ _ hplain
    rw [unitOf, if_neg fun h => hplain h.1]
    exact .plain hplain hquote hbackslash

theorem spellsUnits_escape (b : Bytes) : SpellsUnits (unitsOf b) (b.flatMap escape) := by
  induction b with
  | nil => exact .nil
  | cons c b ih => exact .cons (spellsUnit_escape c) ih

/-- The units of a byte make it up. -/
theorem bytesOf?_unitsOf (b : Bytes) : bytesOf? (unitsOf b) = some b := by
  induction b with
  | nil => rfl
  | cons c b ih =>
    rw [unitsOf, List.map_cons, unitOf]
    split
    · rename_i h
      have hsmall : c.toNat < 32 := h.1
      obtain ⟨_, _, -, -, hpoint, -⟩ := escapeCode_eq h.1
      have hlow : isLowHalf c.toNat = false := by
        rw [isLowHalf, decide_eq_false (by omega), Bool.false_and]
      have hhigh : isHighHalf c.toNat = false := by
        rw [isHighHalf, decide_eq_false (by omega), Bool.false_and]
      unfold bytesOf?
      simp only [hlow, hhigh, hpoint]
      exact congrArg (Option.map _) ih
    · exact congrArg (Option.map _) ih

theorem textOf?_unitsOf (b : Bytes) : textOf? (unitsOf b) = Bytes.text? b := by
  rw [textOf?, bytesOf?_unitsOf, Option.bind_some]

theorem textOf?_unitsOf_ofString (s : String) : textOf? (unitsOf (Bytes.ofString s)) = some s :=
  (textOf?_unitsOf _).trans (Bytes.text?_ofString s)

/-- A quoted string spells its bytes. -/
theorem spells_quote (b : Bytes) : Spells (.value (.string (unitsOf b))) (quote b) :=
  .string (spellsUnits_escape b)

theorem spellsKey_quote (b : Bytes) : SpellsKey (unitsOf b) (quote b ++ [58]) := by
  have hkey : SpellsKey (unitsOf b) ([] ++ 34 :: (b.flatMap escape ++ 34 :: ([] ++ [58]))) :=
    .mk nofun (spellsUnits_escape b) nofun
  rw [quote, List.append_assoc]
  exact hkey

/-- No white space is needed around a value. -/
theorem Spells.bare {v : Value} {b : Bytes} (h : Spells (.value v) b) : Spells (.item v) b := by
  have hitem : Spells (.item v) ([] ++ (b ++ [])) := .item nofun h nofun
  rwa [List.nil_append, List.append_nil] at hitem

/-! ## How values start -/

/-- The byte that a value starts with. -/
def Value.Opens : Value → UInt8 → Prop
  | .null, c => c = 110
  | .bool true, c => c = 116
  | .bool false, c => c = 102
  | .number _, c => c = 45 ∨ isDigit c = true
  | .string _, c => c = 34
  | .array _, c => c = 91
  | .object _, c => c = 123

/-- What is to hold of every byte can be decided number by number. -/
theorem forall_byte {P : UInt8 → Prop} (h : ∀ n < 256, P (UInt8.ofNat n)) (c : UInt8) : P c := by
  have hc := h c.toNat c.toNat_lt
  rwa [UInt8.ofNat_toNat] at hc

/-- A digit is neither white space nor the end of a container. -/
theorem sign_of_isDigit {c : UInt8} (h : isDigit c = true) :
    isBlank c = false ∧ c ≠ 93 ∧ c ≠ 125 := by
  have hall : ∀ c, isDigit c = true → isBlank c = false ∧ c ≠ 93 ∧ c ≠ 125 :=
    forall_byte (by decide +kernel)
  exact hall c h

/-- No value starts with white space or with the end of a container. -/
theorem Value.Opens.sign {v : Value} {c : UInt8} (h : v.Opens c) :
    isBlank c = false ∧ c ≠ 93 ∧ c ≠ 125 := by
  cases v with
  | number =>
    obtain rfl | hc := h
    · decide
    · exact sign_of_isDigit hc
  | bool b => cases b <;> cases h <;> decide
  | null | string | array | object =>
    cases h
    decide

theorem IsDigits.exists_cons {b : Bytes} (h : IsDigits b) :
    ∃ d ds, b = d :: ds ∧ isDigit d = true := by
  obtain ⟨d, ds, rfl⟩ := List.exists_cons_of_ne_nil h.1
  exact ⟨d, ds, rfl, h.2 d List.mem_cons_self⟩

theorem IsNumber.exists_cons {b : Bytes} (h : IsNumber b) :
    ∃ c tail, b = c :: tail ∧ (c = 45 ∨ isDigit c = true) := by
  obtain ⟨sign, whole, fraction, exponent, rfl | rfl, hwhole, -, -, rfl⟩ := h
  · rcases hwhole with rfl | ⟨hdigits, -⟩
    · exact ⟨48, _, rfl, Or.inr rfl⟩
    · obtain ⟨d, ds, rfl, hd⟩ := hdigits.exists_cons
      exact ⟨d, _, rfl, Or.inr hd⟩
  · exact ⟨45, _, rfl, Or.inl rfl⟩

theorem ofString_null : Bytes.ofString "null" = [110, 117, 108, 108] := by decide +kernel

theorem ofString_true : Bytes.ofString "true" = [116, 114, 117, 101] := by decide +kernel

theorem ofString_false : Bytes.ofString "false" = [102, 97, 108, 115, 101] := by decide +kernel

theorem Spells.exists_cons {v : Value} {b : Bytes} (h : Spells (.value v) b) :
    ∃ c tail, b = c :: tail ∧ v.Opens c := by
  cases h with
  | nullWord => exact ⟨_, _, ofString_null, rfl⟩
  | trueWord => exact ⟨_, _, ofString_true, rfl⟩
  | falseWord => exact ⟨_, _, ofString_false, rfl⟩
  | number h => exact h.exists_cons
  | string _ => exact ⟨_, _, rfl, rfl⟩
  | array _ => exact ⟨_, _, rfl, rfl⟩
  | object _ => exact ⟨_, _, rfl, rfl⟩

/-- A value is found after the white space in front of it. -/
theorem Spells.skipBlank_item {v : Value} {w b : Bytes} (hw : Blank w) (h : Spells (.value v) b)
    (rest : Bytes) : skipBlank (w ++ (b ++ rest)) = b ++ rest := by
  obtain ⟨c, tail, rfl, hc⟩ := h.exists_cons
  rw [skipBlank_append hw, List.cons_append, skipBlank_cons hc.sign.1]

/-- The first element of an array stands behind the white space that starts it. -/
theorem Spells.elements_opens {v : Value} {vs : List Value} {b : Bytes}
    (h : Spells (.elements (v :: vs)) b) (rest : Bytes) :
    ∃ w c tail, Blank w ∧ v.Opens c ∧ b ++ rest = w ++ c :: tail := by
  have hitem {a : Bytes} (h : Spells (.item v) a) (rest : Bytes) :
      ∃ w c tail, Blank w ∧ v.Opens c ∧ a ++ rest = w ++ c :: tail := by
    cases h with
    | item hw hv _ =>
      obtain ⟨c, tail, rfl, hc⟩ := hv.exists_cons
      exact ⟨_, c, _, hw, hc, by rw [List.append_assoc, List.cons_append, List.cons_append]⟩
  cases h with
  | lastElement h => exact hitem h rest
  | element h _ =>
    rw [List.append_assoc]
    exact hitem h _

/-- The first key of an object stands behind the white space that starts it. -/
theorem Spells.members_opens {m : List StringUnit × Value}
    {ms : List (List StringUnit × Value)} {b : Bytes} (h : Spells (.members (m :: ms)) b)
    (rest : Bytes) : ∃ w tail, Blank w ∧ b ++ rest = w ++ 34 :: tail := by
  have hkey {k : List StringUnit} {a : Bytes} (h : SpellsKey k a) (rest : Bytes) :
      ∃ w tail, Blank w ∧ a ++ rest = w ++ 34 :: tail := by
    obtain ⟨hw, -, -⟩ := h
    exact ⟨_, _, hw, by rw [List.append_assoc, List.cons_append]⟩
  cases h with
  | lastMember h _ =>
    rw [List.append_assoc]
    exact hkey h _
  | member h _ _ =>
    rw [List.append_assoc]
    exact hkey h _

end Json

end TopicRelay
