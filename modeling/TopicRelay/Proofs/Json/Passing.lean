import TopicRelay.Proofs.Json.Value

/-!
# Every value is passed over

A reader that does not know a key passes over its value. `Spells.skipped` says what this does to
each phrase, by induction on how the phrase is spelled; the steps it takes are never more than the
bytes it is spelled with. So every value is passed over, whatever it holds and however deeply it is
nested (`Spells.skipValue`). Only a number needs to be told where it ends (`Delimits`).
-/

namespace TopicRelay

namespace Json

/-! ## Numbers -/

/-- No number goes on here. -/
def Delimits (rest : Bytes) : Prop :=
  ∀ c ∈ rest.head?, isDigit c = false ∧ c ≠ 46 ∧ c ≠ 101 ∧ c ≠ 69

theorem skipDigits_append {b rest : Bytes} (h : IsDigits b)
    (hrest : ∀ c ∈ rest.head?, isDigit c = false) : skipDigits (b ++ rest) = some rest := by
  obtain ⟨d, ds, rfl, hd⟩ := h.exists_cons
  have hds : ∀ c ∈ ds, isDigit c = true := fun c hc => h.2 c (List.mem_cons_of_mem d hc)
  rw [List.cons_append, skipDigits, if_pos hd, List.dropWhile_append_of_pos hds]
  cases rest with
  | nil => rfl
  | cons c rest => rw [List.dropWhile_cons_of_neg (by simp [hrest c rfl])]

/-- Neither decimals nor an exponent start with a digit. -/
theorem IsExponent.head {b rest : Bytes} (h : IsExponent b) (hrest : Delimits rest) :
    ∀ c ∈ (b ++ rest).head?, isDigit c = false ∧ c ≠ 46 := by
  rcases h with rfl | ⟨letter, sign, digits, hletter, -, -, rfl⟩
  · exact fun c hc => ⟨(hrest c hc).1, (hrest c hc).2.1⟩
  · rintro c hc
    obtain rfl : letter = c := Option.some.inj hc
    rcases hletter with rfl | rfl <;> decide

theorem skipExponent_append {b rest : Bytes} (h : IsExponent b) (hrest : Delimits rest) :
    skipExponent (b ++ rest) = some rest := by
  rcases h with rfl | ⟨letter, sign, digits, hletter, hsign, hdigits, rfl⟩
  · cases rest with
    | nil => rfl
    | cons c rest =>
      unfold skipExponent
      rw [List.nil_append]
      exact if_neg (not_or.2 (hrest c rfl).2.2)
  · have hskip := skipDigits_append hdigits fun c hc => (hrest c hc).1
    rw [List.cons_append, List.append_assoc]
    rcases hsign with rfl | rfl | rfl
    · -- the sign is missing, and a digit is none
      obtain ⟨d, ds, rfl, hd⟩ := hdigits.exists_cons
      rw [List.nil_append, skipExponent, if_pos hletter, hskip]
      all_goals
        intro _ hmore
        rw [(List.cons.inj hmore).1] at hd
        exact absurd hd (by decide)
    · exact (if_pos hletter).trans hskip
    · exact (if_pos hletter).trans hskip

theorem skipFraction_append {b e rest : Bytes} (h : IsFraction b) (he : IsExponent e)
    (hrest : Delimits rest) : skipFraction (b ++ (e ++ rest)) = some rest := by
  have hhead := he.head hrest
  have hskip := skipExponent_append he hrest
  rcases h with rfl | ⟨digits, hdigits, rfl⟩
  · rw [List.nil_append, skipFraction, hskip]
    intro more hmore
    rw [hmore] at hhead
    exact (hhead 46 rfl).2 rfl
  · rw [List.cons_append, skipFraction,
      skipDigits_append hdigits fun c hc => (hhead c hc).1, Option.bind_some, hskip]

/-- The decimals and the exponent do not go on with the digits in front of them. -/
theorem IsFraction.head {b e rest : Bytes} (h : IsFraction b) (he : IsExponent e)
    (hrest : Delimits rest) : ∀ c ∈ (b ++ (e ++ rest)).head?, isDigit c = false := by
  rcases h with rfl | ⟨digits, -, rfl⟩
  · exact fun c hc => (he.head hrest c hc).1
  · rintro c ⟨⟩
    decide

/-- A number that nothing continues is passed over. -/
theorem skipNumber_append {b rest : Bytes} (h : IsNumber b) (hrest : Delimits rest) :
    skipNumber (b ++ rest) = some rest := by
  obtain ⟨sign, whole, fraction, exponent, hsign, hwhole, hfraction, hexponent, rfl⟩ := h
  have hskip := skipFraction_append hfraction hexponent hrest
  have hhead := hfraction.head hexponent hrest
  have hunsigned : skipUnsigned (whole ++ (fraction ++ (exponent ++ rest))) = some rest := by
    rcases hwhole with rfl | ⟨hdigits, hzero⟩
    · exact hskip
    · obtain ⟨d, ds, rfl, -⟩ := hdigits.exists_cons
      rw [skipUnsigned, skipDigits_append hdigits hhead, Option.bind_some, hskip]
      intro more hmore
      exact hzero (congrArg some (List.cons.inj hmore).1)
  simp only [List.append_assoc]
  rcases hsign with rfl | rfl
  · rw [List.nil_append, skipNumber, hunsigned]
    intro more hmore
    rcases hwhole with rfl | ⟨hdigits, -⟩
    · cases hmore
    · obtain ⟨d, ds, rfl, hd⟩ := hdigits.exists_cons
      rw [(List.cons.inj hmore).1] at hd
      exact absurd hd (by decide)
  · exact hunsigned

/-! ## Passing over values -/

theorem skipFrom_value {fuel : Nat} {brackets brackets' : List Bracket} {want : Want}
    {b rest : Bytes} (h : step .value brackets b = some (want, brackets', rest)) :
    skipFrom (fuel + 1) .value brackets b = skipFrom fuel want brackets' rest := by
  rw [skipFrom, h]
  intro hwant
  cases hwant

theorem skipFrom_next {fuel : Nat} {bracket : Bracket} {outer brackets : List Bracket} {want : Want}
    {b rest : Bytes} (h : step .next (bracket :: outer) b = some (want, brackets, rest)) :
    skipFrom (fuel + 1) .next (bracket :: outer) b = skipFrom fuel want brackets rest := by
  rw [skipFrom, h]
  intro _ hbrackets
  cases hbrackets

theorem skipScalar_word {b rest : Bytes}
    (h : b = Bytes.ofString "null" ∨ b = Bytes.ofString "true" ∨ b = Bytes.ofString "false") :
    skipScalar (b ++ rest) = some rest := by
  rcases h with rfl | rfl | rfl
  · simp [skipScalar, skipWord, ofString_null, Bytes.after?]
  · simp [skipScalar, skipWord, ofString_null, ofString_true, Bytes.after?]
  · simp [skipScalar, skipWord, ofString_null, ofString_true, ofString_false, Bytes.after?]

/-- A number is none of the words. -/
theorem skipScalar_number {b rest : Bytes} (h : IsNumber b) (hrest : Delimits rest) :
    skipScalar (b ++ rest) = some rest := by
  have hskip := skipNumber_append h hrest
  obtain ⟨c, tail, rfl, hc⟩ := h.exists_cons
  have hc' : c ≠ 34 ∧ c ≠ 110 ∧ c ≠ 116 ∧ c ≠ 102 := by
    refine ⟨?_, ?_, ?_, ?_⟩ <;> rintro rfl <;> exact absurd hc (by decide)
  have hword : skipWord (c :: (tail ++ rest)) = none := by
    simp [skipWord, ofString_null, ofString_true, ofString_false, Bytes.after?, hc'.2.1.symm,
      hc'.2.2.1.symm, hc'.2.2.2.symm]
  rw [List.cons_append] at *
  rw [skipScalar, hword]
  · exact hskip
  · exact fun _ h => hc'.1 (List.cons.inj h).1

theorem step_scalar {c : UInt8} {b rest : Bytes} (hblank : isBlank c = false) (harray : c ≠ 91)
    (hobject : c ≠ 123) (h : skipScalar (c :: b) = some rest) (brackets : List Bracket) :
    step .value brackets (c :: b) = some (.next, brackets, rest) := by
  unfold step
  rw [skipBlank_cons hblank]
  split
  all_goals rename_i heq
  · exact absurd (List.cons.inj heq).1 harray
  · exact absurd (List.cons.inj heq).1 hobject
  all_goals simp_all

theorem step_blank {w : Bytes} (h : Blank w) (want : Want) (brackets : List Bracket) (b : Bytes) :
    step want brackets (w ++ b) = step want brackets b := by
  unfold step
  rw [skipBlank_append h]

/-- White space makes no difference while there is something to come. -/
theorem skipFrom_blank {w : Bytes} (h : Blank w) {want : Want} {brackets : List Bracket}
    (hmore : want = .value ∨ brackets ≠ []) (fuel : Nat) (b : Bytes) :
    skipFrom fuel want brackets (w ++ b) = skipFrom fuel want brackets b := by
  rcases fuel with _ | fuel <;> rcases want with _ | _ <;>
    rcases brackets with _ | ⟨k, brackets⟩ <;> simp_all [skipFrom, step_blank h]

theorem skipKey_append {us : List StringUnit} {a : Bytes} (h : SpellsKey us a) (rest : Bytes) :
    skipKey (a ++ rest) = some rest := by
  obtain ⟨hw, hus, hw'⟩ := h
  simp only [List.append_assoc, List.cons_append, List.nil_append]
  rw [skipKey, skipBlank_append hw, skipBlank_cons rfl]
  simp only [skipString_of_spells hus, skipBlank_append hw']
  rfl

/-- A comma or a bracket ends what stands in front of it. -/
def IsEnd (c : UInt8) : Prop := c = 44 ∨ c = 93 ∨ c = 125

theorem IsEnd.delimits {c : UInt8} (h : IsEnd c) {w : Bytes} (hw : Blank w) (rest : Bytes) :
    Delimits (w ++ c :: rest) := by
  have hblank : ∀ x, isBlank x = true → isDigit x = false ∧ x ≠ 46 ∧ x ≠ 101 ∧ x ≠ 69 :=
    forall_byte (by decide +kernel)
  intro d hd
  cases w with
  | nil =>
    obtain rfl : c = d := Option.some.inj hd
    rcases h with rfl | rfl | rfl <;> decide
  | cons x w =>
    obtain rfl : x = d := Option.some.inj hd
    exact hblank x (hw x List.mem_cons_self)

/-- How a phrase is passed over: in how many steps, and what is left then. The end of a container
belongs to its elements or members, and the first key of an object to the step that opens it. -/
def Phrase.Skipped (b : Bytes) : Phrase → Prop
  | .value _ => ∃ n ≤ b.length, ∀ fuel brackets rest, Delimits rest →
      skipFrom (fuel + n) .value brackets (b ++ rest) = skipFrom fuel .next brackets rest
  | .item _ => ∃ n ≤ b.length, ∀ fuel bracket outer c rest, IsEnd c →
      skipFrom (fuel + n) .value (bracket :: outer) (b ++ c :: rest) =
        skipFrom fuel .next (bracket :: outer) (c :: rest)
  | .elements vs => vs ≠ [] → ∃ n ≤ b.length + 1, ∀ fuel outer rest,
      skipFrom (fuel + n) .value (.array :: outer) (b ++ 93 :: rest) =
        skipFrom fuel .next outer rest
  | .members ms => ms ≠ [] → ∃ a tail n, b = a ++ tail ∧ n ≤ tail.length + 1 ∧
      (∀ rest, skipKey (b ++ rest) = some (tail ++ rest)) ∧
      ∀ fuel outer rest, skipFrom (fuel + n) .value (.object :: outer) (tail ++ 125 :: rest) =
        skipFrom fuel .next outer rest

namespace Phrase

theorem skipped_scalar {v : Value} {b : Bytes} (h : Spells (.value v) b)
    (hscalar : ∀ c, v.Opens c → c ≠ 91 ∧ c ≠ 123)
    (hskip : ∀ rest, Delimits rest → skipScalar (b ++ rest) = some rest) :
    (value v).Skipped b := by
  obtain ⟨c, tail, rfl, hc⟩ := h.exists_cons
  obtain ⟨harray, hobject⟩ := hscalar c hc
  exact ⟨1, Nat.le_add_left 1 _, fun fuel brackets rest hrest =>
    skipFrom_value (step_scalar hc.sign.1 harray hobject (hskip rest hrest) brackets)⟩

theorem skipped_item {v : Value} {w b w' : Bytes} (hw : Blank w) (h : (value v).Skipped b)
    (hw' : Blank w') : (item v).Skipped (w ++ (b ++ w')) := by
  obtain ⟨n, hn, hsteps⟩ := h
  refine ⟨n, by simp only [List.length_append]; omega, fun fuel bracket outer c rest hc => ?_⟩
  simp only [List.append_assoc]
  -- If the value is a number, the white space or the sign behind it ends it.
  rw [skipFrom_blank hw (Or.inl rfl), hsteps _ _ _ (hc.delimits hw' rest),
    skipFrom_blank hw' (Or.inr (List.cons_ne_nil _ _))]

theorem skipped_lastElement {v : Value} {b : Bytes} (h : (item v).Skipped b) :
    (elements [v]).Skipped b := by
  obtain ⟨n, hn, hsteps⟩ := h
  refine fun _ => ⟨1 + n, by omega, fun fuel outer rest => ?_⟩
  rw [← Nat.add_assoc, hsteps _ _ _ _ _ (Or.inr (Or.inl rfl))]
  exact skipFrom_next rfl

theorem skipped_element {v u : Value} {vs : List Value} {b more : Bytes} (h : (item v).Skipped b)
    (hmore : (elements (u :: vs)).Skipped more) :
    (elements (v :: u :: vs)).Skipped (b ++ 44 :: more) := by
  obtain ⟨n, hn, hsteps⟩ := h
  obtain ⟨m, hm, hrest⟩ := hmore (List.cons_ne_nil _ _)
  refine fun _ => ⟨m + 1 + n, ?_, fun fuel outer rest => ?_⟩
  · rw [List.length_append, List.length_cons]
    omega
  · rw [← Nat.add_assoc, ← Nat.add_assoc, List.append_assoc, List.cons_append,
      hsteps _ _ _ _ _ (Or.inl rfl)]
    exact (skipFrom_next rfl).trans (hrest fuel outer rest)

theorem skipped_lastMember {k : List StringUnit} {v : Value} {a b : Bytes} (hk : SpellsKey k a)
    (h : (item v).Skipped b) : (members [(k, v)]).Skipped (a ++ b) := by
  obtain ⟨n, hn, hsteps⟩ := h
  refine fun _ => ⟨a, b, 1 + n, rfl, by omega, fun rest => ?_, fun fuel outer rest => ?_⟩
  · rw [List.append_assoc, skipKey_append hk]
  · rw [← Nat.add_assoc, hsteps _ _ _ _ _ (Or.inr (Or.inr rfl))]
    exact skipFrom_next rfl

theorem skipped_member {k : List StringUnit} {v : Value} {e : List StringUnit × Value}
    {ms : List (List StringUnit × Value)} {a b more : Bytes} (hk : SpellsKey k a)
    (h : (item v).Skipped b) (hmore : (members (e :: ms)).Skipped more) :
    (members ((k, v) :: e :: ms)).Skipped (a ++ (b ++ 44 :: more)) := by
  obtain ⟨n, hn, hsteps⟩ := h
  obtain ⟨a', tail, m, rfl, hm, hkey, hrest⟩ := hmore (List.cons_ne_nil _ _)
  refine fun _ => ⟨a, _, m + 1 + n, rfl, ?_, fun rest => ?_, fun fuel outer rest => ?_⟩
  · simp only [List.length_append, List.length_cons]
    omega
  · rw [List.append_assoc, skipKey_append hk]
  · -- the comma takes the next key with it
    have hcomma : step .next (.object :: outer) (44 :: (a' ++ tail ++ 125 :: rest)) =
        some (.value, .object :: outer, tail ++ 125 :: rest) := by
      show (skipKey (a' ++ tail ++ 125 :: rest)).map _ = _
      rw [hkey, Option.map_some]
    rw [← Nat.add_assoc, ← Nat.add_assoc, List.append_assoc, List.cons_append,
      hsteps _ _ _ _ _ (Or.inl rfl)]
    exact (skipFrom_next hcomma).trans (hrest fuel outer rest)

theorem skipped_array {vs : List Value} {b : Bytes} (hb : Spells (.elements vs) b)
    (h : (elements vs).Skipped b) : (value (.array vs)).Skipped (91 :: (b ++ [93])) := by
  rcases vs with _ | ⟨v, vs⟩
  · cases hb with
    | noElement hw =>
      refine ⟨1, Nat.le_add_left 1 _, fun fuel brackets rest _ => skipFrom_value ?_⟩
      unfold step
      simp only [List.cons_append, List.append_assoc, List.nil_append, skipBlank_append hw,
        skipBlank_cons (c := 91) rfl, skipBlank_cons (c := 93) rfl]
  · obtain ⟨n, hn, hsteps⟩ := h (List.cons_ne_nil _ _)
    refine ⟨n + 1, ?_, fun fuel brackets rest _ => ?_⟩
    · simp only [List.length_cons, List.length_append, List.length_nil]
      omega
    · -- No value starts with the bracket, so the array is not taken for one without elements.
      obtain ⟨w, c, tail, hw, hc, hopens⟩ := hb.elements_opens (93 :: rest)
      have hstep : step .value brackets (91 :: (b ++ 93 :: rest)) =
          some (.value, .array :: brackets, c :: tail) := by
        unfold step
        rw [skipBlank_cons rfl]
        simp only [hopens, skipBlank_append hw, skipBlank_cons hc.sign.1]
        split
        · rename_i heq
          exact absurd (List.cons.inj heq).1 hc.sign.2.1
        · rfl
      rw [← Nat.add_assoc, List.cons_append, List.append_assoc, List.singleton_append,
        skipFrom_value hstep, ← hsteps fuel brackets rest, hopens, skipFrom_blank hw (Or.inl rfl)]

theorem skipped_object {ms : List (List StringUnit × Value)} {b : Bytes}
    (hb : Spells (.members ms) b) (h : (members ms).Skipped b) :
    (value (.object ms)).Skipped (123 :: (b ++ [125])) := by
  rcases ms with _ | ⟨m, ms⟩
  · cases hb with
    | noMember hw =>
      refine ⟨1, Nat.le_add_left 1 _, fun fuel brackets rest _ => skipFrom_value ?_⟩
      unfold step
      simp only [List.cons_append, List.append_assoc, List.nil_append, skipBlank_append hw,
        skipBlank_cons (c := 123) rfl, skipBlank_cons (c := 125) rfl]
  · obtain ⟨a, tail, n, rfl, hn, hkey, hsteps⟩ := h (List.cons_ne_nil _ _)
    refine ⟨n + 1, ?_, fun fuel brackets rest _ => ?_⟩
    · simp only [List.length_cons, List.length_append, List.length_nil]
      omega
    · -- The step that opens the object takes its first key too.
      obtain ⟨w, more, hw, hopens⟩ := hb.members_opens (125 :: rest)
      have hkey' : skipKey (34 :: more) = some (tail ++ 125 :: rest) := by
        rw [← hkey, hopens, skipKey, skipKey, skipBlank_append hw]
      have hstep : step .value brackets (123 :: (a ++ tail ++ 125 :: rest)) =
          some (.value, .object :: brackets, tail ++ 125 :: rest) := by
        unfold step
        rw [skipBlank_cons rfl]
        simp only [hopens, skipBlank_append hw, skipBlank_cons (c := 34) rfl]
        show (skipKey (34 :: more)).map _ = _
        rw [hkey', Option.map_some]
      rw [← Nat.add_assoc, List.cons_append, List.append_assoc, List.singleton_append,
        skipFrom_value hstep, hsteps]

end Phrase

/-- Every phrase is passed over. -/
theorem Spells.skipped {p : Phrase} {b : Bytes} (h : Spells p b) : p.Skipped b := by
  have hword {v : Value} {b : Bytes} (h : Spells (.value v) b)
      (hscalar : ∀ c, v.Opens c → c ≠ 91 ∧ c ≠ 123)
      (hb : b = Bytes.ofString "null" ∨ b = Bytes.ofString "true" ∨ b = Bytes.ofString "false") :
      (Phrase.value v).Skipped b :=
    Phrase.skipped_scalar h hscalar fun _ _ => skipScalar_word hb
  induction h with
  | nullWord => exact hword .nullWord (by rintro _ rfl; decide) (Or.inl rfl)
  | trueWord => exact hword .trueWord (by rintro _ rfl; decide) (Or.inr (Or.inl rfl))
  | falseWord => exact hword .falseWord (by rintro _ rfl; decide) (Or.inr (Or.inr rfl))
  | number h =>
    refine Phrase.skipped_scalar (.number h) (fun c hc => ?_) fun _ => skipScalar_number h
    obtain rfl | hc := hc
    · decide
    · constructor <;> rintro rfl <;> exact absurd hc (by decide)
  | string h =>
    refine Phrase.skipped_scalar (.string h) (by rintro _ rfl; decide) fun rest _ => ?_
    rw [List.cons_append, List.append_assoc, skipScalar]
    exact skipString_of_spells h rest
  | array h ih => exact Phrase.skipped_array h ih
  | object h ih => exact Phrase.skipped_object h ih
  | item hw _ hw' ih => exact Phrase.skipped_item hw ih hw'
  | noElement _ => exact fun h => absurd rfl h
  | lastElement _ ih => exact Phrase.skipped_lastElement ih
  | element _ _ ih ih' => exact Phrase.skipped_element ih ih'
  | noMember _ => exact fun h => absurd rfl h
  | lastMember hk _ ih => exact Phrase.skipped_lastMember hk ih
  | member hk _ _ ih ih' => exact Phrase.skipped_member hk ih ih'

/-- A value is passed over, with the white space in front of it, unless a number goes on after
it. -/
theorem Spells.skipValue {v : Value} {w b rest : Bytes} (hw : Blank w)
    (h : Spells (.value v) b) (hrest : Delimits rest) :
    Json.skipValue (w ++ (b ++ rest)) = some rest := by
  obtain ⟨n, hn, hsteps⟩ := h.skipped
  have hfuel : (w ++ (b ++ rest)).length + 1 = (w ++ (b ++ rest)).length + 1 - n + n := by
    simp only [List.length_append]
    omega
  rw [Json.skipValue, hfuel, skipFrom_blank hw (Or.inl rfl), hsteps _ _ _ hrest, skipFrom]

end Json

end TopicRelay
