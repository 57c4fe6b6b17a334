import TopicRelay.Bytes

/-!
# Byte strings that are texts

A byte string is a text if it is the UTF-8 of some characters (`isUtf8_iff`). Texts can be put
together, and so can bytes of ASCII. A character is one byte of ASCII or has no such byte at all
(`utf8EncodeChar_cases`), so what is done to the bytes of ASCII alone leaves a text a text
(`IsUtf8.flatMap`).
-/

namespace TopicRelay.Bytes

/-- The bytes spell a text in UTF-8. -/
def IsUtf8 (b : Bytes) : Prop := (text? b).isSome = true

/-- A byte of ASCII. -/
def IsAscii (c : UInt8) : Prop := c < 128

instance (c : UInt8) : Decidable (IsAscii c) := inferInstanceAs (Decidable (c < 128))

theorem isUtf8_ofString (s : String) : IsUtf8 (ofString s) := by
  rw [IsUtf8, text?_ofString, Option.isSome_some]

theorem isUtf8_iff {b : Bytes} :
    IsUtf8 b ↔ ∃ cs : List Char, b = cs.flatMap String.utf8EncodeChar := by
  have hbytes (cs : List Char) :
      ofString (String.ofList cs) = cs.flatMap String.utf8EncodeChar := by
    show (cs.flatMap String.utf8EncodeChar).toByteArray.data.toList = _
    rw [List.data_toByteArray]
  constructor
  · intro h
    obtain ⟨s, hs⟩ := Option.isSome_iff_exists.1 h
    refine ⟨s.toList, ?_⟩
    rw [← hbytes, String.ofList_toList, ofString_of_text? hs]
  · rintro ⟨cs, rfl⟩
    rw [← hbytes]
    exact isUtf8_ofString _

theorem isUtf8_nil : IsUtf8 [] := isUtf8_iff.2 ⟨[], rfl⟩

theorem IsUtf8.append {a b : Bytes} (ha : IsUtf8 a) (hb : IsUtf8 b) : IsUtf8 (a ++ b) := by
  obtain ⟨cs, rfl⟩ := isUtf8_iff.1 ha
  obtain ⟨ds, rfl⟩ := isUtf8_iff.1 hb
  exact isUtf8_iff.2 ⟨cs ++ ds, List.flatMap_append.symm⟩

/-- A byte of ASCII is a character of its own. -/
theorem isUtf8_singleton {c : UInt8} (h : IsAscii c) : IsUtf8 [c] := by
  have hall : ∀ n < 128, String.utf8EncodeChar (Char.ofNat n) = [UInt8.ofNat n] := by
    decide +kernel
  refine isUtf8_iff.2 ⟨[Char.ofNat c.toNat], ?_⟩
  rw [List.flatMap_singleton, hall c.toNat h, UInt8.ofNat_toNat]

theorem isUtf8_of_isAscii {b : Bytes} (h : ∀ c ∈ b, IsAscii c) : IsUtf8 b := by
  induction b with
  | nil => exact isUtf8_nil
  | cons c b ih =>
    rw [List.forall_mem_cons] at h
    exact (isUtf8_singleton h.1).append (ih h.2)

theorem not_isAscii_ofNat {n : Nat} (hlarge : 128 ≤ n) (hbyte : n < 256) :
    ¬ IsAscii (UInt8.ofNat n) := by
  rw [IsAscii, UInt8.lt_iff_toNat_lt, UInt8.toNat_ofNat_of_lt' hbyte]
  exact Nat.not_lt.2 hlarge

/-- A character is one byte of ASCII, or it has none. -/
theorem utf8EncodeChar_cases (c : Char) :
    (∃ b, String.utf8EncodeChar c = [b] ∧ IsAscii b) ∨
      ∀ b ∈ String.utf8EncodeChar c, ¬ IsAscii b := by
  rw [String.utf8EncodeChar]
  split
  · rename_i hsmall
    refine Or.inl ⟨_, rfl, ?_⟩
    rw [IsAscii, UInt8.lt_iff_toNat_lt,
      UInt8.toNat_ofNat_of_lt' (Nat.lt_of_le_of_lt hsmall (by decide))]
    exact Nat.lt_succ_of_le hsmall
  · -- The first byte tells how many there are, and each of them has its highest bit set.
    right
    split
    case' isFalse => split
    all_goals
      simp only [List.forall_mem_cons, List.not_mem_nil, false_imp_iff, implies_true, and_true]
      and_intros
      all_goals exact not_isAscii_ofNat (by omega) (by omega)

/-- A text remains one if its bytes of ASCII are replaced by texts. -/
theorem IsUtf8.flatMap {b : Bytes} (hb : IsUtf8 b) {f : UInt8 → Bytes}
    (hascii : ∀ c, IsAscii c → IsUtf8 (f c)) (hother : ∀ c, ¬ IsAscii c → f c = [c]) :
    IsUtf8 (b.flatMap f) := by
  obtain ⟨cs, rfl⟩ := isUtf8_iff.1 hb
  rw [List.flatMap_assoc]
  induction cs with
  | nil => exact isUtf8_nil
  | cons c cs ih =>
    rw [List.flatMap_cons]
    refine IsUtf8.append ?_ (ih (isUtf8_iff.2 ⟨cs, rfl⟩))
    rcases utf8EncodeChar_cases c with ⟨x, hx, hsmall⟩ | hlarge
    · rw [hx, List.flatMap_singleton]
      exact hascii x hsmall
    · have hsame : (String.utf8EncodeChar c).flatMap f = String.utf8EncodeChar c := by
        rw [List.flatMap_def, List.map_congr_left fun x hx => hother x (hlarge x hx),
          ← List.flatMap_def, List.flatMap_singleton']
      rw [hsame]
      exact isUtf8_iff.2 ⟨[c], (List.flatMap_singleton ..).symm⟩

end TopicRelay.Bytes
