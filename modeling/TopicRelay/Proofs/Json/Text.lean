import TopicRelay.Json.Text
import TopicRelay.Proofs.Text.Utf8

/-!
# Escapes

What may stand for a byte of a string, in the forms in which it is written (`escape_cases`) and in
those in which it is read. A line feed is always written by a letter, so that a quoted string never
breaks a line (`lf_not_mem_quote`). Only bytes of ASCII are escaped, and by such bytes, so that a
quoted text is a text (`isUtf8_quote`).
-/

namespace TopicRelay.Json

open Bytes (IsAscii IsUtf8 isUtf8_singleton isUtf8_of_isAscii)

/-- The code of a control character is its number. -/
theorem escapeCode_eq {b : UInt8} (h : b < 32) :
    ∃ high low, escapeCode b = [92, 117, 48, 48, high, low] ∧
      readCode 48 48 high low = some b.toNat ∧ encodePoint b.toNat = [b] ∧
      high ≠ Bytes.lf ∧ low ≠ Bytes.lf := by
  have hall : ∀ n < 32,
      let b := UInt8.ofNat n
      let high := (Nat.digitChar (b.toNat / 16)).val.toUInt8
      let low := (Nat.digitChar (b.toNat % 16)).val.toUInt8
      escapeCode b = [92, 117, 48, 48, high, low] ∧ readCode 48 48 high low = some b.toNat ∧
        encodePoint b.toNat = [b] ∧ high ≠ Bytes.lf ∧ low ≠ Bytes.lf := by
    decide +kernel
  have hb := hall b.toNat h
  rw [UInt8.ofNat_toNat] at hb
  exact ⟨_, _, hb⟩

/-- A byte is written by a letter, by its code, or as it is. -/
theorem escape_cases (b : UInt8) :
    (∃ letter, escape b = [92, letter] ∧ unescape? letter = some b ∧ letter ≠ 117 ∧
      letter ≠ Bytes.lf) ∨
    (b < 32 ∧ escape b = escapeCode b) ∨
    (escape b = [b] ∧ ¬ b < 32 ∧ b ≠ 34 ∧ b ≠ 92) := by
  unfold escape
  -- Seven bytes have a letter of their own.
  iterate 7
    split
    · rename_i h
      subst h
      exact Or.inl ⟨_, rfl, by decide, by decide, by decide⟩
  split
  · rename_i hcontrol
    exact Or.inr (Or.inl ⟨hcontrol, rfl⟩)
  · rename_i hquote hbackslash _ _ _ _ _ hplain
    exact Or.inr (Or.inr ⟨rfl, hplain, hquote, hbackslash⟩)

theorem readBody_cons {c : UInt8} (hplain : ¬ c < 32) (hquote : c ≠ 34) (hbackslash : c ≠ 92)
    (acc : List UInt8) (rest : Bytes) : readBody acc (c :: rest) = readBody (c :: acc) rest := by
  rw [readBody, if_neg hplain]
  · exact hquote
  · intro _ _ _ _ _ h
    exact absurd h hbackslash
  · intro _ _ h
    exact absurd h hbackslash

theorem readBody_letter {letter b : UInt8} (h : unescape? letter = some b) (hcode : letter ≠ 117)
    (acc : List UInt8) (rest : Bytes) :
    readBody acc (92 :: letter :: rest) = readBody (b :: acc) rest := by
  rw [readBody, h]
  intro _ _ _ _ _ hu
  exact absurd hu hcode

theorem lf_not_mem_escape (b : UInt8) : Bytes.lf ∉ escape b := by
  rcases escape_cases b with ⟨letter, heq, -, -, hne⟩ | ⟨hcontrol, heq⟩ | ⟨heq, hplain, -, -⟩
  · rw [heq, List.mem_cons, List.mem_singleton, not_or]
    exact ⟨by decide, Ne.symm hne⟩
  · obtain ⟨high, low, hescape, -, -, hhigh, hlow⟩ := escapeCode_eq hcontrol
    rw [heq, hescape]
    simp only [List.mem_cons, List.not_mem_nil, or_false, not_or]
    exact ⟨by decide, by decide, by decide, by decide, Ne.symm hhigh, Ne.symm hlow⟩
  · rw [heq, List.mem_singleton]
    rintro rfl
    exact hplain (by decide)

/-- A quoted string holds no line feed. -/
theorem lf_not_mem_quote (b : Bytes) : Bytes.lf ∉ quote b := by
  simp only [quote, List.cons_append, List.mem_cons, List.mem_append, List.mem_flatMap,
    List.not_mem_nil, or_false, not_or, not_exists, not_and]
  exact ⟨by decide, fun c _ => lf_not_mem_escape c, by decide⟩

theorem isAscii_of_mem_escape {c : UInt8} (h : IsAscii c) : ∀ x ∈ escape c, IsAscii x := by
  have hall : ∀ n < 128, ∀ x ∈ escape (UInt8.ofNat n), IsAscii x := by decide +kernel
  have hc := hall c.toNat h
  rwa [UInt8.ofNat_toNat] at hc

theorem escape_of_not_isAscii {c : UInt8} (h : ¬ IsAscii c) : escape c = [c] := by
  unfold escape
  iterate 7 rw [if_neg (by rintro rfl; exact h (by decide))]
  rw [if_neg fun hcontrol => h (UInt8.lt_trans hcontrol (by decide))]

/-- A quoted text is a text. -/
theorem isUtf8_quote {b : Bytes} (h : IsUtf8 b) : IsUtf8 (quote b) := by
  have hsign : IsUtf8 [34] := isUtf8_singleton (by decide)
  have hinner : IsUtf8 (b.flatMap escape) :=
    h.flatMap (fun _ hc => isUtf8_of_isAscii (isAscii_of_mem_escape hc))
      fun _ hc => escape_of_not_isAscii hc
  exact (hsign.append hinner).append hsign

end TopicRelay.Json
