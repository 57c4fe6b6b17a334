import TopicRelay.Numeral
import Mathlib.Data.Nat.Digits.Defs

/-!
# What numerals denote

A numeral denotes the number that its digits have in its radix, the first digit being the highest;
one `+` may stand in front. The main statement is `read_eq_ok_iff`: reading accepts exactly the
numerals of numbers below the bound, however many zeros they start with, and gives that number.
-/

namespace TopicRelay.Numeral

/-- The text consists of digits of `radix`, at least one of them, and their value is `n`. -/
def Spells (radix : Nat) (text : Bytes) (n : Nat) : Prop :=
  text ≠ [] ∧ ∃ ds : List Nat,
    text.map (digit? radix) = ds.map some ∧ Nat.ofDigits radix ds.reverse = n

/-- The text is a numeral for `n`: digits of `radix`, after at most one `+`. -/
def Denotes (radix : Nat) (text : Bytes) (n : Nat) : Prop :=
  Spells radix text n ∨ ∃ digits, text = 43 :: digits ∧ Spells radix digits n

theorem digit?_lt {radix d : Nat} {b : UInt8} (h : digit? radix b = some d) : d < radix := by
  rw [digit?, Option.filter_eq_some_iff] at h
  simpa using h.2

theorem digit?_plus (radix : Nat) : digit? radix 43 = none := rfl

/-- Reading digits after the number `acc` appends them to its own digits. The bound is checked at
every digit, which comes to the same as checking it once, because the number only grows. -/
theorem readDigits_eq_ok_iff {radix bound acc n : Nat} {text : Bytes} :
    readDigits radix bound acc text = .ok n ↔
      ∃ ds : List Nat, text.map (digit? radix) = ds.map some ∧
        acc * radix ^ ds.length + Nat.ofDigits radix ds.reverse = n ∧ (text = [] ∨ n < bound) := by
  induction text generalizing acc with
  | nil =>
    constructor
    · intro h
      cases h
      exact ⟨[], rfl, by simp, Or.inl rfl⟩
    · rintro ⟨ds, hds, rfl, -⟩
      obtain rfl : ds = [] := by simpa using hds.symm
      simp [readDigits]
  | cons b rest ih =>
    rw [readDigits]
    rcases hd : digit? radix b with _ | d
    · constructor
      · intro h
        cases h
      · rintro ⟨_ | ⟨d, ds⟩, hds, -⟩ <;> simp [hd] at hds
    · have hlt : d < radix := digit?_lt hd
      -- the value of `acc` followed by the digit `d` and the digits `ds`, grouped in two ways
      have hsum (ds : List Nat) :
          (acc * radix + d) * radix ^ ds.length + Nat.ofDigits radix ds.reverse =
            acc * radix ^ (d :: ds).length + Nat.ofDigits radix (d :: ds).reverse := by
        rw [Nat.ofDigits_reverse_cons, List.length_cons]
        ring
      simp only
      split
      · rename_i hb
        rw [ih]
        constructor
        · rintro ⟨ds, hds, hn, hbound⟩
          refine ⟨d :: ds, by simp [hd, hds], by rw [← hsum, hn], Or.inr ?_⟩
          rcases hbound with rfl | h
          · obtain rfl : ds = [] := by simpa using hds.symm
            simp at hn
            omega
          · exact h
        · rintro ⟨_ | ⟨e, ds⟩, hds, hn, hbound⟩
          · simp at hds
          · obtain ⟨rfl, hrest⟩ : d = e ∧ rest.map (digit? radix) = ds.map some := by
              simpa [hd] using hds
            exact ⟨ds, hrest, by rw [hsum, hn], Or.inr (by simpa using hbound)⟩
      · -- The bound was passed here, and the digits to come only add to the number.
        rename_i hb
        constructor
        · intro h
          cases h
        · rintro ⟨_ | ⟨e, ds⟩, hds, hn, hbound⟩
          · simp at hds
          · obtain ⟨rfl, -⟩ : d = e ∧ rest.map (digit? radix) = ds.map some := by
              simpa [hd] using hds
            have hpow : 1 ≤ radix ^ ds.length := Nat.one_le_pow _ _ (by omega)
            have hge : acc * radix + d ≤ n := by
              rw [← hn, ← hsum]
              exact Nat.le_add_right_of_le (Nat.le_mul_of_pos_right _ hpow)
            have : n < bound := by simpa using hbound
            omega

/-- Digits read from the start are accepted when their value is below the bound. -/
theorem readDigits_zero_eq_ok_iff {radix bound n : Nat} {text : Bytes} (h : text ≠ []) :
    readDigits radix bound 0 text = .ok n ↔ Spells radix text n ∧ n < bound := by
  rw [readDigits_eq_ok_iff, Spells]
  simp only [h, Nat.zero_mul, Nat.zero_add, false_or, ne_eq, not_false_eq_true, true_and]
  constructor
  · rintro ⟨ds, hds, hn, hb⟩
    exact ⟨⟨ds, hds, hn⟩, hb⟩
  · rintro ⟨⟨ds, hds, hn⟩, hb⟩
    exact ⟨ds, hds, hn, hb⟩

theorem toOption_readDigits_eq_some_iff {radix bound n : Nat} {text : Bytes} (h : text ≠ []) :
    (readDigits radix bound 0 text).toOption = some n ↔ Spells radix text n ∧ n < bound := by
  rw [← readDigits_zero_eq_ok_iff h]
  rcases readDigits radix bound 0 text with e | m <;> simp [Except.toOption]

theorem not_spells_plus {radix n : Nat} {digits : Bytes} : ¬ Spells radix (43 :: digits) n := by
  rintro ⟨-, _ | ⟨d, ds⟩, hds, -⟩ <;> simp [digit?_plus] at hds

/-- Reading accepts exactly the numerals of numbers below the bound. -/
theorem read_eq_ok_iff {radix bound n : Nat} {text : Bytes} :
    read radix bound text = .ok n ↔ Denotes radix text n ∧ n < bound := by
  rcases text with _ | ⟨b, rest⟩
  · simp [read, Denotes, Spells]
  · rw [read]
    split
    · rename_i h
      obtain ⟨rfl, hrest⟩ := h
      rw [readDigits_zero_eq_ok_iff hrest, Denotes]
      simp [not_spells_plus]
    · rename_i h
      rw [readDigits_zero_eq_ok_iff (List.cons_ne_nil b rest), Denotes]
      refine and_congr_left fun _ => ⟨Or.inl, ?_⟩
      rintro (hs | ⟨digits, he, hs⟩)
      · exact hs
      · cases he
        exact absurd ⟨rfl, hs.1⟩ h

theorem toOption_read_eq_some_iff {radix bound n : Nat} {text : Bytes} :
    (read radix bound text).toOption = some n ↔ Denotes radix text n ∧ n < bound := by
  rw [← read_eq_ok_iff]
  rcases read radix bound text with e | m <;> simp [Except.toOption]

end TopicRelay.Numeral
