import TopicRelay.Framer
import Mathlib.Data.List.Infix
import Mathlib.Order.Basic
import Mathlib.Order.Nat

/-!
# Where a header block ends

A header block ends with the first terminator, at a place that depends on the bytes before it only:
more bytes change neither that it has ended nor where. While it is open a framer keeps the bytes
seen so far, and looks for the end at every byte that comes; the main statements are that it finds
the end wherever the bytes were cut (`scanHeader_of_endsAt`) and keeps them all as long as there is
none (`scanHeader_of_staysOpen`).
-/

namespace TopicRelay.Header

/-- The bytes hold no terminator. -/
def StaysOpen (b : Bytes) : Prop := ¬ terminator <:+: b

/-- The first terminator in `b` ends after `h` bytes. -/
def EndsAt (b : Bytes) (h : Nat) : Prop :=
  h ≤ b.length ∧ terminator <:+ b.take h ∧ ∀ k < h, ¬ terminator <:+ b.take k

theorem staysOpen_iff {b : Bytes} : StaysOpen b ↔ ∀ k, ¬ terminator <:+ b.take k := by
  rw [StaysOpen, List.infix_iff_suffix_prefix]
  constructor
  · intro h k hk
    exact h ⟨b.take k, hk, b.take_prefix k⟩
  · rintro h ⟨t, hsuffix, hpre⟩
    rw [List.prefix_iff_eq_take] at hpre
    rw [hpre] at hsuffix
    exact h _ hsuffix

theorem StaysOpen.of_append {b c : Bytes} (h : StaysOpen (b ++ c)) : StaysOpen b :=
  fun hb => h (hb.trans ⟨[], c, rfl⟩)

/-- A header block is open or has ended. -/
theorem staysOpen_or_endsAt (b : Bytes) : StaysOpen b ∨ ∃ h, EndsAt b h := by
  classical
  by_cases hex : ∃ k, terminator <:+ b.take k
  · -- The block ends with the first place at which a terminator does.
    refine Or.inr ⟨Nat.find hex, ?_, Nat.find_spec hex, fun k hk => Nat.find_min hex hk⟩
    by_contra hlt
    refine Nat.find_min hex (Nat.lt_of_not_le hlt) ?_
    have hspec := Nat.find_spec hex
    rw [List.take_of_length_le (by omega)] at hspec
    rwa [List.take_length]
  · exact Or.inl (staysOpen_iff.2 fun k hk => hex ⟨k, hk⟩)

namespace EndsAt

theorem not_staysOpen {b : Bytes} {h : Nat} (he : EndsAt b h) : ¬ StaysOpen b :=
  fun ho => staysOpen_iff.1 ho h he.2.1

theorem unique {b : Bytes} {h k : Nat} (hh : EndsAt b h) (hk : EndsAt b k) : h = k := by
  rcases Nat.lt_trichotomy h k with hlt | heq | hgt
  · exact absurd hh.2.1 (hk.2.2 h hlt)
  · exact heq
  · exact absurd hk.2.1 (hh.2.2 k hgt)

theorem four_le {b : Bytes} {h : Nat} (he : EndsAt b h) : 4 ≤ h := by
  have hlen := he.2.1.length_le
  rw [List.length_take] at hlen
  exact hlen.trans (Nat.min_le_left _ _)

/-- What ends stays ended when more bytes come. -/
theorem append {b : Bytes} {h : Nat} (he : EndsAt b h) (c : Bytes) : EndsAt (b ++ c) h := by
  obtain ⟨hle, hterm, hfirst⟩ := he
  refine ⟨by rw [List.length_append]; omega, ?_, fun k hk => ?_⟩
  · rwa [List.take_append_of_le_length hle]
  · rw [List.take_append_of_le_length (by omega)]
    exact hfirst k hk

/-- An end within the first bytes needs no others. -/
theorem of_append {b c : Bytes} {h : Nat} (he : EndsAt (b ++ c) h) (hle : h ≤ b.length) :
    EndsAt b h := by
  obtain ⟨-, hterm, hfirst⟩ := he
  rw [List.take_append_of_le_length hle] at hterm
  refine ⟨hle, hterm, fun k hk => ?_⟩
  have := hfirst k hk
  rwa [List.take_append_of_le_length (by omega)] at this

/-- Before its end the block is open. -/
theorem staysOpen_of_lt {b c : Bytes} {h : Nat} (he : EndsAt (b ++ c) h) (hlt : b.length < h) :
    StaysOpen b := by
  rw [staysOpen_iff]
  intro k hk
  rcases Nat.le_total k b.length with hkb | hkb
  · refine he.2.2 k (by omega) ?_
    rwa [List.take_append_of_le_length hkb]
  · rw [List.take_of_length_le hkb] at hk
    refine he.2.2 b.length hlt ?_
    rwa [List.take_left]

end EndsAt

/-- An open block ends only with bytes that come later. -/
theorem StaysOpen.lt {b c : Bytes} {h : Nat} (ho : StaysOpen b) (he : EndsAt (b ++ c) h) :
    b.length < h := by
  by_contra hlt
  exact (he.of_append (Nat.le_of_not_lt hlt)).not_staysOpen ho

end TopicRelay.Header

namespace TopicRelay.Framer

open Header

/-! ## The search of a framer -/

theorem isClosed_iff {seen : List UInt8} : isClosed seen ↔ terminator <:+ seen.reverse := by
  rw [isClosed, List.isPrefixOf_iff_prefix, ← List.reverse_prefix, List.reverse_reverse]

/-- Without a terminator all bytes are kept. -/
theorem scanHeader_of_staysOpen {seen : List UInt8} {bytes : Bytes}
    (h : StaysOpen (seen.reverse ++ bytes)) :
    scanHeader seen bytes = (bytes.reverse ++ seen, none) := by
  induction bytes generalizing seen with
  | nil => rfl
  | cons x rest ih =>
    have hsplit : seen.reverse ++ x :: rest = (x :: seen).reverse ++ rest := by simp
    rw [hsplit] at h
    have hopen : isClosed (x :: seen) = false := by
      rw [← Bool.not_eq_true, isClosed_iff]
      exact fun hc => h.of_append hc.isInfix
    rw [scanHeader, hopen, if_neg Bool.false_ne_true, ih h]
    simp

/-- The search stops at the first terminator, which may have begun among the bytes seen before. -/
theorem scanHeader_of_endsAt {seen : List UInt8} {bytes : Bytes} {h : Nat}
    (he : EndsAt (seen.reverse ++ bytes) h) (hlt : seen.length < h) :
    scanHeader seen bytes =
      (((seen.reverse ++ bytes).take h).reverse, some ((seen.reverse ++ bytes).drop h)) := by
  induction bytes generalizing seen with
  | nil =>
    have hle := he.1
    rw [List.append_nil, List.length_reverse] at hle
    omega
  | cons x rest ih =>
    have hsplit : seen.reverse ++ x :: rest = (x :: seen).reverse ++ rest := by simp
    have hlen : (x :: seen).reverse.length = seen.length + 1 := by simp
    rw [hsplit] at he ⊢
    rw [scanHeader]
    rcases Nat.lt_or_ge (seen.length + 1) h with hmore | hend
    · have hopen : isClosed (x :: seen) = false := by
        rw [← Bool.not_eq_true, isClosed_iff]
        exact fun hc => he.staysOpen_of_lt (by omega) hc.isInfix
      rw [hopen, if_neg Bool.false_ne_true]
      exact ih he (by rw [List.length_cons]; omega)
    · -- The byte that closes the block is the first with which a terminator ends.
      obtain rfl : h = (x :: seen).reverse.length := by omega
      have hclosed : isClosed (x :: seen) = true := by
        rw [isClosed_iff]
        simpa only [List.take_left] using he.2.1
      rw [hclosed, if_pos rfl, List.take_left, List.drop_left, List.reverse_reverse]

end TopicRelay.Framer
