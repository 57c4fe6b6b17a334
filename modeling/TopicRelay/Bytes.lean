/-!
# Byte strings

Everything that crosses the relay's borders is a byte string: request and response bytes, lines of
the bus, configuration files. A byte string is a `List UInt8`, so that scanners are recursions over
the list and their laws are inductions over it.

The module holds the few operations that the formats share: the passage to and from text, the ASCII
white space that the formats trim, and the division into lines.
-/

namespace TopicRelay

/-- A byte string, first byte first. -/
abbrev Bytes := List UInt8

namespace Bytes

/-- Line feed, the byte that ends a line. -/
def lf : UInt8 := 10

/-- Carriage return, which may stand before a line feed. -/
def cr : UInt8 := 13

/-- The UTF-8 bytes of a text. -/
def ofString (s : String) : Bytes := s.toUTF8.data.toList

/-- The text that the bytes spell in UTF-8, if they do. -/
def text? (b : Bytes) : Option String := String.fromUTF8? ⟨b.toArray⟩

theorem text?_ofString (s : String) : text? (ofString s) = some s := by
  simp [text?, ofString, String.fromUTF8?, String.fromUTF8, s.isValidUTF8]

theorem ofString_of_text? {b : Bytes} {s : String} (h : text? b = some s) : ofString s = b := by
  simp only [text?, String.fromUTF8?] at h
  split at h
  · cases h; simp [ofString, String.fromUTF8]
  · cases h

theorem ofString_inj {s t : String} : ofString s = ofString t ↔ s = t := by
  refine ⟨fun h => ?_, fun h => h ▸ rfl⟩
  have hs := text?_ofString s
  rw [h, text?_ofString] at hs
  exact (Option.some.inj hs).symm

/-- ASCII white space: space, tab, line feed, form feed, carriage return. -/
def isBlank (b : UInt8) : Bool := b == 32 || b == 9 || b == lf || b == 12 || b == cr

/-- The bytes without the white space at both ends. -/
def trim (b : Bytes) : Bytes := ((b.dropWhile isBlank).reverse.dropWhile isBlank).reverse

/-- The bytes without one carriage return at their end. -/
def dropCR (b : Bytes) : Bytes := if b.getLast? = some cr then b.dropLast else b

/-- The lines of `b`: the pieces between its line feeds, always at least one. -/
def lines (b : Bytes) : List Bytes :=
  b.foldr
    (fun c ls =>
      if c = lf then [] :: ls
      else match ls with
        | [] => [[c]]
        | l :: rest => (c :: l) :: rest)
    [[]]

theorem lines_lf (b : Bytes) : lines (lf :: b) = [] :: lines b := by
  simp [lines]

/-- What follows `p` in `b`, if `b` starts with `p`. -/
def after? : (p b : Bytes) → Option Bytes
  | [], b => some b
  | _ :: _, [] => none
  | x :: p, y :: b => if x = y then after? p b else none

theorem after?_eq_some_iff {p b r : Bytes} : after? p b = some r ↔ b = p ++ r := by
  induction p generalizing b with
  | nil => simp [after?, eq_comm]
  | cons x p ih =>
    cases b with
    | nil => simp [after?]
    | cons y b =>
      by_cases h : x = y
      · subst h; simp [after?, ih]
      · simp [after?, h, Ne.symm h]

/-- The lower-case form of an ASCII letter; any other byte is itself. -/
def lower (b : UInt8) : UInt8 := if 65 ≤ b ∧ b ≤ 90 then b + 32 else b

/-- The bytes cut into pieces of `size` bytes, but of at least one; the last may be shorter. -/
def pieces (size : Nat) : Bytes → List Bytes
  | [] => []
  | b :: rest => (b :: rest.take (size - 1)) :: pieces size (rest.drop (size - 1))
termination_by b => b.length
decreasing_by simp only [List.length_drop, List.length_cons]; omega

theorem flatten_pieces (size : Nat) (b : Bytes) : (pieces size b).flatten = b := by
  fun_induction pieces size b with
  | case1 => rfl
  | case2 b rest ih => simp [ih]

/-- Whether `p` occurs in `b` as a run of neighbouring bytes. -/
def contains (p : Bytes) : Bytes → Bool
  | [] => p.isEmpty
  | b@(_ :: rest) => p.isPrefixOf b || contains p rest

end Bytes

end TopicRelay
