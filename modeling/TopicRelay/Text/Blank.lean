/-!
# White space in text

The characters with the Unicode property `White_Space`, and the trimming of text by them. The
separators U+001C to U+001F and the byte order mark do not belong to it.
-/

namespace TopicRelay

namespace Text

/-- The characters with the property `White_Space`. -/
def isBlank (c : Char) : Bool :=
  let n := c.toNat
  (0x09 ≤ n && n ≤ 0x0D) || n == 0x20 || n == 0x85 || n == 0xA0 || n == 0x1680 ||
    (0x2000 ≤ n && n ≤ 0x200A) || n == 0x2028 || n == 0x2029 || n == 0x202F || n == 0x205F ||
    n == 0x3000

/-- The text without the white space at its start. -/
def trimStart (s : List Char) : List Char := s.dropWhile isBlank

/-- The text without the white space at its end. -/
def trimEnd (s : List Char) : List Char := (s.reverse.dropWhile isBlank).reverse

/-- The text without the white space at both ends. -/
def trim (s : String) : String := String.ofList (trimEnd (trimStart s.toList))

/-- Whether a text holds nothing but white space. -/
def isAllBlank (s : String) : Bool := s.toList.all isBlank

example : isBlank '\u0085' = true ∧ isBlank '\u001c' = false ∧ isBlank '\ufeff' = false := by decide

end Text

end TopicRelay
