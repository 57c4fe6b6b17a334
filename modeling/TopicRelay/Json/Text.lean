import TopicRelay.Numeral

/-!
# JSON strings

`quote` writes a byte string as a JSON string, and `readString` reads one back. Only what has to be
escaped is: the quote, the backslash and the control characters, the common ones by a letter and the
others by their code. A reader also takes every other escape that JSON knows; of the codes that
stand for halves of a character both halves must be there. The bytes read must be UTF-8.
-/

namespace TopicRelay

namespace Json

/-- JSON white space: space, tab, line feed, carriage return. -/
def isBlank (b : UInt8) : Bool := b == 32 || b == 9 || b == 10 || b == 13

/-- What follows the white space at the start. -/
def skipBlank (b : Bytes) : Bytes := b.dropWhile isBlank

/-! ### Writing -/

/-- The escape of a control character without a letter of its own. -/
def escapeCode (b : UInt8) : Bytes :=
  Bytes.ofString "\\u00" ++
    (List.map (fun d => (Nat.digitChar d).val.toUInt8) [b.toNat / 16, b.toNat % 16])

/-- A byte as it stands in a string. -/
def escape (b : UInt8) : Bytes :=
  if b = 34 then [92, 34]
  else if b = 92 then [92, 92]
  else if b = 8 then [92, 98]
  else if b = 9 then [92, 116]
  else if b = 10 then [92, 110]
  else if b = 12 then [92, 102]
  else if b = 13 then [92, 114]
  else if b < 32 then escapeCode b
  else [b]

/-- The JSON string of a byte string. -/
def quote (b : Bytes) : Bytes := 34 :: b.flatMap escape ++ [34]

/-! ### Reading -/

/-- The byte that a letter after a backslash stands for. -/
def unescape? (b : UInt8) : Option UInt8 :=
  if b = 34 ∨ b = 92 ∨ b = 47 then some b
  else if b = 98 then some 8
  else if b = 102 then some 12
  else if b = 110 then some 10
  else if b = 114 then some 13
  else if b = 116 then some 9
  else none

/-- The number that four hexadecimal digits denote. -/
def readCode (a b c d : UInt8) : Option Nat := do
  let digit := Numeral.digit? 16
  return (((← digit a) * 16 + (← digit b)) * 16 + (← digit c)) * 16 + (← digit d)

/-- A code that is the first half of a character. -/
def isHighHalf (n : Nat) : Bool := 0xD800 ≤ n && n < 0xDC00

/-- A code that is the second half of a character. -/
def isLowHalf (n : Nat) : Bool := 0xDC00 ≤ n && n < 0xE000

/-- The code point of two halves. -/
def joinHalves (high low : Nat) : Nat := 0x10000 + (high - 0xD800) * 0x400 + (low - 0xDC00)

/-- The UTF-8 bytes of a code point. -/
def encodePoint (n : Nat) : Bytes := String.utf8EncodeChar (Char.ofNat n)

/-- The bytes of a string up to its closing quote, put after `acc`, which holds bytes last first,
and what follows the quote. -/
def readBody (acc : List UInt8) : Bytes → Option (Bytes × Bytes)
  | [] => none
  | 34 :: rest => some (acc.reverse, rest)
  | 92 :: 117 :: a :: b :: c :: d :: rest =>
    match readCode a b c d with
    | none => none
    | some n =>
      if isLowHalf n then none
      else if isHighHalf n then
        match rest with
        | 92 :: 117 :: e :: f :: g :: h :: rest =>
          match readCode e f g h with
          | none => none
          | some m =>
            if isLowHalf m then readBody ((encodePoint (joinHalves n m)).reverse ++ acc) rest
            else none
        | _ => none
      else readBody ((encodePoint n).reverse ++ acc) rest
  | 92 :: c :: rest =>
    match unescape? c with
    | none => none
    | some b => readBody (b :: acc) rest
  | c :: rest => if c < 32 then none else readBody (c :: acc) rest

/-- Reads a string that starts here. -/
def readString : Bytes → Option (String × Bytes)
  | 34 :: rest =>
    match readBody [] rest with
    | none => none
    | some (content, rest) => (Bytes.text? content).map fun s => (s, rest)
  | _ => none

end Json

end TopicRelay
