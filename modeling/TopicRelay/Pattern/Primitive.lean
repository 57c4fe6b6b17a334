import TopicRelay.Text.Blank

/-!
# The smallest parts of a pattern

A pattern is a regular expression that the text of a field is searched for. Its smallest parts are
single characters, places such as the start of a line or of a word, and shorthands for classes of
characters. What they stand for depends on flags, which a pattern can change from any of its places
on.

Patterns are matched without tables of the classes and cases of characters. A part that would need
such a table is not admitted, nor is one that could match some of the bytes of a character and not
the others.
-/

namespace TopicRelay

namespace Pattern

/-! ### Flags -/

/-- How a pattern is read from one of its places on. -/
structure Flags where
  /-- Letters match letters of the other case too. -/
  ignoreCase : Bool := false
  /-- The pattern is about characters, and not about bytes. -/
  unicode : Bool := true
  /-- White space and comments do not count. -/
  verbose : Bool := false
deriving DecidableEq, Repr

namespace Flags

/-- Whether a letter is the name of a flag. Three of them have no bearing on which patterns are
admitted, and are read only. -/
def isName (c : Char) : Bool := c ∈ ['i', 'm', 's', 'u', 'x', 'R', 'U']

/-- Sets a flag by its name. -/
def set (f : Flags) (name : Char) (on : Bool) : Flags :=
  match name with
  | 'i' => { f with ignoreCase := on }
  | 'u' => { f with unicode := on }
  | 'x' => { f with verbose := on }
  | _ => f

/-- Sets flags by their names; those after a hyphen are unset. -/
def setAll (f : Flags) (on : Bool) : List Char → Flags
  | [] => f
  | '-' :: rest => f.setAll false rest
  | name :: rest => (f.set name on).setAll on rest

/-- What follows white space and comments. A comment ends with its line. -/
def skipRemarks (inComment : Bool) : List Char → List Char
  | [] => []
  | c :: rest =>
    if inComment then skipRemarks (c ≠ '\n') rest
    else if Text.isBlank c then skipRemarks false rest
    else if c = '#' then skipRemarks true rest
    else c :: rest

/-- What follows that counts. -/
def skip (f : Flags) (s : List Char) : List Char := if f.verbose then skipRemarks false s else s

/-- The next character that counts. Of a comment only the mark is passed over here. -/
def peek (f : Flags) (s : List Char) : Option Char :=
  if f.verbose then
    match s.dropWhile Text.isBlank with
    | '#' :: rest => (rest.dropWhile Text.isBlank).head?
    | rest => rest.head?
  else s.head?

end Flags

/-! ### Primitives -/

/-- A smallest part of a pattern. -/
inductive Primitive where
  /-- A character, and whether it was written as the number of a byte. -/
  | literal (c : Char) (isByte : Bool)
  | anyCharacter
  /-- An end of a line or of the text, or else of a word. -/
  | boundary (ofWord : Bool)
  /-- The digits, the white space or the characters of words, or all others. -/
  | shorthand (negated : Bool)
deriving DecidableEq, Repr

namespace Primitive

/-- Whether a primitive is admitted. -/
def isAdmitted (f : Flags) : Primitive → Bool
  | .literal c isByte => if f.unicode then !f.ignoreCase else !isByte || c.toNat < 0x80
  | .anyCharacter => f.unicode
  | .boundary ofWord => !(ofWord && f.unicode)
  | .shorthand negated => !f.unicode && !negated

/-- Whether a primitive is admitted as a member of a set. -/
def isAdmittedInSet (f : Flags) : Primitive → Bool
  | .literal c _ => if f.unicode then !f.ignoreCase else c.toNat < 0x80
  | .shorthand negated => !f.unicode && !negated
  | _ => false

end Primitive

/-! ### Reading -/

/-- The value of a hexadecimal digit. -/
def hexValue? (c : Char) : Option Nat :=
  if '0' ≤ c ∧ c ≤ '9' then some (c.toNat - 48)
  else if 'a' ≤ c ∧ c ≤ 'f' then some (c.toNat - 87)
  else if 'A' ≤ c ∧ c ≤ 'F' then some (c.toNat - 55)
  else none

/-- Reads so many hexadecimal digits after the number `acc`. -/
def readHex (f : Flags) : (digits : Nat) → (acc : Nat) → List Char → Option (Nat × List Char)
  | 0, acc, s => some (acc, s)
  | digits + 1, acc, s =>
    match f.skip s with
    | [] => none
    | c :: rest => (hexValue? c).bind fun d => readHex f digits (acc * 16 + d) rest

/-- Reads a character given by the digits of its number. -/
def readCode (f : Flags) (digits : Nat) (isByte : Bool) (s : List Char) :
    Option (Primitive × List Char) :=
  match readHex f digits 0 s with
  | some (n, rest) => if n.isValidChar then some (.literal (.ofNat n) isByte, rest) else none
  | none => none

/-- The control character that a letter stands for. -/
def control? : Char → Option Char
  | 'a' => some '\x07'
  | 'f' => some '\x0c'
  | 't' => some '\t'
  | 'n' => some '\n'
  | 'r' => some '\r'
  | 'v' => some '\x0b'
  | _ => none

/-- Whether a backslash takes the special meaning from a character, or would if it had one. -/
def isPlainEscape (c : Char) : Bool :=
  c.toNat < 0x80 && !c.isAlphanum && c ≠ '<' && c ≠ '>'

/-- Reads what a backslash introduces. References to groups and classes of characters by their
properties are not admitted. -/
def readEscape (f : Flags) : List Char → Option (Primitive × List Char)
  | [] => none
  | c :: rest =>
    match c with
    | 'x' => readCode f 2 true rest
    | 'u' => readCode f 4 false rest
    | 'U' => readCode f 8 false rest
    | 'd' | 's' | 'w' => some (.shorthand false, rest)
    | 'D' | 'S' | 'W' => some (.shorthand true, rest)
    | 'A' | 'z' => some (.boundary false, rest)
    | 'b' | 'B' | '<' | '>' => some (.boundary true, rest)
    | c =>
      if isPlainEscape c then some (.literal c false, rest)
      else (control? c).map fun c => (.literal c false, rest)

/-- Reads a primitive. -/
def readPrimitive (f : Flags) : List Char → Option (Primitive × List Char)
  | [] => none
  | '\\' :: rest => readEscape f rest
  | '.' :: rest => some (.anyCharacter, rest)
  | '^' :: rest => some (.boundary false, rest)
  | '$' :: rest => some (.boundary false, rest)
  | c :: rest => some (.literal c false, rest)

/-! ### Nesting -/

/-- How deep parts are nested in what they make up together. A part alone makes up itself. -/
def nest : List Nat → Nat
  | [] => 0
  | [depth] => depth
  | depths => depths.foldl max 0 + 1

end Pattern

end TopicRelay
