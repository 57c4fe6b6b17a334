import TopicRelay.Toml.Value

/-!
# The scalars of TOML

Readers for strings, numbers, truth values, dates and times. A reader takes the characters that are
left and gives what it read with the characters after it, or nothing. Readers are greedy; what they
leave behind is refused by whoever called them.
-/

namespace TopicRelay

namespace Toml

/-- Reads something at the start of the characters. -/
abbrev Reader (α : Type) := List Char → Option (α × List Char)

/-- Space or tab. -/
def isSpace (c : Char) : Bool := c = ' ' || c = '\t'

/-- What follows the spaces and tabs at the start. -/
def skipSpace (s : List Char) : List Char := s.dropWhile isSpace

/-- A character that may stand in a line: no control character but the tab. -/
def isPlain (c : Char) : Bool := c = '\t' || (c.toNat ≥ 0x20 && c.toNat ≠ 0x7F)

/-! ### Strings -/

/-- The character that a letter after a backslash stands for. -/
def escaped? : Char → Option Char
  | 'b' => some '\x08'
  | 't' => some '\t'
  | 'n' => some '\n'
  | 'f' => some '\x0c'
  | 'r' => some '\r'
  | '"' => some '"'
  | '\\' => some '\\'
  | _ => none

/-- The value of a hexadecimal digit. -/
def hexValue? (c : Char) : Option Nat :=
  if '0' ≤ c ∧ c ≤ '9' then some (c.toNat - 48)
  else if 'a' ≤ c ∧ c ≤ 'f' then some (c.toNat - 87)
  else if 'A' ≤ c ∧ c ≤ 'F' then some (c.toNat - 55)
  else none

/-- The character whose code point hexadecimal digits denote. -/
def codePoint? (digits : List Char) : Option Char := do
  let values ← digits.mapM hexValue?
  let n := values.foldl (fun acc d => acc * 16 + d) 0
  if n.isValidChar then return Char.ofNat n else none

/-- The rest of a string in double quotes, after the characters `acc`, last first. -/
def basicBody (acc : List Char) : Reader String
  | '"' :: rest => some (String.ofList acc.reverse, rest)
  | '\\' :: 'u' :: a :: b :: c :: d :: rest => do
    basicBody ((← codePoint? [a, b, c, d]) :: acc) rest
  | '\\' :: 'U' :: a :: b :: c :: d :: e :: f :: g :: h :: rest => do
    basicBody ((← codePoint? [a, b, c, d, e, f, g, h]) :: acc) rest
  | '\\' :: c :: rest => do basicBody ((← escaped? c) :: acc) rest
  | c :: rest => if isPlain c && c ≠ '\\' then basicBody (c :: acc) rest else none
  | [] => none

/-- The rest of a string in single quotes. -/
def literalBody (acc : List Char) : Reader String
  | '\'' :: rest => some (String.ofList acc.reverse, rest)
  | c :: rest => if isPlain c then literalBody (c :: acc) rest else none
  | [] => none

/-- Whether nothing but space stands before the end of the line. -/
def endsLine (s : List Char) : Bool :=
  match skipSpace s with
  | '\n' :: _ => true
  | '\r' :: '\n' :: _ => true
  | _ => false

/-- The rest of a string in three double quotes. Up to two more quotes before the closing ones
belong to the string. While `trim` holds, white space is passed over: it follows a backslash at the
end of a line. -/
def multiBasicBody (trim : Bool) (acc : List Char) : Reader String
  | '"' :: '"' :: '"' :: '"' :: '"' :: rest =>
    some (String.ofList ('"' :: '"' :: acc).reverse, rest)
  | '"' :: '"' :: '"' :: '"' :: rest => some (String.ofList ('"' :: acc).reverse, rest)
  | '"' :: '"' :: '"' :: rest => some (String.ofList acc.reverse, rest)
  | '\r' :: '\n' :: rest => multiBasicBody trim (if trim then acc else '\n' :: acc) rest
  | '\n' :: rest => multiBasicBody trim (if trim then acc else '\n' :: acc) rest
  | '\\' :: 'u' :: a :: b :: c :: d :: rest => do
    multiBasicBody false ((← codePoint? [a, b, c, d]) :: acc) rest
  | '\\' :: 'U' :: a :: b :: c :: d :: e :: f :: g :: h :: rest => do
    multiBasicBody false ((← codePoint? [a, b, c, d, e, f, g, h]) :: acc) rest
  | '\\' :: c :: rest =>
    if endsLine (c :: rest) then multiBasicBody true acc (c :: rest)
    else do multiBasicBody false ((← escaped? c) :: acc) rest
  | c :: rest =>
    if trim && isSpace c then multiBasicBody true acc rest
    else if isPlain c && c ≠ '\\' then multiBasicBody false (c :: acc) rest
    else none
  | [] => none

/-- The rest of a string in three single quotes. -/
def multiLiteralBody (acc : List Char) : Reader String
  | '\'' :: '\'' :: '\'' :: '\'' :: '\'' :: rest =>
    some (String.ofList ('\'' :: '\'' :: acc).reverse, rest)
  | '\'' :: '\'' :: '\'' :: '\'' :: rest => some (String.ofList ('\'' :: acc).reverse, rest)
  | '\'' :: '\'' :: '\'' :: rest => some (String.ofList acc.reverse, rest)
  | '\r' :: '\n' :: rest => multiLiteralBody ('\n' :: acc) rest
  | '\n' :: rest => multiLiteralBody ('\n' :: acc) rest
  | c :: rest => if isPlain c then multiLiteralBody (c :: acc) rest else none
  | [] => none

/-- The characters without a line end at their start. -/
def dropNewline : List Char → List Char
  | '\n' :: rest => rest
  | '\r' :: '\n' :: rest => rest
  | s => s

/-- A string in any of its four forms. -/
def readString : Reader String
  | '"' :: '"' :: '"' :: rest => multiBasicBody false [] (dropNewline rest)
  | '"' :: rest => basicBody [] rest
  | '\'' :: '\'' :: '\'' :: rest => multiLiteralBody [] (dropNewline rest)
  | '\'' :: rest => literalBody [] rest
  | _ => none

/-! ### Numbers -/

/-- The value of a decimal digit. -/
def digit? (c : Char) : Option Nat := if c.isDigit then some (c.toNat - 48) else none

/-- Digits with single underscores between them, after the digits `acc`, last first. -/
def moreDigits (value? : Char → Option Nat) (acc : List Nat) : List Char → List Nat × List Char
  | '_' :: c :: rest =>
    match value? c with
    | some d => moreDigits value? (d :: acc) rest
    | none => (acc.reverse, '_' :: c :: rest)
  | c :: rest =>
    match value? c with
    | some d => moreDigits value? (d :: acc) rest
    | none => (acc.reverse, c :: rest)
  | [] => (acc.reverse, [])

/-- One digit or more. -/
def readDigits (value? : Char → Option Nat) : Reader (List Nat)
  | c :: rest => do return moreDigits value? [← value? c] rest
  | [] => none

/-- The number that digits denote. -/
def valueOf (radix : Nat) (digits : List Nat) : Nat := digits.foldl (fun acc d => acc * radix + d) 0

/-- A sign, if there is one; the answer tells whether it is a minus. -/
def readSign : List Char → Bool × List Char
  | '-' :: rest => (true, rest)
  | '+' :: rest => (false, rest)
  | s => (false, s)

/-- Decimal digits that do not start with a zero, or a single zero. -/
def readWhole : Reader (List Nat)
  | '0' :: rest => some ([0], rest)
  | s => readDigits digit? s

/-- Integers lie in the range of 64-bit words with a sign. -/
def integerOf? (i : Int) : Option Value :=
  if -0x8000000000000000 ≤ i ∧ i < 0x8000000000000000 then some (.integer i) else none

/-- A digit of radix 8 or 2. -/
def digitBelow? (radix : Nat) (c : Char) : Option Nat := (digit? c).filter (· < radix)

/-- An integer: decimal with a sign, or with one of the three radix marks. -/
def readInteger (s : List Char) : Option (Value × List Char) :=
  match s with
  | '0' :: 'x' :: rest => do
    let (digits, rest) ← readDigits hexValue? rest
    return (← integerOf? (valueOf 16 digits), rest)
  | '0' :: 'o' :: rest => do
    let (digits, rest) ← readDigits (digitBelow? 8) rest
    return (← integerOf? (valueOf 8 digits), rest)
  | '0' :: 'b' :: rest => do
    let (digits, rest) ← readDigits (digitBelow? 2) rest
    return (← integerOf? (valueOf 2 digits), rest)
  | s => do
    let (negative, s) := readSign s
    let (digits, rest) ← readWhole s
    let n : Int := valueOf 10 digits
    return (← integerOf? (if negative then -n else n), rest)

/-- The smallest number that no finite double is nearest to. -/
def overflowBound : Nat := Nat.pow 2 1024 - Nat.pow 2 970

/-- Whether `mantissa * 10 ^ exponent` is nearer to infinity than to any finite double. -/
def overflows (mantissa : Nat) (exponent : Int) : Bool :=
  let size : Int := (toString mantissa).length + exponent
  if mantissa = 0 || size < 308 then false
  else if size > 310 then true
  else if 0 ≤ exponent then overflowBound ≤ mantissa * Nat.pow 10 exponent.toNat
  else overflowBound * Nat.pow 10 (-exponent).toNat ≤ mantissa

/-- The decimals of a float, with the point before them. -/
def readDecimals : Reader (List Nat)
  | '.' :: rest => readDigits digit? rest
  | _ => none

/-- The exponent of a float, with its mark. -/
def readExponent (s : List Char) : Option (Int × List Char) :=
  match s with
  | c :: rest =>
    if c = 'e' || c = 'E' then do
      let (negative, rest) := readSign rest
      let (digits, rest) ← readDigits digit? rest
      let n : Int := valueOf 10 digits
      return (if negative then -n else n, rest)
    else none
  | [] => none

/-- A float with a sign: decimals, an exponent or both, or one of the two words. A positive number
too large for a double is refused. -/
def readFloat (s : List Char) : Option (Value × List Char) :=
  match readSign s with
  | (negative, 'i' :: 'n' :: 'f' :: rest) => some (.float (.infinite negative), rest)
  | (_, 'n' :: 'a' :: 'n' :: rest) => some (.float .nan, rest)
  | (negative, s) => do
    let (whole, s) ← readWhole s
    let (decimals, s', hasDecimals) :=
      match readDecimals s with
      | some (ds, s) => (ds, s, true)
      | none => ([], s, false)
    let (exponent, rest, hasExponent) :=
      match readExponent s' with
      | some (e, s) => (e, s, true)
      | none => (0, s', false)
    if hasDecimals || hasExponent then
      let mantissa := valueOf 10 (whole ++ decimals)
      let exponent := exponent - decimals.length
      if overflows mantissa exponent && !negative then none
      else return (.float (.finite negative mantissa exponent), rest)
    else none

/-! ### Dates and times -/

/-- A number of two digits below `bound`. -/
def readTwo (bound : Nat) : Reader Nat
  | a :: b :: rest => do
    let n := (← digit? a) * 10 + (← digit? b)
    if n < bound then return (n, rest) else none
  | _ => none

/-- Reads one given character. -/
def readChar (c : Char) : List Char → Option (List Char)
  | x :: rest => if x = c then some rest else none
  | [] => none

/-- The number of days in a month. -/
def daysIn (year month : Nat) : Nat :=
  if month = 2 then
    if year % 4 = 0 ∧ (year % 100 ≠ 0 ∨ year % 400 = 0) then 29 else 28
  else if month = 4 ∨ month = 6 ∨ month = 9 ∨ month = 11 then 30
  else 31

/-- A day of the calendar. -/
def readDate : Reader Date
  | a :: b :: c :: d :: rest => do
    let year := valueOf 10 [← digit? a, ← digit? b, ← digit? c, ← digit? d]
    let (month, rest) ← readTwo 13 (← readChar '-' rest)
    let (day, rest) ← readTwo 32 (← readChar '-' rest)
    if 1 ≤ month ∧ 1 ≤ day ∧ day ≤ daysIn year month then return ({ year, month, day }, rest)
    else none
  | _ => none

/-- A time of day. The second 60 is a leap second. -/
def readTime (s : List Char) : Option (TimeOfDay × List Char) := do
  let (hour, s) ← readTwo 24 s
  let (minute, s) ← readTwo 60 (← readChar ':' s)
  let (second, s) ← readTwo 61 (← readChar ':' s)
  match s with
  | '.' :: rest =>
    match rest.takeWhile Char.isDigit with
    | [] => return ({ hour, minute, second }, s)
    | digits =>
      return ({ hour, minute, second, decimals := digits.filterMap digit? },
        rest.dropWhile Char.isDigit)
  | _ => return ({ hour, minute, second }, s)

/-- An offset from universal time, in minutes. -/
def readOffset (s : List Char) : Option (Int × List Char) :=
  match s with
  | 'Z' :: rest => some (0, rest)
  | 'z' :: rest => some (0, rest)
  | c :: rest =>
    if c = '+' || c = '-' then do
      let (hours, rest) ← readTwo 24 rest
      let (minutes, rest) ← readTwo 60 (← readChar ':' rest)
      let n : Int := hours * 60 + minutes
      return (if c = '-' then -n else n, rest)
    else none
  | [] => none

/-- A mark between a date and a time. -/
def isTimeMark (c : Char) : Bool := c = 'T' || c = 't' || c = ' '

/-- The time after a date and a mark, if it is there. -/
def readTimeAfterMark : Reader TimeOfDay
  | c :: rest => if isTimeMark c then readTime rest else none
  | [] => none

/-- A date, a time, or a date with a time and perhaps an offset. -/
def readDateTime (s : List Char) : Option (Value × List Char) :=
  match readDate s with
  | some (date, s) =>
    match readTimeAfterMark s with
    | none => some (.dateTime { date := some date }, s)
    | some (time, s) =>
      match readOffset s with
      | none => some (.dateTime { date := some date, time := some time }, s)
      | some (offset, s) =>
        some (.dateTime { date := some date, time := some time, offset := some offset }, s)
  | none => (readTime s).map fun (time, s) => (.dateTime { time := some time }, s)

/-- A number, date or time: whichever of the readers takes the characters first. -/
def readNumeric (s : List Char) : Option (Value × List Char) :=
  (readDateTime s).orElse fun _ => (readFloat s).orElse fun _ => readInteger s

/-- A truth value. -/
def readBoolean : Reader Value
  | 't' :: 'r' :: 'u' :: 'e' :: rest => some (.boolean true, rest)
  | 'f' :: 'a' :: 'l' :: 's' :: 'e' :: rest => some (.boolean false, rest)
  | _ => none

end Toml

end TopicRelay
