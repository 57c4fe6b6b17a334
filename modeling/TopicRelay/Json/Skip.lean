import TopicRelay.Json.Text

/-!
# Passing over JSON values

A reader that does not know a key passes over its value. The value must be well formed, but nothing
is kept of it: its numbers may have any size, the codes in its strings need not pair up to
characters and its strings need not be UTF-8.

The brackets that are open are kept in a list, so that values may be nested to any depth. `step`
takes one value that is no container, one bracket or one comma; `skipFrom` repeats it until the
brackets that the value opened are closed.
-/

namespace TopicRelay

namespace Json

/-- What follows a string whose opening quote has been read. -/
def skipString : Bytes → Option Bytes
  | [] => none
  | 34 :: rest => some rest
  | 92 :: 117 :: a :: b :: c :: d :: rest =>
    if (readCode a b c d).isSome then skipString rest else none
  | 92 :: c :: rest => if (unescape? c).isSome then skipString rest else none
  | c :: rest => if c < 32 then none else skipString rest

/-- A decimal digit. -/
def isDigit (b : UInt8) : Bool := 48 ≤ b && b ≤ 57

/-- What follows one digit or more. -/
def skipDigits : Bytes → Option Bytes
  | [] => none
  | b :: rest => if isDigit b then some (rest.dropWhile isDigit) else none

/-- What follows the exponent of a number, which may be missing. -/
def skipExponent : Bytes → Option Bytes
  | [] => some []
  | b :: rest =>
    if b = 101 ∨ b = 69 then
      match rest with
      | 43 :: rest => skipDigits rest
      | 45 :: rest => skipDigits rest
      | rest => skipDigits rest
    else some (b :: rest)

/-- What follows the decimals and the exponent of a number. -/
def skipFraction : Bytes → Option Bytes
  | 46 :: rest => (skipDigits rest).bind skipExponent
  | rest => skipExponent rest

/-- What follows a number without its sign. -/
def skipUnsigned : Bytes → Option Bytes
  | 48 :: rest => skipFraction rest
  | rest => (skipDigits rest).bind skipFraction

/-- What follows a number. -/
def skipNumber : Bytes → Option Bytes
  | 45 :: rest => skipUnsigned rest
  | rest => skipUnsigned rest

/-- What follows one of the three words. -/
def skipWord (b : Bytes) : Option Bytes :=
  (Bytes.after? (Bytes.ofString "null") b).orElse fun _ =>
    (Bytes.after? (Bytes.ofString "true") b).orElse fun _ =>
      Bytes.after? (Bytes.ofString "false") b

/-- What follows a value that is no container. -/
def skipScalar : Bytes → Option Bytes
  | 34 :: rest => skipString rest
  | b => (skipWord b).orElse fun _ => skipNumber b

/-- An open bracket. -/
inductive Bracket where
  | array
  | object
deriving DecidableEq, Repr

/-- What is expected: a value, or what follows one. -/
inductive Want where
  | value
  | next
deriving DecidableEq, Repr

/-- What follows a key with its colon. -/
def skipKey (b : Bytes) : Option Bytes :=
  match skipBlank b with
  | 34 :: rest =>
    match skipString rest with
    | none => none
    | some rest => Bytes.after? [58] (skipBlank rest)
  | _ => none

/-- Takes one value that is no container, one bracket, or one comma with the key after it. -/
def step (want : Want) (brackets : List Bracket) (b : Bytes) :
    Option (Want × List Bracket × Bytes) :=
  match want, brackets, skipBlank b with
  | .value, _, 91 :: rest =>
    match skipBlank rest with
    | 93 :: rest => some (.next, brackets, rest)
    | rest => some (.value, .array :: brackets, rest)
  | .value, _, 123 :: rest =>
    match skipBlank rest with
    | 125 :: rest => some (.next, brackets, rest)
    | rest => (skipKey rest).map fun rest => (.value, .object :: brackets, rest)
  | .value, _, b => (skipScalar b).map fun rest => (.next, brackets, rest)
  | .next, .array :: _, 44 :: rest => some (.value, brackets, rest)
  | .next, .array :: outer, 93 :: rest => some (.next, outer, rest)
  | .next, .object :: _, 44 :: rest => (skipKey rest).map fun rest => (.value, brackets, rest)
  | .next, .object :: outer, 125 :: rest => some (.next, outer, rest)
  | .next, _, _ => none

/-- Takes steps until a value has ended and no bracket is open. `fuel` bounds their number. -/
def skipFrom : (fuel : Nat) → Want → List Bracket → Bytes → Option Bytes
  | _, .next, [], b => some b
  | 0, _, _, _ => none
  | fuel + 1, want, brackets, b =>
    match step want brackets b with
    | none => none
    | some (want, brackets, b) => skipFrom fuel want brackets b

/-- What follows a value. Every step takes at least one byte, so the bytes bound the steps. -/
def skipValue (b : Bytes) : Option Bytes := skipFrom (b.length + 1) .value [] b

end Json

end TopicRelay
