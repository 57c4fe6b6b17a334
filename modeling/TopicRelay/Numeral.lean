import TopicRelay.Bytes

/-!
# Unsigned numerals

Numbers in headers, chunk sizes, ports and addresses are unsigned numerals: digits of a radix, with
an optional `+` in front, for a number below a bound. The digits are taken from left to right, so of
two faults the one further left is reported.

Numbers are written in decimal and never with an exponent.
-/

namespace TopicRelay

namespace Numeral

/-- Why a text is no numeral. -/
inductive Fault where
  | empty
  | invalidDigit
  | overflow
deriving DecidableEq, Repr

/-- What is said about a fault. -/
def Fault.message : Fault → String
  | .empty => "cannot parse integer from empty string"
  | .invalidDigit => "invalid digit found in string"
  | .overflow => "number too large to fit in target type"

/-- The value of a digit: `0` to `9`, then letters of either case. -/
def digitValue? (b : UInt8) : Option Nat :=
  if 48 ≤ b ∧ b ≤ 57 then some (b.toNat - 48)
  else if 97 ≤ b ∧ b ≤ 122 then some (b.toNat - 87)
  else if 65 ≤ b ∧ b ≤ 90 then some (b.toNat - 55)
  else none

/-- The value of `b` as a digit of `radix`. -/
def digit? (radix : Nat) (b : UInt8) : Option Nat :=
  (digitValue? b).filter (· < radix)

/-- Reads digits after the number `acc`, and stops at the first fault. -/
def readDigits (radix bound : Nat) : (acc : Nat) → Bytes → Except Fault Nat
  | acc, [] => .ok acc
  | acc, b :: rest =>
    match digit? radix b with
    | none => .error .invalidDigit
    | some d =>
      if acc * radix + d < bound then readDigits radix bound (acc * radix + d) rest
      else .error .overflow

/-- The number below `bound` that a whole text denotes in `radix`. -/
def read (radix bound : Nat) : Bytes → Except Fault Nat
  | [] => .error .empty
  | b :: rest =>
    if b = 43 ∧ rest ≠ [] then readDigits radix bound 0 rest
    else readDigits radix bound 0 (b :: rest)

/-- Numbers of 64 bits lie below this bound. -/
def wordBound : Nat := 0x10000000000000000

/-- Ports lie below this bound. -/
def portBound : Nat := 0x10000

/-! ### Writing -/

/-- The decimal digits of a number. -/
def write (n : Nat) : Bytes := Bytes.ofString (toString n)

/-- The `width` decimals of a fraction, without the zeros at their end. -/
def decimals (width fraction : Nat) : List Char :=
  let digits := (toString fraction).toList
  let padded := List.replicate (width - digits.length) '0' ++ digits
  (padded.reverse.dropWhile (· = '0')).reverse

/-- The text of `n * 10 ^ e`, with all its digits and no zeros at the end of its decimals. -/
def positional (n : Nat) : (e : Int) → String
  | .ofNat k => toString (n * Nat.pow 10 k)
  | .negSucc k =>
    let whole := toString (n / Nat.pow 10 (k + 1))
    let fraction := n % Nat.pow 10 (k + 1)
    if fraction = 0 then whole else whole ++ "." ++ String.ofList (decimals (k + 1) fraction)

end Numeral

end TopicRelay
