import TopicRelay.Numeral

/-!
# Floating-point numbers

The numbers of the binary format with 64 bits. Without their signs they are finitely many sizes, all
of them multiples of the least one, and they are known here by their places in ascending order:
`size` says how many times the least size stands at a place, and infinity has the place after the
last finite size. So numbers compare as their places do, and rounding is a search for a place.

The text of a number is the shortest decimal that is rounded to it again. Of two of the same length
it is the nearer one, and of two that are equally near the larger one.
-/

namespace TopicRelay

/-- A floating-point number. -/
inductive Double where
  | number (negative : Bool) (place : Nat)
  | nan
deriving DecidableEq, Repr

namespace Double

/-! ### Sizes -/

/-- The number of places for which neighbouring sizes are equally far apart. -/
def stride : Nat := 0x10000000000000

/-- The size at a place, as a multiple of the least size. -/
def size (place : Nat) : Nat :=
  match place / stride with
  | 0 => place
  | e + 1 => (stride + place % stride) * Nat.pow 2 e

/-- The place of infinity. -/
def infinite : Nat := 2047 * stride

/-- The number one, as a multiple of the least size. -/
def one : Nat := Nat.pow 2 1074

/-- The last place, from `place` on and less than `2 ^ bits` further, whose size is at most
`n / d`. -/
def lastPlace (n d : Nat) : (bits place : Nat) → Nat
  | 0, place => place
  | bits + 1, place =>
    let further := place + Nat.pow 2 bits
    lastPlace n d bits (if size further * d ≤ n then further else place)

/-- The place whose size is nearest to `n / d`; of two the even one. -/
def nearestPlace (n d : Nat) : Nat :=
  let below := lastPlace n d 63 0
  let middle := (size below + size (below + 1)) * d
  let nearest := if 2 * n < middle ∨ (2 * n = middle ∧ below % 2 = 0) then below else below + 1
  min nearest infinite

/-- The place that the decimal `n * 10 ^ e` is rounded to. What is far beyond the largest or below
the least size is not computed. -/
def placeOf (n : Nat) (e : Int) : Nat :=
  let width : Int := (toString n).length + e
  if n = 0 ∨ width < -330 then 0
  else if 310 < width then infinite
  else match e with
    | .ofNat k => nearestPlace (n * Nat.pow 10 k * one) 1
    | .negSucc k => nearestPlace (n * one) (Nat.pow 10 (k + 1))

/-! ### Writing -/

/-- The number of digits before the point in the decimal form of a size. It is negative by the
number of zeros right after the point if there are none. -/
def width (place : Nat) : Int :=
  (toString (size place * Nat.pow 10 400 / one)).length - 400

/-- The decimal of so many digits that is rounded to a place, if there is one. -/
def withDigits (place digits : Nat) : Option (Nat × Int) :=
  let e := width place - digits
  let (n, d) : Nat × Nat := match e with
    | .ofNat k => (size place, one * Nat.pow 10 k)
    | .negSucc k => (size place * Nat.pow 10 (k + 1), one)
  let below := n / d
  let isBelow := placeOf below e = place
  let isAbove := placeOf (below + 1) e = place
  if isAbove && (!isBelow || d ≤ 2 * (n % d)) then some (below + 1, e)
  else if isBelow then some (below, e)
  else none

/-- The shortest decimal that is rounded to a place. Seventeen digits are always enough. -/
def shortest (place : Nat) : Nat × Int :=
  ((List.range 17).findSome? fun i => withDigits place (i + 1)).getD
    (size place * Nat.pow 5 1074, -1074)

/-- The text of a number. -/
def text : Double → String
  | .nan => "NaN"
  | .number negative place =>
    (if negative then "-" else "") ++
      if place = 0 then "0"
      else if place = infinite then "inf"
      else Numeral.positional (shortest place).1 (shortest place).2

/-! ### Reading -/

/-- The text without its sign, and whether that is a minus. -/
def readSign : List Char → Bool × List Char
  | '-' :: rest => (true, rest)
  | '+' :: rest => (false, rest)
  | s => (false, s)

/-- The number that digits denote. -/
def valueOf (digits : List Char) : Nat := digits.foldl (fun acc c => acc * 10 + (c.toNat - 48)) 0

/-- Reads an exponent with its mark, or none. -/
def readExponent : List Char → Option Int
  | [] => some 0
  | c :: rest =>
    let (negative, digits) := readSign rest
    if (c = 'e' || c = 'E') && !digits.isEmpty && digits.all Char.isDigit then
      some (if negative then -valueOf digits else valueOf digits)
    else none

/-- Reads the place of a number without a sign: digits, perhaps with a point among or beside them,
and perhaps an exponent. -/
def readPlace (s : List Char) : Option Nat :=
  let whole := s.takeWhile Char.isDigit
  let (decimals, rest) := match s.dropWhile Char.isDigit with
    | '.' :: rest => (rest.takeWhile Char.isDigit, rest.dropWhile Char.isDigit)
    | rest => ([], rest)
  if whole ++ decimals = [] then none
  else (readExponent rest).map fun e => placeOf (valueOf (whole ++ decimals)) (e - decimals.length)

/-- Reads a number: a decimal or one of the words for what is not finite, in letters of either
case. -/
def read? (s : List Char) : Option Double :=
  let (negative, s) := readSign s
  match readPlace s with
  | some place => some (.number negative place)
  | none =>
    match String.ofList (s.map Char.toLower) with
    | "inf" | "infinity" => some (.number negative infinite)
    | "nan" => some .nan
    | _ => none

/-! ### Order -/

/-- Where a number with a sign stands among all numbers. Both zeros stand at zero. -/
def key (negative : Bool) (place : Nat) : Int := if negative then -place else place

/-- Numbers in order, and what is no number after them. -/
def compare : Double → Double → Ordering
  | .number s p, .number t q => Ord.compare (key s p) (key t q)
  | .number .., .nan => .lt
  | .nan, .number .. => .gt
  | .nan, .nan => .eq

end Double

end TopicRelay
