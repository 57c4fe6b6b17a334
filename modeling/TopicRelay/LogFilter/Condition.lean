import TopicRelay.Double
import TopicRelay.Pattern.Acceptance

/-!
# Conditions on fields

A condition of a log filter names a field and may ask for a value. What is asked for is a truth
value, a number, or else a pattern that the text of the field must match; it is written back as the
value, so that several spellings of one number come out the same.
-/

namespace TopicRelay

/-- What is asked of the value of a field. -/
inductive FieldValue where
  | boolean (b : Bool)
  | float (d : Double)
  | natural (n : Nat)
  | integer (i : Int)
  | pattern (p : String)
deriving DecidableEq, Repr

namespace FieldValue

/-- Reads a number below zero that fits into 64 bits, or a zero with a minus. -/
def readNegative : List Char → Option Int
  | '-' :: c :: rest =>
    match Numeral.readDigits 10 0x8000000000000001 0
        (Bytes.ofString (String.ofList (c :: rest))) with
    | .ok n => some (-n)
    | .error _ => none
  | _ => none

/-- Reads a number. A natural number that does not fit into 64 bits is a floating-point number. -/
def readNumber (s : List Char) : Option FieldValue :=
  match Numeral.read 10 Numeral.wordBound (Bytes.ofString (String.ofList s)), readNegative s with
  | .ok n, _ => some (.natural n)
  | _, some i => some (.integer i)
  | _, none => (Double.read? s).map .float

/-- Reads a value: a word for a truth value, a number, or a pattern that can be used. -/
def read? (s : List Char) : Option FieldValue :=
  match String.ofList s with
  | "true" => some (.boolean true)
  | "false" => some (.boolean false)
  | text =>
    match readNumber s with
    | some v => some v
    | none => if Pattern.isAccepted text then some (.pattern text) else none

/-- The text of a value. -/
def text : FieldValue → String
  | .boolean b => if b then "true" else "false"
  | .float d => d.text
  | .natural n => toString n
  | .integer i => toString i
  | .pattern p => p

/-- The place of the kind of a value among the kinds. -/
def rank : FieldValue → Nat
  | .boolean _ => 0
  | .float _ => 1
  | .natural _ => 2
  | .integer _ => 3
  | .pattern _ => 4

/-- Values in order: first by kind. -/
def compare : FieldValue → FieldValue → Ordering
  | .boolean a, .boolean b => Ord.compare a b
  | .float a, .float b => a.compare b
  | .natural a, .natural b => Ord.compare a b
  | .integer a, .integer b => Ord.compare a b
  | .pattern a, .pattern b => Ord.compare a b
  | a, b => Ord.compare a.rank b.rank

end FieldValue

/-- A condition on a field. -/
structure FieldCondition where
  name : String
  /-- The value that the field must have, if it must have one. -/
  value : Option FieldValue := none
deriving DecidableEq, Repr

namespace FieldCondition

/-- Reads the name of a field and, after an equals sign, its value. What follows a second equals
sign does not count. -/
def read? (s : List Char) : Option FieldCondition :=
  let name := String.ofList (s.takeWhile (· ≠ '='))
  match s.dropWhile (· ≠ '=') with
  | [] => if s = [] then none else some { name }
  | _ :: rest =>
    (FieldValue.read? (rest.takeWhile (· ≠ '='))).map fun v => { name, value := some v }

/-- The text of a condition. -/
def text (f : FieldCondition) : String :=
  match f.value with
  | none => f.name
  | some v => f.name ++ "=" ++ v.text

/-- Conditions in order: without a value before with one, then by name and by value. -/
def compare (a b : FieldCondition) : Ordering :=
  match a.value, b.value with
  | none, some _ => .lt
  | some _, none => .gt
  | none, none => Ord.compare a.name b.name
  | some v, some w => (Ord.compare a.name b.name).then (v.compare w)

end FieldCondition

end TopicRelay
