import TopicRelay.Pattern.Primitive

/-!
# Sets of characters in brackets

A set lists characters, ranges of characters, shorthands, named classes and further sets. Of two
lists with an operator between them it takes the common members, the first without the second, or
those of one list only; operators are applied from left to right. A bracket or hyphens right at the
start are members themselves.

`Bracket.read` gives the depth to which a set is nested, since that is all that is asked of one that
can be read.
-/

namespace TopicRelay

namespace Pattern

/-- A set that is open. -/
structure Bracket where
  /-- The depth of what stands before the last operator. -/
  left : Option Nat := none
  /-- The depths of the members since then. -/
  members : List Nat := []
deriving DecidableEq, Repr

namespace Bracket

/-- The set with a further member. -/
def add (b : Bracket) (depth : Nat) : Bracket := { b with members := depth :: b.members }

/-- The depth of what has been read of a set. -/
def depth (b : Bracket) : Nat :=
  match b.left with
  | none => nest b.members
  | some left => nest [left, nest b.members]

/-- The set after an operator. -/
def operate (b : Bracket) : Bracket := { left := some b.depth }

/-- Takes the hyphens at the start of a set as members. `fuel` bounds their number. -/
def readHyphens (f : Flags) : (fuel : Nat) → Bracket → List Char → Option (Bracket × List Char)
  | 0, _, _ => none
  | fuel + 1, b, s =>
    match f.skip s with
    | '-' :: rest =>
      if (Primitive.literal '-' false).isAdmittedInSet f then readHyphens f fuel (b.add 0) rest
      else none
    | s => some (b, s)

/-- Opens a set after its bracket. What a set excludes is a matter of characters, not of bytes. -/
def start (f : Flags) (s : List Char) : Option (Bracket × List Char) := do
  let s ← match f.skip s with
    | '^' :: rest => if f.unicode then some (f.skip rest) else none
    | rest => some rest
  let (b, s) ← readHyphens f (s.length + 1) {} s
  match b.members, s with
  | [], ']' :: rest =>
    if (Primitive.literal ']' false).isAdmittedInSet f then return (b.add 0, rest) else none
  | _, _ => return (b, s)

/-- The names of classes. -/
def classNames : List String :=
  ["alnum", "alpha", "ascii", "blank", "cntrl", "digit", "graph", "lower", "print", "punct",
    "space", "upper", "word", "xdigit"]

/-- Reads a named class after its bracket: whether it is negated. Anything else there is a set. -/
def readClass : List Char → Option (Bool × List Char)
  | ':' :: s =>
    let (negated, s) := match s with
      | '^' :: rest => (true, rest)
      | rest => (false, rest)
    match s.dropWhile (· ≠ ':') with
    | ':' :: ']' :: rest =>
      if String.ofList (s.takeWhile (· ≠ ':')) ∈ classNames then some (negated, rest) else none
    | _ => none
  | _ => none

/-- Whether a named class is admitted. -/
def isClassAdmitted (f : Flags) (negated : Bool) : Bool :=
  if f.unicode then !f.ignoreCase else !negated

/-- Reads a character or what a backslash introduces. -/
def readMember (f : Flags) : List Char → Option (Primitive × List Char)
  | [] => none
  | '\\' :: rest => readEscape f rest
  | c :: rest => some (.literal c false, rest)

/-- Reads a member or a range of members. A hyphen is no range if a bracket or a hyphen follows. -/
def readRange (f : Flags) (s : List Char) : Option (List Char) := do
  let (first, s) ← readMember f s
  if !first.isAdmittedInSet f then none
  match f.skip s with
  | '-' :: rest =>
    if f.peek rest = some ']' ∨ f.peek rest = some '-' then return '-' :: rest
    else
      let (last, rest) ← readMember f (f.skip rest)
      match first, last with
      | .literal a _, .literal b _ =>
        if a ≤ b ∧ last.isAdmittedInSet f then return rest else none
      | _, _ => none
  | s => return s

/-- Reads on in a set that stands inside others, up to the end of the outermost. The answer is the
depth of that one and what follows it. `fuel` bounds the number of members, operators and brackets.
-/
def readFrom (f : Flags) : (fuel : Nat) → Bracket → (outer : List Bracket) → List Char →
    Option (Nat × List Char)
  | 0, _, _, _ => none
  | fuel + 1, b, outer, s =>
    match f.skip s with
    | [] => none
    | '[' :: rest =>
      match readClass rest with
      | some (negated, rest) =>
        if isClassAdmitted f negated then readFrom f fuel (b.add 0) outer rest else none
      | none => do
        let (inner, rest) ← start f rest
        readFrom f fuel inner (b :: outer) rest
    | ']' :: rest =>
      match outer with
      | [] => some (b.depth + 1, rest)
      | next :: outer => readFrom f fuel (next.add (b.depth + 1)) outer rest
    | '&' :: '&' :: rest => readFrom f fuel b.operate outer rest
    | '-' :: '-' :: rest => readFrom f fuel b.operate outer rest
    | '~' :: '~' :: rest => readFrom f fuel b.operate outer rest
    | s => do readFrom f fuel (b.add 0) outer (← readRange f s)

/-- Reads a set after its bracket: its depth and what follows it. -/
def read (f : Flags) (s : List Char) : Option (Nat × List Char) := do
  let (b, rest) ← start f s
  readFrom f (rest.length + 1) b [] rest

end Bracket

end Pattern

end TopicRelay
