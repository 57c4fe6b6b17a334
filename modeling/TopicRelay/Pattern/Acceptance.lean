import TopicRelay.Pattern.Bracket
import TopicRelay.Text.Letter

/-!
# Patterns that can be used

A pattern is a choice between sequences of primitives, sets, groups and repetitions of these. It can
be used if it can be read, if all its parts are admitted and if it is not nested too deep.
A repetition by number is not admitted.

The reader goes through a pattern from left to right with the open groups in a list, so that deep
patterns are no harder than long ones. Of what it has read it keeps the depths only.
-/

namespace TopicRelay

namespace Pattern

/-- The depth to which patterns may be nested. -/
def maxDepth : Nat := 250

/-- A part of a sequence. -/
structure Item where
  depth : Nat
  /-- Whether the part can be repeated; a change of flags cannot. -/
  isRepeatable : Bool := true
deriving DecidableEq, Repr

/-- What has been read of a choice between sequences. -/
structure Choice where
  /-- The depths of the sequences before the present one. -/
  sequences : List Nat := []
  /-- The parts of the present sequence, last first. -/
  items : List Item := []
deriving DecidableEq, Repr

namespace Choice

/-- The choice with a further part in its present sequence. -/
def add (c : Choice) (item : Item) : Choice := { c with items := item :: c.items }

/-- The depth of the present sequence. -/
def sequenceDepth (c : Choice) : Nat := nest (c.items.map (·.depth))

/-- The depth of the choice. -/
def depth (c : Choice) : Nat := nest (c.sequenceDepth :: c.sequences)

/-- Begins a further sequence. -/
def branch (c : Choice) : Choice := { sequences := c.sequenceDepth :: c.sequences }

/-- Repeats the last part. -/
def repeatLast? (c : Choice) : Option Choice :=
  match c.items with
  | [] => none
  | item :: rest =>
    if item.isRepeatable then some { c with items := { depth := item.depth + 1 } :: rest } else none

end Choice

/-- What has been read of a pattern. -/
structure Reading where
  flags : Flags := {}
  choice : Choice := {}
  /-- The open groups, innermost first: the flags and the choice to go on with after each. -/
  groups : List (Flags × Choice) := []
  /-- The names of groups. -/
  names : List String := []
deriving DecidableEq, Repr

namespace Reading

/-- The reading with a further part of some depth. -/
def add (r : Reading) (depth : Nat) : Reading := { r with choice := r.choice.add { depth } }

/-- Opens a group that is read with some flags. -/
def openGroup (r : Reading) (flags : Flags) : Reading :=
  { r with flags, choice := {}, groups := (r.flags, r.choice) :: r.groups }

/-- Closes a group. The flags are again those from before it. -/
def closeGroup? (r : Reading) : Option Reading :=
  match r.groups with
  | [] => none
  | (flags, choice) :: groups =>
    some { r with flags, choice := choice.add { depth := r.choice.depth + 1 }, groups }

/-- Whether a character may stand in the name of a group. -/
def isNameChar (isFirst : Bool) (c : Char) : Bool :=
  if isFirst then c = '_' || Text.isAlphabetic c
  else c = '_' || c = '.' || c = '[' || c = ']' || Text.isAlphanumeric c

/-- Whether a text is the name of a group. -/
def isName : List Char → Bool
  | [] => false
  | c :: rest => isNameChar true c && rest.all (isNameChar false)

/-- Opens a group with a name. No two groups have the same name. -/
def openNamed? (r : Reading) (s : List Char) : Option (Reading × List Char) :=
  let name := s.takeWhile (· ≠ '>')
  match s.dropWhile (· ≠ '>') with
  | [] => none
  | _ :: rest =>
    if isName name ∧ String.ofList name ∉ r.names then
      some ({ r.openGroup r.flags with names := String.ofList name :: r.names }, rest)
    else none

/-- Reads the names of flags and the character that ends them; `seen` are the names before, last
first. No name may come twice, and a hyphen not at the end. -/
def readFlags (seen : List Char) : List Char → Option (List Char × Char × List Char)
  | [] => none
  | c :: rest =>
    if c = ':' ∨ c = ')' then
      if seen.head? = some '-' then none else some (seen.reverse, c, rest)
    else if (Flags.isName c ∨ c = '-') ∧ c ∉ seen then readFlags (c :: seen) rest
    else none

/-- Changes flags: up to the end of the present group, or in a new one. -/
def changeFlags? (r : Reading) (s : List Char) : Option (Reading × List Char) := do
  let (names, last, rest) ← readFlags [] s
  let flags := r.flags.setAll true names
  if last = ':' then return (r.openGroup flags, rest)
  else if names = [] then none
  else return ({ r with flags, choice := r.choice.add { depth := 0, isRepeatable := false } }, rest)

/-- Opens a group after its parenthesis, or changes flags there. Groups that only look ahead or back
are not admitted. -/
def open? (r : Reading) (s : List Char) : Option (Reading × List Char) :=
  match r.flags.skip s with
  | '?' :: '=' :: _ => none
  | '?' :: '!' :: _ => none
  | '?' :: '<' :: '=' :: _ => none
  | '?' :: '<' :: '!' :: _ => none
  | '?' :: 'P' :: '<' :: rest => r.openNamed? rest
  | '?' :: '<' :: rest => r.openNamed? rest
  | '?' :: rest => r.changeFlags? rest
  | rest => some (r.openGroup r.flags, rest)

/-- Repeats the last part. A question mark right after the sign of a repetition belongs to it. -/
def repeat? (r : Reading) (s : List Char) : Option (Reading × List Char) :=
  r.choice.repeatLast?.map fun choice =>
    ({ r with choice }, match s with
      | '?' :: rest => rest
      | rest => rest)

/-- Reads the next part of a pattern. -/
def readPart (r : Reading) (s : List Char) : Option (Reading × List Char) :=
  match s with
  | '(' :: rest => r.open? rest
  | ')' :: rest => r.closeGroup?.map fun r => (r, rest)
  | '|' :: rest => some ({ r with choice := r.choice.branch }, rest)
  | '[' :: rest => (Bracket.read r.flags rest).map fun (depth, rest) => (r.add depth, rest)
  | '?' :: rest => r.repeat? rest
  | '*' :: rest => r.repeat? rest
  | '+' :: rest => r.repeat? rest
  | '{' :: _ => none
  | s =>
    match readPrimitive r.flags s with
    | none => none
    | some (p, rest) => if p.isAdmitted r.flags then some (r.add 0, rest) else none

/-- Reads parts to the end of the pattern. `fuel` bounds their number. -/
def readParts : (fuel : Nat) → Reading → List Char → Option Reading
  | 0, _, _ => none
  | fuel + 1, r, s =>
    match r.flags.skip s with
    | [] => some r
    | s =>
      match r.readPart s with
      | none => none
      | some (r, rest) => readParts fuel r rest

end Reading

/-- Whether a pattern can be used. -/
def isAccepted (s : String) : Bool :=
  match Reading.readParts (s.length + 1) {} s.toList with
  | none => false
  | some r => r.groups.isEmpty && r.choice.depth ≤ maxDepth

end Pattern

end TopicRelay
