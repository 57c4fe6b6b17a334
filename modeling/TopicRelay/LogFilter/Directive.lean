import TopicRelay.LogFilter.Condition
import TopicRelay.LogFilter.Level

/-!
# Directives of log filters

A directive admits log lines up to a level, of a target, of a span and of a field in it:
`target[span{field=value}]=level`, where every part but one may be missing.

A directive is read without the white space around it. The places of its parts are counted in bytes
there, but the parts are cut from the text with the white space. With white space in front they are
not the parts that were meant, and a cut can even fall within a character.
-/

namespace TopicRelay

/-- A directive of a log filter. -/
structure LogDirective where
  target : Option String := none
  span : Option String := none
  fields : List FieldCondition := []
  level : LogLevel
deriving DecidableEq, Repr

/-- Why a directive cannot be used. -/
inductive LogFault where
  | unreadable
  /-- A part would begin or end within a character. -/
  | cutCharacter
deriving DecidableEq, Repr

namespace LogDirective

/-! ### Reading -/

/-- The part of a directive that is being read, with the place where it began. -/
inductive Part where
  | start
  /-- A level or a target. -/
  | name (began : Nat)
  | span (began : Nat)
  | field (began : Nat)
  /-- After the fields. -/
  | fields
  /-- After the brackets. -/
  | brackets
  | level (began : Nat)
deriving DecidableEq, Repr

/-- Whether no character of a text lies on both sides of a place. -/
def isBoundary (text : Bytes) (i : Nat) : Bool :=
  match text[i]? with
  | none => true
  | some b => b < 0x80 || 0xC0 ≤ b

/-- The text between two places. -/
def slice (text : Bytes) (first last : Nat) : Except LogFault String :=
  match Bytes.text? ((text.drop first).take (last - first)) with
  | some s => if isBoundary text first && isBoundary text last then .ok s else .error .cutCharacter
  | none => .error .cutCharacter

/-- What can be read, or else that it cannot. -/
def readable : Option α → Except LogFault α
  | some a => .ok a
  | none => .error .unreadable

/-- Whether a directive may start with a character. -/
def isStart (c : Char) : Bool := c = '-' || c = ':' || c = '_' || Text.isAlphanumeric c

/-- Takes the next character, which stands at place `i`. -/
def step (text : Bytes) (d : LogDirective) (p : Part) (i : Nat) (c : Char) :
    Except LogFault (LogDirective × Part) :=
  match p, c with
  | .start, '[' => .ok (d, .span (i + 1))
  | .start, c => if isStart c then .ok (d, .name i) else .error .unreadable
  | .name began, '=' => do return ({ d with target := ← slice text began i }, .level (i + 1))
  | .name began, '[' => do return ({ d with target := ← slice text began i }, .span (i + 1))
  | .name began, _ => .ok (d, .name began)
  | .span began, ']' => do return ({ d with span := ← slice text began i }, .brackets)
  | .span began, '{' => do
    let span ← slice text began i
    return ({ d with span := if span = "" then none else some span }, .field (i + 1))
  | .span began, _ => .ok (d, .span began)
  | .field began, '}' => do
    let field ← readable (FieldCondition.read? (← slice text began i).toList)
    return ({ d with fields := d.fields ++ [field] }, .fields)
  | .field began, _ => .ok (d, .field began)
  | .fields, ']' => .ok (d, .brackets)
  | .fields, _ => .error .unreadable
  | .brackets, '=' => .ok (d, .level (i + 1))
  | .brackets, _ => .error .unreadable
  | .level began, _ => .ok (d, .level began)

/-- Takes characters, the first of which stands at place `i`. -/
def steps (text : Bytes) (d : LogDirective) (p : Part) (i : Nat) :
    List Char → Except LogFault (LogDirective × Part)
  | [] => .ok (d, p)
  | c :: rest =>
    match step text d p i c with
    | .error e => .error e
    | .ok (d, p) => steps text d p (i + c.utf8Size) rest

/-- The directive after its last character. A name alone is a level or else a target, and a level
that is left out after its equals sign is the highest. -/
def conclude (text : Bytes) (d : LogDirective) : Part → Except LogFault LogDirective
  | .name began => do
    let name ← slice text began text.length
    match LogLevel.read? name with
    | some level => return { d with level }
    | none => return { d with target := name }
  | .level began => do
    let level ← slice text began text.length
    if level = "" then return d
    else return { d with level := ← readable (LogLevel.read? level) }
  | .brackets => .ok d
  | _ => .error .unreadable

/-- Reads a directive. -/
def read (s : List Char) : Except LogFault LogDirective := do
  let text := Bytes.ofString (String.ofList s)
  let trimmed := Text.trimEnd (Text.trimStart s)
  let (d, p) ← steps text { level := .trace } .start 0 trimmed
  conclude text d p

/-! ### Writing -/

/-- The text of a directive. -/
def text (d : LogDirective) : String :=
  let fields :=
    if d.fields = [] then ""
    else "\x7b" ++ String.intercalate "," (d.fields.map FieldCondition.text) ++ "\x7d"
  let scope :=
    if d.span = none ∧ d.fields = [] then "" else "[" ++ d.span.getD "" ++ fields ++ "]"
  let subject := d.target.getD "" ++ scope
  if d.target = none ∧ scope = "" then d.level.text else subject ++ "=" ++ d.level.text

/-! ### Order -/

/-- Lists of conditions in order. -/
def compareFields : List FieldCondition → List FieldCondition → Ordering
  | [], [] => .eq
  | [], _ :: _ => .lt
  | _ :: _, [] => .gt
  | a :: as, b :: bs => (a.compare b).then (compareFields as bs)

/-- Directives in order of how specific they are: by the length of the target, the presence of a
span and the number of fields, and then by their texts. -/
def compareSpecific (a b : LogDirective) : Ordering :=
  (compare (a.target.map String.utf8ByteSize) (b.target.map String.utf8ByteSize)).then
    ((compare a.span.isSome b.span.isSome).then
      ((compare a.fields.length b.fields.length).then
        ((compare a.target b.target).then
          ((compare a.span b.span).then (compareFields a.fields b.fields)))))

/-- Puts a directive where it belongs, in place of an equally specific one that says the same. -/
def insert (d : LogDirective) : List LogDirective → List LogDirective
  | [] => [d]
  | x :: rest =>
    match compareSpecific d x with
    | .gt => d :: x :: rest
    | .eq => d :: rest
    | .lt => x :: insert d rest

/-- Whether a directive looks at spans or fields. -/
def isDynamic (d : LogDirective) : Bool := d.span.isSome || !d.fields.isEmpty

/-- Whether a directive looks at no more than the target and the names of fields. -/
def isStatic (d : LogDirective) : Bool := d.span.isNone && d.fields.all (·.value.isNone)

end LogDirective

end TopicRelay
