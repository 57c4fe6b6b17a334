import TopicRelay.Toml.Scalar

/-!
# TOML documents

A document is read line by line. Every line is blank, a comment, a header or a key with its value,
and adds to the tables read so far. Only whether a document can be read matters to the relay, and
what it then says, so a reader that fails gives no reason.

Arrays and tables in braces may be nested up to `maxNesting` deep, and a dotted key may have up to
`maxNesting` parts.
-/

namespace TopicRelay

namespace Toml

/-- The depth to which values and keys may be nested. -/
def maxNesting : Nat := 79

/-! ### White space, comments and line ends -/

/-- Reads the end of a line. -/
def readNewline : List Char → Option (List Char)
  | '\n' :: rest => some rest
  | '\r' :: '\n' :: rest => some rest
  | _ => none

/-- What follows the comment at the start, if there is one. -/
def skipComment : List Char → List Char
  | '#' :: rest => rest.dropWhile isPlain
  | s => s

/-- Reads what may follow a value or a header on its line: space, a comment and the line's end. -/
def readLineEnd (s : List Char) : Option (List Char) :=
  match skipComment (skipSpace s) with
  | [] => some []
  | s => readNewline s

/-- What follows the space, comments and line ends at the start; `fuel` bounds their number. -/
def skipLines : (fuel : Nat) → List Char → Option (List Char)
  | 0, s => some s
  | fuel + 1, s =>
    match skipSpace s with
    | '#' :: rest => (readNewline (skipComment ('#' :: rest))).bind (skipLines fuel)
    | '\n' :: rest => skipLines fuel rest
    | '\r' :: rest => (readNewline ('\r' :: rest)).bind (skipLines fuel)
    | s => some s

/-! ### Keys -/

/-- A character of a key without quotes. -/
def isBare (c : Char) : Bool := c.isAlphanum || c = '_' || c = '-'

/-- One part of a key. -/
def readKeyPart : Reader String
  | '"' :: rest => basicBody [] rest
  | '\'' :: rest => literalBody [] rest
  | s =>
    if (s.takeWhile isBare).isEmpty then none
    else some (String.ofList (s.takeWhile isBare), s.dropWhile isBare)

/-- The parts of a key, between dots; `room` bounds their number. -/
def readKeyParts : (room : Nat) → Reader (List String)
  | 0, _ => none
  | room + 1, s => do
    let (part, s) ← readKeyPart (skipSpace s)
    match skipSpace s with
    | '.' :: rest => do
      let (parts, s) ← readKeyParts room rest
      return (part :: parts, s)
    | s => return ([part], s)

/-- A key: the path to a table, and the last part. -/
def readKey (s : List Char) : Option ((List String × String) × List Char) := do
  let (parts, s) ← readKeyParts maxNesting s
  return ((parts.dropLast, ← parts.getLast?), s)

/-! ### Values -/

/-- The items of an array after its bracket; `fuel` bounds their number. -/
def readItems (item : Reader Value) : (fuel : Nat) → Reader (List Value)
  | 0, _ => none
  | fuel + 1, s => do
    match ← skipLines s.length s with
    | ']' :: rest => return ([], rest)
    | s => do
      let (v, s) ← item s
      match ← skipLines s.length s with
      | ',' :: rest => do
        let (vs, s) ← readItems item fuel rest
        return (v :: vs, s)
      | ']' :: rest => return ([v], rest)
      | _ => none

/-- A key with its value. -/
def readPair (value : Reader Value) (s : List Char) :
    Option ((List String × String × Value) × List Char) := do
  let ((path, key), s) ← readKey s
  let (v, s) ← value (skipSpace (← readChar '=' s))
  return ((path, key, v), s)

/-- The entries of a table in braces, added to `es`; `fuel` bounds their number. -/
def readPairs (value : Reader Value) : (fuel : Nat) → Entries → Reader Entries
  | 0, _, _ => none
  | fuel + 1, es, s => do
    let ((path, key, v), s) ← readPair value s
    let es ← es.addAt path key v
    match skipSpace s with
    | ',' :: rest => readPairs value fuel es rest
    | '}' :: rest => return (es, rest)
    | _ => none

/-- A value in which brackets and braces are nested up to `room` deep. -/
def readValue (room : Nat) (s : List Char) : Option (Value × List Char) :=
  match s with
  | '[' :: rest =>
    match room with
    | 0 => none
    | room + 1 =>
      (readItems (readValue room) (rest.length + 1) rest).map fun (vs, s) => (.array vs, s)
  | '{' :: rest =>
    match room with
    | 0 => none
    | room + 1 =>
      match skipSpace rest with
      | '}' :: rest => some (.table .inline [], rest)
      | rest =>
        (readPairs (readValue room) (rest.length + 1) [] rest).map fun (es, s) =>
          (.table .inline es, s)
  | '"' :: _ => (readString s).map fun (t, s) => (.string t, s)
  | '\'' :: _ => (readString s).map fun (t, s) => (.string t, s)
  | 't' :: _ => readBoolean s
  | 'f' :: _ => readBoolean s
  | _ => readNumeric s

/-! ### Lines -/

/-- A document read so far: its tables, and the header that is in force. -/
structure Reading where
  entries : Entries := []
  header : List String := []

/-- Reads one line and adds what it says. -/
def readLine (doc : Reading) (s : List Char) : Option (Reading × List Char) :=
  match s with
  | '#' :: _ => (readLineEnd s).map fun s => (doc, s)
  | '\n' :: _ => (readNewline s).map fun s => (doc, s)
  | '\r' :: _ => (readNewline s).map fun s => (doc, s)
  | '[' :: '[' :: rest => do
    let ((path, key), s) ← readKey rest
    let s ← readLineEnd (← readChar ']' (← readChar ']' s))
    return ({ entries := ← doc.entries.openArray path key, header := path ++ [key] }, s)
  | '[' :: rest => do
    let ((path, key), s) ← readKey rest
    let s ← readLineEnd (← readChar ']' s)
    return ({ entries := ← doc.entries.openTable path key, header := path ++ [key] }, s)
  | s => do
    let ((path, key, v), s) ← readPair (readValue maxNesting) s
    let s ← readLineEnd s
    return ({ doc with entries := ← doc.entries.addWithin doc.header path key v }, s)

/-- Reads lines up to the end of the document; `fuel` bounds their number. -/
def readLines : (fuel : Nat) → Reading → List Char → Option Reading
  | 0, _, _ => none
  | fuel + 1, doc, s =>
    match skipSpace s with
    | [] => some doc
    | s => do
      let (doc, s) ← readLine doc s
      readLines fuel doc s

/-- The characters without a byte order mark at their start. -/
def dropByteOrderMark : List Char → List Char
  | '\ufeff' :: rest => rest
  | s => s

/-- The table that a document denotes. -/
def read? (document : String) : Option Entries :=
  let s := dropByteOrderMark document.toList
  (readLines (s.length + 1) {} s).map (·.entries)

end Toml

end TopicRelay
