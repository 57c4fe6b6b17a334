import TopicRelay.Message
import TopicRelay.Json.Skip

/-!
# The line format of the bus

On a stream the bus speaks JSON, one message or publication a line. A message is an object with the
keys `topic`, `payload`, `reply_topic` and `correlation_data`, or an array of their values in this
order; the last two may be missing. A publication is an object with `topic`, `payload`,
`user_properties` and, if it has any, `correlation_data`.

A byte string is written as a JSON string if it is UTF-8 and as an array of numbers otherwise; both
forms are read. Keys that are not known are passed over, and a known key must not occur twice.
-/

namespace TopicRelay

namespace Wire

open Json

/-! ### Reading messages -/

/-- Reads the numbers of an array of bytes after its bracket, put after `acc`, which holds bytes
last first. `fuel` bounds their number. -/
def readNumbers : (fuel : Nat) → (acc : List UInt8) → Bytes → Option (Bytes × Bytes)
  | 0, _, _ => none
  | fuel + 1, acc, b =>
    let b := skipBlank b
    let digits := b.takeWhile isDigit
    if digits.length > 1 ∧ digits.head? = some 48 then none
    else match Numeral.readDigits 10 256 0 digits, digits, skipBlank (b.dropWhile isDigit) with
      | .ok n, _ :: _, 44 :: rest => readNumbers fuel (UInt8.ofNat n :: acc) rest
      | .ok n, _ :: _, 93 :: rest => some ((UInt8.ofNat n :: acc).reverse, rest)
      | _, _, _ => none

/-- Reads a byte string in either form. -/
def readBytes (b : Bytes) : Option (Bytes × Bytes) :=
  match b with
  | 34 :: _ => (readString b).map fun (s, rest) => (Bytes.ofString s, rest)
  | 91 :: rest =>
    match skipBlank rest with
    | 93 :: rest => some ([], rest)
    | rest => readNumbers (rest.length + 1) [] rest
  | _ => none

/-- Reads a byte string in either form, or the word for none. -/
def readOptionalBytes (b : Bytes) : Option (Option Bytes × Bytes) :=
  match Bytes.after? (Bytes.ofString "null") b with
  | some rest => some (none, rest)
  | none => (readBytes b).map fun (content, rest) => (some content, rest)

/-- The parts of a message that have been read. -/
structure Fields where
  topic : Option String := none
  payload : Option Bytes := none
  replyTopic : Option String := none
  correlation : Option (Option Bytes) := none
deriving DecidableEq, Repr

/-- A key of a message. -/
inductive Key where
  | topic
  | payload
  | replyTopic
  | correlation
deriving DecidableEq, Repr

/-- The key that a text names. -/
def Key.ofName? : String → Option Key
  | "topic" => some .topic
  | "payload" => some .payload
  | "reply_topic" => some .replyTopic
  | "correlation_data" => some .correlation
  | _ => none

namespace Fields

/-- Reads the value of a key that has not been read before. -/
def read (f : Fields) (key : Key) (b : Bytes) : Option (Fields × Bytes) :=
  match key with
  | .topic =>
    if f.topic.isSome then none
    else (readString b).map fun (s, rest) => ({ f with topic := some s }, rest)
  | .payload =>
    if f.payload.isSome then none
    else (readBytes b).map fun (p, rest) => ({ f with payload := some p }, rest)
  | .replyTopic =>
    if f.replyTopic.isSome then none
    else (readString b).map fun (s, rest) => ({ f with replyTopic := some s }, rest)
  | .correlation =>
    if f.correlation.isSome then none
    else (readOptionalBytes b).map fun (c, rest) => ({ f with correlation := some c }, rest)

/-- The message that the parts make up, if no needed one is missing. -/
def toMessage? (f : Fields) : Option Message :=
  match f.topic, f.payload with
  | some topic, some payload =>
    some {
      topic, payload
      replyTopic := f.replyTopic.getD ""
      correlation := f.correlation.getD none }
  | _, _ => none

/-- Reads one key with its value; the value of an unknown key is passed over. -/
def readMember (f : Fields) (b : Bytes) : Option (Fields × Bytes) :=
  match readString (skipBlank b) with
  | none => none
  | some (name, rest) =>
    match Bytes.after? [58] (skipBlank rest) with
    | none => none
    | some rest =>
      match Key.ofName? name with
      | some key => f.read key (skipBlank rest)
      | none => (skipValue rest).map fun rest => (f, rest)

/-- Reads the members of an object up to its brace. `fuel` bounds their number. -/
def readMembers : (fuel : Nat) → Fields → Bytes → Option (Fields × Bytes)
  | 0, _, _ => none
  | fuel + 1, f, b =>
    match f.readMember b with
    | none => none
    | some (f, rest) =>
      match skipBlank rest with
      | 44 :: rest => readMembers fuel f rest
      | 125 :: rest => some (f, rest)
      | _ => none

/-- Reads the values of an array up to its bracket, one for each key in turn. -/
def readElements : List Key → Fields → Bytes → Option (Fields × Bytes)
  | [], _, _ => none
  | key :: keys, f, b =>
    match f.read key (skipBlank b) with
    | none => none
    | some (f, rest) =>
      match skipBlank rest with
      | 44 :: rest => readElements keys f rest
      | 93 :: rest => some (f, rest)
      | _ => none

end Fields

/-- Reads the parts of a message in either form. -/
def readFields (b : Bytes) : Option (Fields × Bytes) :=
  match skipBlank b with
  | 123 :: rest =>
    match skipBlank rest with
    | 125 :: rest => some ({}, rest)
    | rest => Fields.readMembers (rest.length + 1) {} rest
  | 91 :: rest => Fields.readElements [.topic, .payload, .replyTopic, .correlation] {} rest
  | _ => none

/-- The message on a line. Nothing but white space may follow it. -/
def decode? (line : Bytes) : Option Message :=
  match readFields line with
  | none => none
  | some (f, rest) => if (skipBlank rest).isEmpty then f.toMessage? else none

/-! ### Writing publications -/

/-- Items with commas between them. -/
def separated (items : List Bytes) : Bytes := (items.intersperse [44]).flatten

/-- An array of items. -/
def array (items : List Bytes) : Bytes := 91 :: separated items ++ [93]

/-- A member of an object. -/
def member (key : String) (value : Bytes) : Bytes := quote (Bytes.ofString key) ++ 58 :: value

/-- An object of members. -/
def object (members : List Bytes) : Bytes := 123 :: separated members ++ [125]

/-- The text of a string. -/
def text (s : String) : Bytes := quote (Bytes.ofString s)

/-- A byte string in the form that fits it. -/
def content (b : Bytes) : Bytes :=
  if (Bytes.text? b).isSome then quote b else array (b.map fun x => Numeral.write x.toNat)

/-- The line of a publication, with its end. -/
def encode (p : Publication) : Bytes :=
  object
    ([member "topic" (text p.topic),
      member "payload" (content p.payload),
      member "user_properties" (array (p.properties.map fun e => array [text e.1, text e.2]))] ++
      (p.correlation.map fun c => member "correlation_data" (content c)).toList) ++
    [Bytes.lf]

end Wire

end TopicRelay
