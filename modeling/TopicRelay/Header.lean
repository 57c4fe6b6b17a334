import TopicRelay.Numeral

/-!
# Header blocks

A response starts with a header block: a start line and field lines, closed by a blank line. Only
the end of the block and the two fields that decide where the body ends are read. Field names are
compared byte for byte, letter case included, and of several lines with one name the first decides.
-/

namespace TopicRelay

namespace Header

/-- The blank line that closes a header block, with the line end before it. -/
def terminator : Bytes := [13, 10, 13, 10]

/-- The offset of the first terminator, counted from `offset`. -/
def findTerminator (offset : Nat) : Bytes → Option Nat
  | [] => none
  | b@(_ :: rest) =>
    if terminator.isPrefixOf b then some offset else findTerminator (offset + 1) rest

/-- The offset of the first terminator. -/
def terminator? (b : Bytes) : Option Nat := findTerminator 0 b

/-- The value that a line gives to the field `name`, without the white space around it. -/
def valueOn (name line : Bytes) : Option Bytes :=
  ((Bytes.after? name line).bind (Bytes.after? [58])).map Bytes.trim

/-- The value of the first field called `name`. The start line is no field. -/
def fieldValue? (name header : Bytes) : Option Bytes :=
  (Bytes.lines header).tail.findSome? fun line => valueOn name (Bytes.dropCR line)

/-- The name of the field that declares the length of the body. -/
def contentLengthName : Bytes := Bytes.ofString "Content-Length"

/-- The name of the field that declares how the body is transferred. -/
def transferEncodingName : Bytes := Bytes.ofString "Transfer-Encoding"

/-- The declared length of the body, if the deciding line holds a number of 64 bits. -/
def contentLength? (header : Bytes) : Option Nat :=
  (fieldValue? contentLengthName header).bind fun value =>
    (Numeral.read 10 Numeral.wordBound value).toOption

/-- Whether the deciding line announces a chunked body, in any letter case. -/
def isChunked (header : Bytes) : Bool :=
  match fieldValue? transferEncodingName header with
  | none => false
  | some value => Bytes.contains (Bytes.ofString "chunked") (value.map Bytes.lower)

end Header

end TopicRelay
