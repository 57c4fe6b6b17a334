import TopicRelay.Header
import TopicRelay.Chunked

/-!
# The end of a response

A framer is fed the bytes of one response as they arrive and says when the response has ended. It
first looks for the end of the header block, then takes the length of the body from the deciding
fields: a declared length, or else the chunked form, or else no body at all.

A response has no end that a framer can find when its header block stays open beyond the limit or a
control line of its body is unreadable; the framer is then stalled and stays incomplete. What is
observed of a framer (`headerLength`, `bodyMode`, `totalNeeded?`, `isStalled`) is read off the part
of the response that it is in, so that the observations cannot disagree.
-/

namespace TopicRelay

/-- How the body of a response is delimited. -/
inductive BodyMode where
  /-- No length signal has been seen. -/
  | unknown
  /-- A declared length. -/
  | fixed (length : Nat)
  | chunked
deriving DecidableEq, Repr

/-- The answer to the question whether the response has ended. -/
inductive Progress where
  | incomplete
  /-- The response ends `length` bytes after its first byte. -/
  | complete (length : Nat)
deriving DecidableEq, Repr

namespace Framer

/-- The body after a finished header block. -/
inductive Body where
  /-- Without a length signal the body is empty. -/
  | empty
  | fixed (length : Nat)
  | chunked (scanner : Chunked.Scanner)
deriving DecidableEq, Repr

/-- The part of the response that a framer is in. -/
inductive Part where
  /-- The header block is open; `seen` are its bytes, last first. -/
  | header (seen : List UInt8)
  /-- The header block stayed open beyond the limit. -/
  | oversized
  | body (headerLength : Nat) (body : Body)
deriving DecidableEq, Repr

/-- The header length that a framer allows unless told otherwise. -/
def defaultMaxHeader : Nat := 65536

end Framer

/-- The state of framing one response. -/
structure Framer where
  /-- Header bytes that may be buffered while the block is open at the end of a feed. -/
  maxHeader : Nat := Framer.defaultMaxHeader
  /-- Bytes fed before the response was complete. -/
  consumed : Nat := 0
  part : Framer.Part := .header []
deriving DecidableEq, Repr

namespace Framer

/-- Whether the header block, its bytes given last first, has just been closed. -/
def isClosed (seen : List UInt8) : Bool := Header.terminator.reverse.isPrefixOf seen

/-- Adds bytes to an open header block up to its end; the second part is what follows the block. -/
def scanHeader (seen : List UInt8) : Bytes → List UInt8 × Option Bytes
  | [] => (seen, none)
  | b :: rest =>
    if isClosed (b :: seen) then (b :: seen, some rest) else scanHeader (b :: seen) rest

/-- The body that a header block announces, after its first bytes `rest`. -/
def bodyOf (header rest : Bytes) : Body :=
  match Header.contentLength? header with
  | some n => .fixed n
  | none =>
    if Header.isChunked header then .chunked (({} : Chunked.Scanner).advance rest).1 else .empty

/-- Whether the header block has ended. -/
def headerComplete (f : Framer) : Bool :=
  match f.part with
  | .body .. => true
  | _ => false

/-- The length of the header block with its terminator, zero until it is found. -/
def headerLength (f : Framer) : Nat :=
  match f.part with
  | .body n _ => n
  | _ => 0

/-- How the body is delimited, as far as the header block has told. -/
def bodyMode (f : Framer) : BodyMode :=
  match f.part with
  | .body _ (.fixed n) => .fixed n
  | .body _ (.chunked _) => .chunked
  | _ => .unknown

/-- The sum of two lengths, which stays below the bound of 64-bit words. -/
def addLength (m n : Nat) : Nat := min (m + n) (Numeral.wordBound - 1)

/-- The length of the whole response, once it is known. -/
def totalNeeded? (f : Framer) : Option Nat :=
  match f.part with
  | .body h .empty => some h
  | .body h (.fixed n) => some (addLength h n)
  | .body h (.chunked s) => if s.phase = .done then some (h + s.bodyLength) else none
  | _ => none

/-- The length of the whole response, once it is known and all of it has been fed. -/
def completeAt? (f : Framer) : Option Nat := f.totalNeeded?.filter (· ≤ f.consumed)

/-- No further bytes can complete the response. -/
def isStalled (f : Framer) : Bool :=
  match f.part with
  | .oversized => true
  | .body _ (.chunked s) => s.phase = .invalid
  | _ => false

/-- Whether the response has ended. -/
def progress (f : Framer) : Progress :=
  match f.completeAt? with
  | some n => .complete n
  | none => .incomplete

/-- The part reached from `part` by `bytes`, after which `consumed` bytes have been fed. -/
def advancePart (maxHeader consumed : Nat) (bytes : Bytes) : Part → Part
  | .header seen =>
    match scanHeader seen bytes with
    | (seen, some rest) => .body seen.length (bodyOf seen.reverse rest)
    | (seen, none) => if consumed > maxHeader then .oversized else .header seen
  | .oversized => .oversized
  | .body h (.chunked s) => .body h (.chunked (s.advance bytes).1)
  | .body h b => .body h b

/-- Takes the next bytes of the response. A complete response takes no more. -/
def feed (f : Framer) (bytes : Bytes) : Framer :=
  match f.completeAt? with
  | some _ => f
  | none =>
    { f with
      consumed := f.consumed + bytes.length
      part := advancePart f.maxHeader (f.consumed + bytes.length) bytes f.part }

/-- Whether the bytes, fed at once to a fresh framer, hold a complete response. -/
def scan (bytes : Bytes) : Progress := (({} : Framer).feed bytes).progress

end Framer

end TopicRelay
