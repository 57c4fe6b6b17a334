import TopicRelay.Numeral

/-!
# Chunked bodies

A chunked body is a sequence of chunks, each a size line, that many bytes of data and an empty line,
closed by a chunk of size zero, trailer lines and an empty line. The scanner finds the end of such a
body in bytes that arrive in slices of any size. It keeps no data: between slices it remembers the
phase it is in and the bytes of a control line that has not ended yet.

`Scanner.push` says what one byte does, `Scanner.run` folds it over a slice, and `Scanner.advance`
closes a slice: it settles the counters and gives up on a control line that has grown too long.
-/

namespace TopicRelay

namespace Chunked

/-- The longest control line that may stay unfinished at the end of a slice. -/
def maxLine : Nat := 4096

/-- What the scanner expects next. -/
inductive Phase where
  | size
  | data (remaining : Nat)
  | dataEnd
  | trailer
  | done
  | invalid
deriving DecidableEq, Repr

/-- The body has ended, or its end can never be found. -/
def Phase.isFinal : Phase → Bool
  | .done | .invalid => true
  | _ => false

/-- The size that a line without its end declares. What follows a `;` is an extension. -/
def size? (line : Bytes) : Option Nat :=
  (Numeral.read 16 Numeral.wordBound (Bytes.trim (line.takeWhile (· ≠ 59)))).toOption

/-- A scanner between two slices. -/
structure Scanner where
  phase : Phase := .size
  /-- The bytes of the unfinished control line, last first. -/
  pending : List UInt8 := []
  /-- Bytes of the body scanned so far, control lines included. -/
  bodyLength : Nat := 0
  /-- Data chunks found so far; the closing chunk is not counted. -/
  chunks : Nat := 0
deriving DecidableEq, Repr

/-- The answer to one slice. -/
inductive Step where
  /-- The body goes on after the slice. -/
  | needMore
  /-- The body ended after `used` bytes of the slice. -/
  | done (used : Nat)
  /-- A control line could not be read. -/
  | invalid
deriving DecidableEq, Repr

namespace Scanner

/-- Acts on a finished control line. -/
def finishLine (s : Scanner) (line : Bytes) : Scanner :=
  match s.phase with
  | .size =>
    match size? line with
    | none => { s with phase := .invalid }
    | some 0 => { s with phase := .trailer }
    | some n => { s with phase := .data n, chunks := s.chunks + 1 }
  | .dataEnd => { s with phase := if line.isEmpty then .size else .invalid }
  | .trailer => { s with phase := if line.isEmpty then .done else .trailer }
  | _ => s

/-- Takes one more byte of the body. -/
def push (s : Scanner) (b : UInt8) : Scanner :=
  match s.phase with
  | .done | .invalid => s
  | .data n => { s with phase := if n ≤ 1 then .dataEnd else .data (n - 1) }
  | .size | .dataEnd | .trailer =>
    if b = Bytes.lf then finishLine { s with pending := [] } (Bytes.dropCR s.pending.reverse)
    else { s with pending := b :: s.pending }

/-- Takes bytes up to the end of the body or of the slice, counting those taken after `used`. -/
def run (s : Scanner) (used : Nat) : Bytes → Scanner × Nat
  | [] => (s, used)
  | b :: rest => if s.phase.isFinal then (s, used) else run (s.push b) (used + 1) rest

/-- Takes the next slice of the body. Of a control line that has grown too long no byte of the slice
is kept. -/
def advance (s : Scanner) (slice : Bytes) : Scanner × Step :=
  let (t, used) := s.run 0 slice
  match t.phase with
  | .done => ({ t with bodyLength := s.bodyLength + used }, .done used)
  | .invalid => (t, .invalid)
  | _ =>
    if t.pending.length > maxLine then
      ({ t with phase := .invalid, pending := t.pending.drop slice.length }, .invalid)
    else ({ t with bodyLength := s.bodyLength + used }, .needMore)

end Scanner

end Chunked

end TopicRelay
