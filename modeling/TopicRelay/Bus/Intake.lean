import TopicRelay.Bus.Wire

/-!
# Taking in messages

Messages arrive as lines of a byte stream, in pieces that need not end where lines do. A blank line
and a line that holds no message are passed over. What stands after the last line feed is a line of
its own if the stream ends, and is lost if reading fails.
-/

namespace TopicRelay

namespace Wire

/-- The message that a line brings, if it brings one. -/
def message? (line : Bytes) : Option Message :=
  if line.all Bytes.isBlank then none else decode? line

end Wire

/-- The state of taking in a byte stream. -/
structure Intake where
  /-- The bytes since the last line feed, last first. -/
  pending : List UInt8 := []
deriving DecidableEq, Repr

namespace Intake

/-- Takes the next bytes. The messages of `acc`, last first, go before those of the lines that end
in these bytes. -/
def feedFrom (i : Intake) (acc : List Message) : Bytes → List Message × Intake
  | [] => (acc.reverse, i)
  | b :: rest =>
    if b = Bytes.lf then
      feedFrom {} ((Wire.message? i.pending.reverse).toList ++ acc) rest
    else feedFrom { pending := b :: i.pending } acc rest

/-- Takes the next bytes: the messages of the lines that end in them, and the state after them. -/
def feed (i : Intake) (b : Bytes) : List Message × Intake := i.feedFrom [] b

/-- The message of the line that the end of the stream leaves unterminated. -/
def finish (i : Intake) : List Message := (Wire.message? i.pending.reverse).toList

/-- The messages of all lines that end in the pieces, and the state after them. -/
def feedAll (i : Intake) (pieces : List Bytes) : List Message × Intake :=
  pieces.foldl (fun (messages, i) piece =>
    let (more, i) := i.feed piece
    (messages ++ more, i)) ([], i)

end Intake

/-- How a byte stream stops. -/
inductive StreamEnd where
  /-- The stream ends. -/
  | ended
  /-- Reading fails. -/
  | failed (reason : String)
deriving DecidableEq, Repr

/-- Where messages are forwarded to. -/
inductive Receiver where
  | listening
  | gone
deriving DecidableEq, Repr

/-- Takes in a whole stream: the messages forwarded, and their number or why reading failed. Without
a receiver the first message cannot be forwarded, and intake stops there without an error. -/
def forwardAll (receiver : Receiver) (pieces : List Bytes) (last : StreamEnd) :
    List Message × Except String Nat :=
  let (complete, rest) := ({} : Intake).feedAll pieces
  let messages :=
    match last with
    | .ended => complete ++ rest.finish
    | .failed _ => complete
  match receiver, messages, last with
  | .gone, _ :: _, _ => ([], .ok 0)
  | _, _, .ended => (messages, .ok messages.length)
  | _, _, .failed reason => (messages, .error reason)

end TopicRelay
