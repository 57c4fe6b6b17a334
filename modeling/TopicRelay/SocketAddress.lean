import TopicRelay.Numeral

/-!
# Socket addresses

A socket address is an IP address with a port: `127.0.0.1:9090` or `[::1]:9090`. A version 4
address has four decimal numbers without leading zeros. A version 6 address has eight groups of up
to four hexadecimal digits, of which one run of zeros may be left out at `::` and the last two may
be written as a version 4 address; a decimal scope may follow after `%`. Nothing may be left over.

Readers take a byte string and give what they read with the bytes after it.
-/

namespace TopicRelay

/-- An IP address with a port. -/
inductive SocketAddress where
  | v4 (octets : List Nat) (port : Nat)
  | v6 (groups : List Nat) (scope : Nat) (port : Nat)
deriving DecidableEq, Repr

namespace SocketAddress

/-- Reads one given byte. -/
def readByte (c : UInt8) : Bytes → Option Bytes
  | [] => none
  | b :: rest => if b = c then some rest else none

/-- The digits of `radix` at the start of the bytes, as numbers, and what follows them. -/
def readDigits (radix : Nat) : Bytes → List Nat × Bytes
  | [] => ([], [])
  | b :: rest =>
    match Numeral.digit? radix b with
    | none => ([], b :: rest)
    | some d => (d :: (readDigits radix rest).1, (readDigits radix rest).2)

/-- The number that digits denote. -/
def valueOf (radix : Nat) (digits : List Nat) : Nat := digits.foldl (fun acc d => acc * radix + d) 0

/-- Reads a number below `bound`, with leading zeros. -/
def readNumber (bound : Nat) (b : Bytes) : Option (Nat × Bytes) :=
  let (digits, rest) := readDigits 10 b
  if digits.isEmpty || bound ≤ valueOf 10 digits then none else some (valueOf 10 digits, rest)

/-- Reads one number of a version 4 address. -/
def readOctet (b : Bytes) : Option (Nat × Bytes) :=
  let (digits, rest) := readDigits 10 b
  if digits.isEmpty || 3 < digits.length || 255 < valueOf 10 digits then none
  else if digits.head? = some 0 && 1 < digits.length then none
  else some (valueOf 10 digits, rest)

/-- Reads one group of a version 6 address. -/
def readGroup (b : Bytes) : Option (Nat × Bytes) :=
  let (digits, rest) := readDigits 16 b
  if digits.isEmpty || 4 < digits.length then none else some (valueOf 16 digits, rest)

/-- Reads a version 4 address. -/
def readV4 (b : Bytes) : Option (List Nat × Bytes) := do
  let (p, b) ← readOctet b
  let (q, b) ← readOctet (← readByte 46 b)
  let (r, b) ← readOctet (← readByte 46 b)
  let (s, b) ← readOctet (← readByte 46 b)
  return ([p, q, r, s], b)

/-- The two groups that a version 4 address stands for. -/
def groupsOfV4 : List Nat → List Nat
  | [p, q, r, s] => [p * 256 + q, r * 256 + s]
  | _ => []

/-- Reads up to `room` groups separated by colons, `first` telling whether one has been read. The
last part of the answer tells whether the groups ended in a version 4 address. -/
def readGroups (first : Bool) : (room : Nat) → Bytes → List Nat × Bytes × Bool
  | 0, b => ([], b, false)
  | room + 1, b =>
    match if first then some b else readByte 58 b with
    | none => ([], b, false)
    | some c =>
      match if room = 0 then none else readV4 c with
      | some (octets, rest) => (groupsOfV4 octets, rest, true)
      | none =>
        match readGroup c with
        | none => ([], b, false)
        | some (group, rest) =>
          let (groups, rest, endsInV4) := readGroups false room rest
          (group :: groups, rest, endsInV4)

/-- Reads a version 6 address. -/
def readV6 (b : Bytes) : Option (List Nat × Bytes) := do
  let (head, rest, endsInV4) := readGroups true 8 b
  if head.length = 8 then return (head, rest)
  if endsInV4 then none
  let rest ← readByte 58 (← readByte 58 rest)
  let (tail, rest, _) := readGroups true (7 - head.length) rest
  return (head ++ List.replicate (8 - head.length - tail.length) 0 ++ tail, rest)

/-- Reads a port with the colon before it. -/
def readPort (b : Bytes) : Option (Nat × Bytes) :=
  (readByte 58 b).bind (readNumber Numeral.portBound)

/-- Reads the scope of a version 6 address, which is zero when it is left out. -/
def readScope (b : Bytes) : Option (Nat × Bytes) :=
  match readByte 37 b with
  | none => some (0, b)
  | some rest => readNumber 0x100000000 rest

/-- Reads a version 4 address with a port. -/
def readWithV4 (b : Bytes) : Option (SocketAddress × Bytes) := do
  let (octets, b) ← readV4 b
  let (port, b) ← readPort b
  return (.v4 octets port, b)

/-- Reads a version 6 address in brackets with a port. -/
def readWithV6 (b : Bytes) : Option (SocketAddress × Bytes) := do
  let (groups, b) ← readV6 (← readByte 91 b)
  let (scope, b) ← readScope b
  let (port, b) ← readPort (← readByte 93 b)
  return (.v6 groups scope port, b)

/-- The socket address that a text denotes. -/
def parse? (s : String) : Option SocketAddress :=
  let b := Bytes.ofString s
  match (readWithV4 b).orElse fun _ => readWithV6 b with
  | some (address, []) => some address
  | _ => none

end SocketAddress

end TopicRelay
