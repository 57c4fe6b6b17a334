import TopicRelay.Bytes

/-!
# Reading bytes as text whatever they are

`lossy` reads a byte string as UTF-8 and puts one replacement character for every longest run of
bytes that starts a character and cannot be finished.
-/

namespace TopicRelay

namespace Text

/-- What a first byte calls for: the number of bytes after it, and the range of the next one. -/
def lead? (b : UInt8) : Option (Nat × UInt8 × UInt8) :=
  if 0xC2 ≤ b && b ≤ 0xDF then some (1, 0x80, 0xBF)
  else if b == 0xE0 then some (2, 0xA0, 0xBF)
  else if b == 0xED then some (2, 0x80, 0x9F)
  else if 0xE1 ≤ b && b ≤ 0xEF then some (2, 0x80, 0xBF)
  else if b == 0xF0 then some (3, 0x90, 0xBF)
  else if 0xF1 ≤ b && b ≤ 0xF3 then some (3, 0x80, 0xBF)
  else if b == 0xF4 then some (3, 0x80, 0x8F)
  else none

/-- The bits of a first byte that belong to the character, when `n` bytes follow it. -/
def leadBits (n : Nat) (b : UInt8) : Nat := b.toNat % Nat.pow 2 (6 - n)

/-- Reads `n` more bytes of a character, the next one from `lo` to `hi`. The first part is the code
point, if all were there; the second part is what follows the bytes read. -/
def readTail : (n : Nat) → (lo hi : UInt8) → (bits : Nat) → Bytes → Option Nat × Bytes
  | 0, _, _, bits, rest => (some bits, rest)
  | _ + 1, _, _, _, [] => (none, [])
  | n + 1, lo, hi, bits, b :: rest =>
    if lo ≤ b && b ≤ hi then readTail n 0x80 0xBF (bits * 64 + b.toNat % 64) rest
    else (none, b :: rest)

theorem readTail_length_le (n : Nat) (lo hi : UInt8) (bits : Nat) (b : Bytes) :
    (readTail n lo hi bits b).2.length ≤ b.length := by
  induction n generalizing lo hi bits b with
  | zero => simp [readTail]
  | succ n ih =>
    cases b with
    | nil => simp [readTail]
    | cons c rest =>
      simp only [readTail]
      split
      · exact Nat.le_succ_of_le (ih ..)
      · exact Nat.le_refl _

/-- The character that stands for bytes that spell none. -/
def replacement : Char := '\ufffd'

/-- The bytes as text, with a replacement character for each unreadable run. -/
def lossy : Bytes → List Char
  | [] => []
  | b :: rest =>
    if b < 0x80 then Char.ofNat b.toNat :: lossy rest
    else match lead? b with
      | none => replacement :: lossy rest
      | some (n, lo, hi) =>
        have := readTail_length_le n lo hi (leadBits n b) rest
        ((readTail n lo hi (leadBits n b) rest).1.map Char.ofNat).getD replacement ::
          lossy (readTail n lo hi (leadBits n b) rest).2
termination_by b => b.length

end Text

end TopicRelay
