import OperandStack.Text.Decimal
import OperandStack.Text.Quoted

/-!
# Bytes in hexadecimal

A byte is written as two digits in lower case, the high half first. A text of hexadecimal digits of either case, two for
each byte, is read back; any other text is refused with the first flaw: an odd number of bytes in UTF-8, or else the
first character that is no digit, named by the first byte of its UTF-8 form and by its offset in bytes.
-/

namespace OperandStack

namespace Hex

/-- Why a text denotes no bytes. -/
inductive Flaw where
  | oddLength
  | badCharacter (lead : UInt8) (position : Nat)
  deriving DecidableEq, Repr

/-- The wording of a flaw. -/
def Flaw.message : Flaw → Text
  | .oddLength => "Odd number of digits".toList
  | .badCharacter lead position =>
    "Invalid character ".toList ++ Quoted.ofByte lead ++ " at position ".toList ++ Decimal.ofNat position

/-- The two digits of a byte, the high half first. -/
def ofByte (b : UInt8) : Text :=
  [Nat.digitChar (b.toNat / 16), Nat.digitChar (b.toNat % 16)]

/-- The digits of a byte sequence. -/
def encode (bytes : List UInt8) : Text :=
  bytes.flatMap ofByte

/-- The value of a hexadecimal digit of either case. -/
def digit? (c : Char) : Option Nat :=
  if '0' ≤ c ∧ c ≤ '9' then some (c.toNat - '0'.toNat)
  else if 'a' ≤ c ∧ c ≤ 'f' then some (c.toNat - 'a'.toNat + 10)
  else if 'A' ≤ c ∧ c ≤ 'F' then some (c.toNat - 'A'.toNat + 10)
  else none

/-- The first byte of a character in UTF-8. -/
def leadByte (c : Char) : UInt8 :=
  (String.utf8EncodeChar c).headD 0

/-- The value of the digit at a position, or the flaw that it is none. -/
def digitAt (position : Nat) (c : Char) : Except Flaw Nat :=
  match digit? c with
  | some n => .ok n
  | none => .error (.badCharacter (leadByte c) position)

/-- The bytes that the digits from a position on denote. All characters before a flaw are digits, one byte each, so
positions count bytes. -/
def decodeFrom (position : Nat) : Text → Except Flaw (List UInt8)
  | [] => .ok []
  | [c] => do
    let _ ← digitAt position c
    .error .oddLength
  | high :: low :: rest => do
    let h ← digitAt position high
    let l ← digitAt (position + 1) low
    let bytes ← decodeFrom (position + 2) rest
    .ok (UInt8.ofNat (16 * h + l) :: bytes)

/-- The bytes that a text of hexadecimal digits denotes. -/
def decode (t : Text) : Except Flaw (List UInt8) :=
  if t.byteLength % 2 = 1 then .error .oddLength else decodeFrom 0 t

end Hex

end OperandStack
