import OperandStack.Text

/-!
# Quoted characters

One character of the first 256 between apostrophes. A character that cannot be seen, a backslash and the apostrophe
itself are written as escapes.
-/

namespace OperandStack

namespace Quoted

/-- A code point below 256 stands for no visible character: a control character, the no-break space or the soft hyphen.
-/
def isHidden (code : Nat) : Bool :=
  code < 0x20 || (0x7F ≤ code && code ≤ 0xA0) || code == 0xAD

/-- A code point as `\u` and its hexadecimal digits in braces. -/
def escape (code : Nat) : Text :=
  "\\u\x7b".toList ++ Nat.toDigits 16 code ++ "\x7d".toList

/-- A code point below 256 as it is written between apostrophes. -/
def body (code : Nat) : Text :=
  if code = 0x00 then "\\0".toList
  else if code = 0x09 then "\\t".toList
  else if code = 0x0A then "\\n".toList
  else if code = 0x0D then "\\r".toList
  else if code = 0x27 then "\\'".toList
  else if code = 0x5C then "\\\\".toList
  else if isHidden code then escape code
  else [Char.ofNat code]

/-- The character whose code point is a byte, in apostrophes. -/
def ofByte (b : UInt8) : Text :=
  "'".toList ++ body b.toNat ++ "'".toList

end Quoted

end OperandStack
