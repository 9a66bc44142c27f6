import OperandStack.Text

/-!
# Decimal numbers

Numbers are written with the fewest decimal digits, a minus sign in front of a negative one. They are read from one or
more digits with an optional sign, leading zeros allowed; the minus sign is no sign of an unsigned number. A reader of a
64-bit number refuses a value outside its range.
-/

namespace OperandStack

namespace Decimal

/-- The decimal digits of a natural number, without a leading zero. -/
def ofNat (n : Nat) : Text :=
  Nat.toDigits 10 n

/-- An integer is written as the digits of its size, after a minus sign if it is negative. -/
def ofInt (n : Int) : Text :=
  if n < 0 then '-' :: ofNat n.natAbs else ofNat n.natAbs

/-- The number that one or more decimal digits denote. -/
def digits? (t : Text) : Option Nat :=
  if t.isEmpty then none else if t.all Char.isDigit then some (Nat.ofDigitChars 10 t 0) else none

/-- A natural number with an optional plus sign. -/
def nat? : Text → Option Nat
  | [] => none
  | c :: rest => if c = '+' then digits? rest else digits? (c :: rest)

/-- An integer with an optional plus or minus sign. -/
def int? : Text → Option Int
  | [] => none
  | c :: rest =>
    if c = '-' then (digits? rest).map fun n => -(n : Int) else (nat? (c :: rest)).map fun n => (n : Int)

/-- An unsigned 64-bit number. -/
def unsigned? (t : Text) : Option UInt64 :=
  (nat? t).bind fun n => if n < UInt64.size then some (UInt64.ofNat n) else none

/-- A signed 64-bit number. -/
def signed? (t : Text) : Option Int64 :=
  (int? t).bind fun n =>
    if Int64.minValue.toInt ≤ n ∧ n ≤ Int64.maxValue.toInt then some (Int64.ofInt n) else none

/-- Digits are read back as the number they were written for. -/
theorem digits?_ofNat (n : Nat) : digits? (ofNat n) = some n := by
  have hd : (Nat.toDigits 10 n).all Char.isDigit = true := by
    rw [List.all_eq_true]
    exact fun c hc => Nat.isDigit_of_mem_toDigits (by omega) (by omega) hc
  have hn : (Nat.toDigits 10 n).isEmpty = false := by
    rw [List.isEmpty_eq_false_iff]
    exact Nat.toDigits_ne_nil
  simp [digits?, ofNat, hd, hn, Nat.ofDigitChars_ten_toDigits]

end Decimal

end OperandStack
