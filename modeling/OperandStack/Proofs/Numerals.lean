import Mathlib.Data.List.Induction
import OperandStack.Proofs.Words

/-!
# What the number words denote

The spellings of numbers and of bytes as relations between a word and what it denotes: decimal digits with or without a
sign, pairs of hexadecimal digits with or without the marker. The readers accept exactly these spellings and answer with
what they denote (`Decimal.signed?_eq_some_iff`, `Decimal.unsigned?_eq_some_iff`, `Hex.decode_eq_ok_iff`). A spelling
need not be the written form: it may have leading zeros, a plus sign, a minus sign before zero, and digits of either case.
-/

namespace OperandStack

/-! ## Readers that can fail -/

/-- A reader followed by another gives what the second makes of what the first gave. -/
theorem bind_eq_ok_iff {ε α β : Type} {f : α → Except ε β} {x : Except ε α} {b : β} :
    x >>= f = .ok b ↔ ∃ a, x = .ok a ∧ f a = .ok b := by
  cases x <;> simp [bind, Except.bind]

/-- A reader followed by a function gives the value of the function. -/
theorem map_eq_ok_iff {ε α β : Type} {f : α → β} {x : Except ε α} {b : β} :
    f <$> x = .ok b ↔ ∃ a, x = .ok a ∧ f a = b := by
  cases x <;> simp

namespace Decimal

/-! ## Decimal spellings -/

/-- One or more decimal digits denote a number; each digit more is worth ten times less than the one before it. -/
inductive Numeral : Text → Nat → Prop where
  | digit {d : Nat} : d < 10 → Numeral [Nat.digitChar d] d
  | snoc {t : Text} {n d : Nat} : Numeral t n → d < 10 → Numeral (t ++ [Nat.digitChar d]) (10 * n + d)

/-- Digits with an optional plus sign. -/
inductive Unsigned : Text → Nat → Prop where
  | plain {t : Text} {n : Nat} : Numeral t n → Unsigned t n
  | plus {t : Text} {n : Nat} : Numeral t n → Unsigned ('+' :: t) n

/-- Digits with an optional plus or minus sign. -/
inductive Signed : Text → Int → Prop where
  | unsigned {t : Text} {n : Nat} : Unsigned t n → Signed t n
  | minus {t : Text} {n : Nat} : Numeral t n → Signed ('-' :: t) (-n)

/-- A decimal digit is the character of its value. -/
theorem exists_digitChar {c : Char} (h : c.isDigit = true) : ∃ d, d < 10 ∧ c = Nat.digitChar d := by
  obtain ⟨hlow, hhigh⟩ := Char.isDigit_iff_toNat.mp h
  have hzero : '0'.toNat = 48 := rfl
  have hnine : '9'.toNat = 57 := rfl
  refine ⟨c.toNat - 48, by omega, ?_⟩
  apply Char.toNat_inj.mp
  rw [Nat.toNat_digitChar_of_lt_ten (by omega)]
  omega

/-- The value of digits followed by one more. -/
theorem ofDigitChars_snoc (t : Text) {d : Nat} (hd : d < 10) :
    Nat.ofDigitChars 10 (t ++ [Nat.digitChar d]) 0 = 10 * Nat.ofDigitChars 10 t 0 + d := by
  have hvalue : (Nat.digitChar d).toNat - '0'.toNat = d := by
    rw [Nat.toNat_digitChar_of_lt_ten hd]
    change 48 + d - 48 = d
    omega
  rw [Nat.ofDigitChars_append, Nat.ofDigitChars_cons, Nat.ofDigitChars_nil, hvalue]

/-- Digits, at least one, are a numeral of their value. -/
theorem numeral_of_isDigit {t : Text} (hne : t ≠ []) (h : ∀ c ∈ t, c.isDigit = true) :
    Numeral t (Nat.ofDigitChars 10 t 0) := by
  -- The last digit is taken off, for only that one can be named without the number of those after it.
  induction t using List.reverseRecOn with
  | nil => exact absurd rfl hne
  | append_singleton t c ih =>
    obtain ⟨d, hd, rfl⟩ := exists_digitChar (h c (by simp))
    rw [ofDigitChars_snoc t hd]
    rcases eq_or_ne t [] with rfl | ht
    · simpa using Numeral.digit hd
    · exact .snoc (ih ht fun c hc => h c (by simp [hc])) hd

/-- A numeral is made of digits, at least one, and denotes their value. -/
theorem Numeral.spec {t : Text} {n : Nat} (h : Numeral t n) :
    t ≠ [] ∧ (∀ c ∈ t, c.isDigit = true) ∧ Nat.ofDigitChars 10 t 0 = n := by
  have hdigit : ∀ {d : Nat}, d < 10 → (Nat.digitChar d).isDigit = true := fun hd => by
    simp [Nat.isDigit_digitChar, hd]
  induction h with
  | digit hd =>
    refine ⟨List.cons_ne_nil _ _, ?_, ?_⟩
    · intro c hc
      rw [List.mem_singleton.mp hc]
      exact hdigit hd
    · simpa using ofDigitChars_snoc [] hd
  | snoc _ hd ih =>
    obtain ⟨-, hall, rfl⟩ := ih
    refine ⟨by simp, ?_, ofDigitChars_snoc _ hd⟩
    intro c hc
    rcases List.mem_append.mp hc with hc | hc
    · exact hall c hc
    · rw [List.mem_singleton.mp hc]
      exact hdigit hd

theorem digits?_eq_some_iff {t : Text} {n : Nat} : digits? t = some n ↔ Numeral t n := by
  constructor
  · intro h
    unfold digits? at h
    split at h
    · cases h
    · rename_i hne
      split at h
      · rename_i hall
        rw [List.all_eq_true] at hall
        cases h
        exact numeral_of_isDigit (by simpa using hne) hall
      · cases h
  · intro h
    obtain ⟨hne, hall, rfl⟩ := h.spec
    rw [digits?, if_neg (by simpa using hne), if_pos (List.all_eq_true.mpr hall)]

/-- No numeral begins with a sign. -/
theorem Numeral.head_isDigit {c : Char} {t : Text} {n : Nat} (h : Numeral (c :: t) n) : c.isDigit = true :=
  h.spec.2.1 c List.mem_cons_self

theorem nat?_eq_some_iff {t : Text} {n : Nat} : nat? t = some n ↔ Unsigned t n := by
  constructor
  · intro h
    cases t with
    | nil => cases h
    | cons c t =>
      rw [nat?] at h
      split at h
      · rename_i hc
        rw [hc]
        exact .plus (digits?_eq_some_iff.mp h)
      · exact .plain (digits?_eq_some_iff.mp h)
  · intro h
    cases h with
    | plus h => rw [nat?, if_pos rfl, digits?_eq_some_iff.mpr h]
    | plain h =>
      cases t with
      | nil => exact absurd rfl h.spec.1
      | cons c t =>
        have hc : c ≠ '+' := by
          rintro rfl
          exact absurd h.head_isDigit (by decide)
        rw [nat?, if_neg hc, digits?_eq_some_iff.mpr h]

theorem Unsigned.ne_minus {c : Char} {t : Text} {n : Nat} (h : Unsigned (c :: t) n) : c ≠ '-' := by
  rintro rfl
  cases h with
  | plain h => exact absurd h.head_isDigit (by decide)

/-- An integer is read off its first character and the digits after it. -/
theorem int?_cons (c : Char) (t : Text) :
    int? (c :: t) = if c = '-' then (digits? t).map fun n : Nat => -(n : Int)
      else (nat? (c :: t)).map fun n : Nat => (n : Int) := by
  rw [int?]
  split
  · cases digits? t <;> rfl
  · cases nat? (c :: t) <;> rfl

theorem int?_eq_some_iff {t : Text} {z : Int} : int? t = some z ↔ Signed t z := by
  constructor
  · intro h
    cases t with
    | nil => cases h
    | cons c t =>
      rw [int?_cons] at h
      split at h
      · rename_i hc
        obtain ⟨n, hn, rfl⟩ := Option.map_eq_some_iff.mp h
        rw [hc]
        exact .minus (digits?_eq_some_iff.mp hn)
      · obtain ⟨n, hn, rfl⟩ := Option.map_eq_some_iff.mp h
        exact .unsigned (nat?_eq_some_iff.mp hn)
  · intro h
    cases h with
    | minus h => rw [int?_cons, if_pos rfl, digits?_eq_some_iff.mpr h, Option.map_some]
    | unsigned h =>
      cases t with
      | nil =>
        cases h with
        | plain h => exact absurd rfl h.spec.1
      | cons c t => rw [int?_cons, if_neg h.ne_minus, nat?_eq_some_iff.mpr h, Option.map_some]

/-! ## Numbers of 64 bits -/

/-- An unsigned number is read from exactly its spellings. -/
theorem unsigned?_eq_some_iff {t : Text} {n : UInt64} : unsigned? t = some n ↔ Unsigned t n.toNat := by
  rw [← nat?_eq_some_iff, unsigned?, Option.bind_eq_some_iff]
  constructor
  · rintro ⟨k, hk, h⟩
    split at h
    · rename_i hlt
      cases h
      rw [hk, UInt64.toNat_ofNat_of_lt' hlt]
    · cases h
  · intro h
    refine ⟨n.toNat, h, ?_⟩
    rw [if_pos n.toNat_lt_size, UInt64.ofNat_toNat]

/-- A signed number is read from exactly its spellings. -/
theorem signed?_eq_some_iff {t : Text} {i : Int64} : signed? t = some i ↔ Signed t i.toInt := by
  rw [← int?_eq_some_iff, signed?, Option.bind_eq_some_iff]
  constructor
  · rintro ⟨z, hz, h⟩
    split at h
    · rename_i hrange
      have hmin : Int64.minValue.toInt = -2 ^ 63 := rfl
      have hmax : Int64.maxValue.toInt = 2 ^ 63 - 1 := rfl
      cases h
      rw [hz, Int64.toInt_ofInt_of_le (by omega) (by omega)]
    · cases h
  · intro h
    refine ⟨i.toInt, h, ?_⟩
    rw [if_pos ⟨Int64.minValue_le_toInt i, Int64.toInt_le i⟩, Int64.ofInt_toInt]

end Decimal

namespace Hex

/-! ## Hexadecimal spellings -/

/-- A hexadecimal digit of either case and its value. -/
inductive Digit : Char → Nat → Prop where
  | lower {n : Nat} : n < 16 → Digit (Nat.digitChar n) n
  | upper {n : Nat} : n < 16 → Digit (Nat.digitChar n).toUpper n

/-- Two digits for each byte, the high half first. -/
inductive Digits : Text → List UInt8 → Prop where
  | nil : Digits [] []
  | cons {high low : Char} {h l : Nat} {t : Text} {bytes : List UInt8} :
      Digit high h → Digit low l → Digits t bytes → Digits (high :: low :: t) (UInt8.ofNat (16 * h + l) :: bytes)

/-- Digits with an optional marker `0x`, which may also stand alone. -/
inductive Marked : Text → List UInt8 → Prop where
  | plain {t : Text} {bytes : List UInt8} : Digits t bytes → Marked t bytes
  | marker {t : Text} {bytes : List UInt8} : Digits t bytes → Marked ('0' :: 'x' :: t) bytes

/-- What holds of the characters of a range and their distances from the first holds of each character in it. -/
theorem of_range {P : Char → Nat → Prop} {first last c : Char} (h : first ≤ c ∧ c ≤ last)
    (hall : ∀ k, k ≤ last.toNat - first.toNat → P (Char.ofNat (first.toNat + k)) k) : P c (c.toNat - first.toNat) := by
  have hlow : first.toNat ≤ c.toNat := h.1
  have hhigh : c.toNat ≤ last.toNat := h.2
  have hc := hall (c.toNat - first.toNat) (by omega)
  rwa [Nat.add_sub_cancel' hlow, Char.ofNat_toNat] at hc

theorem digit?_eq_some_iff {c : Char} {n : Nat} : digit? c = some n ↔ Digit c n := by
  constructor
  · intro h
    have hdecimal : ∀ k : Fin 10, Char.ofNat ('0'.toNat + k) = Nat.digitChar k := by decide
    have hlower : ∀ k : Fin 6, Char.ofNat ('a'.toNat + k) = Nat.digitChar (k + 10) := by decide
    have hupper : ∀ k : Fin 6, Char.ofNat ('A'.toNat + k) = (Nat.digitChar (k + 10)).toUpper := by decide
    unfold digit? at h
    split at h
    · rename_i hr
      cases h
      refine of_range (P := Digit) hr fun k hk => ?_
      have hk : k < 10 := Nat.lt_succ_of_le hk
      rw [hdecimal ⟨k, hk⟩]
      exact .lower (by omega)
    · split at h
      · rename_i hr
        cases h
        refine of_range (P := fun c k => Digit c (k + 10)) hr fun k hk => ?_
        have hk : k < 6 := Nat.lt_succ_of_le hk
        rw [hlower ⟨k, hk⟩]
        exact .lower (by omega)
      · split at h
        · rename_i hr
          cases h
          refine of_range (P := fun c k => Digit c (k + 10)) hr fun k hk => ?_
          have hk : k < 6 := Nat.lt_succ_of_le hk
          rw [hupper ⟨k, hk⟩]
          exact .upper (by omega)
        · cases h
  · intro h
    have hall : ∀ n : Fin 16, digit? (Nat.digitChar n) = some (n : Nat) ∧
        digit? (Nat.digitChar n).toUpper = some (n : Nat) := by decide
    cases h with
    | lower hn => exact (hall ⟨n, hn⟩).1
    | upper hn => exact (hall ⟨n, hn⟩).2

/-- A hexadecimal digit takes one byte and is not the letter of the marker. -/
theorem Digit.spec {c : Char} {n : Nat} (h : Digit c n) : c.utf8Size = 1 ∧ c ≠ 'x' := by
  have hall : ∀ n : Fin 16, ((Nat.digitChar n).utf8Size = 1 ∧ Nat.digitChar n ≠ 'x') ∧
      (Nat.digitChar n).toUpper.utf8Size = 1 ∧ (Nat.digitChar n).toUpper ≠ 'x' := by decide
  cases h with
  | lower hn => exact (hall ⟨n, hn⟩).1
  | upper hn => exact (hall ⟨n, hn⟩).2

theorem digitAt_eq_ok_iff {position n : Nat} {c : Char} : digitAt position c = .ok n ↔ Digit c n := by
  rw [← digit?_eq_some_iff, digitAt]
  cases digit? c <;> simp

theorem Digits.byteLength {t : Text} {bytes : List UInt8} (h : Digits t bytes) : t.byteLength = 2 * bytes.length := by
  induction h with
  | nil => rfl
  | cons hhigh hlow _ ih =>
    rw [Text.byteLength, Text.byteLength, ih, hhigh.spec.1, hlow.spec.1, List.length_cons]
    omega

theorem decodeFrom_eq_ok_iff {position : Nat} {t : Text} {bytes : List UInt8} :
    decodeFrom position t = .ok bytes ↔ Digits t bytes := by
  induction position, t using decodeFrom.induct generalizing bytes with
  | case1 position =>
    constructor
    · intro h
      cases h
      exact .nil
    · intro h
      cases h
      rfl
  | case2 position c =>
    constructor
    · intro h
      obtain ⟨n, -, h⟩ := bind_eq_ok_iff.mp h
      cases h
    · intro h
      cases h
  | case3 position high low rest ih =>
    constructor
    · intro h
      obtain ⟨m, hhigh, h⟩ := bind_eq_ok_iff.mp h
      obtain ⟨n, hlow, h⟩ := bind_eq_ok_iff.mp h
      obtain ⟨bs, hrest, h⟩ := bind_eq_ok_iff.mp h
      cases h
      exact .cons (digitAt_eq_ok_iff.mp hhigh) (digitAt_eq_ok_iff.mp hlow) (ih.mp hrest)
    · intro h
      cases h with
      | cons hhigh hlow hrest =>
        rw [decodeFrom, digitAt_eq_ok_iff.mpr hhigh, digitAt_eq_ok_iff.mpr hlow, ih.mpr hrest]
        rfl

/-- Bytes are read from exactly their digits. -/
theorem decode_eq_ok_iff {t : Text} {bytes : List UInt8} : decode t = .ok bytes ↔ Digits t bytes := by
  unfold decode
  split
  · rename_i hodd
    constructor
    · intro h
      cases h
    · intro h
      have := h.byteLength
      omega
  · exact decodeFrom_eq_ok_iff

end Hex

end OperandStack
