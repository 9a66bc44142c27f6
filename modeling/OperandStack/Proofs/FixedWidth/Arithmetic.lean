import Mathlib.Algebra.Group.Int.Defs
import Mathlib.Algebra.Group.Nat.Defs
import Mathlib.Data.List.Basic

/-!
# Arithmetic in words of 64 bits

The stacks count and index with natural numbers and integers. Here are the same operations as a machine performs them:
on words of 64 bits, signed or not, and on positions of a list. Where the result of an operation would not be the exact
one, it traps. Each operation has one lemma that says when it does not trap, and that its result is then exact.
-/

namespace OperandStack

/-- What can go wrong in a word of 64 bits, at a position of a list, in a pop that was known to succeed, and with a view
of an item. -/
inductive Trap where
  | overflow
  | lossyCast
  | outOfBounds
  | failedPop
  | wrongShape
  deriving DecidableEq, Repr

namespace FixedWidth

/-- The largest signed word. No list is longer. -/
def signedMax : Nat :=
  2 ^ 63 - 1

/-! ## Words -/

/-- A figure as an unsigned word. -/
def word (n : Nat) : Except Trap UInt64 :=
  if n < UInt64.size then .ok (UInt64.ofNat n) else .error .overflow

/-- The sum of two unsigned words. -/
def add (a b : UInt64) : Except Trap UInt64 :=
  if a.toNat + b.toNat < UInt64.size then .ok (a + b) else .error .overflow

/-- The difference of two unsigned words. -/
def sub (a b : UInt64) : Except Trap UInt64 :=
  if b ≤ a then .ok (a - b) else .error .overflow

/-- The difference of two unsigned words, or zero where there is none. -/
def saturatingSub (a b : UInt64) : UInt64 :=
  if b ≤ a then a - b else 0

/-- The sum of two signed words. -/
def addSigned (a b : Int64) : Except Trap Int64 :=
  if -2 ^ 63 ≤ a.toInt + b.toInt ∧ a.toInt + b.toInt < 2 ^ 63 then .ok (a + b) else .error .overflow

/-- The difference of two signed words. -/
def subSigned (a b : Int64) : Except Trap Int64 :=
  if -2 ^ 63 ≤ a.toInt - b.toInt ∧ a.toInt - b.toInt < 2 ^ 63 then .ok (a - b) else .error .overflow

/-- A signed word cast to an unsigned one. -/
def unsigned (i : Int64) : Except Trap UInt64 :=
  if 0 ≤ i then .ok i.toUInt64 else .error .lossyCast

/-- An unsigned word cast to a signed one. -/
def signed (n : UInt64) : Except Trap Int64 :=
  if n.toNat ≤ signedMax then .ok n.toInt64 else .error .lossyCast

theorem word_eq {n : Nat} (h : n < UInt64.size) : ∃ w, word n = .ok w ∧ w.toNat = n :=
  ⟨UInt64.ofNat n, if_pos h, UInt64.toNat_ofNat_of_lt h⟩

theorem add_eq {a b : UInt64} (h : a.toNat + b.toNat < UInt64.size) :
    ∃ c, add a b = .ok c ∧ c.toNat = a.toNat + b.toNat := by
  refine ⟨a + b, if_pos h, ?_⟩
  rw [UInt64.toNat_add]
  exact Nat.mod_eq_of_lt h

theorem sub_eq {a b : UInt64} (h : b.toNat ≤ a.toNat) : ∃ c, sub a b = .ok c ∧ c.toNat = a.toNat - b.toNat := by
  have hle : b ≤ a := UInt64.le_iff_toNat_le.mpr h
  exact ⟨a - b, if_pos hle, UInt64.toNat_sub_of_le _ _ hle⟩

/-- A word has a next one, unless it is the largest. -/
theorem add_one_eq {a : UInt64} (h : a.toNat + 1 < UInt64.size) :
    ∃ next, add a 1 = .ok next ∧ next.toNat = a.toNat + 1 :=
  add_eq h

/-- A word has one before it, unless it is zero. -/
theorem sub_one_eq {a : UInt64} (h : 0 < a.toNat) : ∃ previous, sub a 1 = .ok previous ∧ previous.toNat = a.toNat - 1 :=
  sub_eq h

/-- A figure below the largest word is a word that has a next one. -/
theorem word_add_one_eq {n : Nat} (h : n + 1 < UInt64.size) :
    ∃ w next, word n = .ok w ∧ add w 1 = .ok next ∧ next.toNat = n + 1 := by
  obtain ⟨w, hword, hvalue⟩ := word_eq (Nat.lt_of_succ_lt h)
  obtain ⟨next, hadd, hexact⟩ := add_one_eq (hvalue ▸ h)
  exact ⟨w, next, hword, hadd, hvalue ▸ hexact⟩

theorem toNat_saturatingSub (a b : UInt64) : (saturatingSub a b).toNat = a.toNat - b.toNat := by
  rw [saturatingSub]
  split
  · rename_i hle
    exact UInt64.toNat_sub_of_le _ _ hle
  · rename_i hlt
    rw [UInt64.le_iff_toNat_le] at hlt
    exact (Nat.sub_eq_zero_of_le (Nat.le_of_not_le hlt)).symm

theorem addSigned_eq {a b : Int64} (hmin : -2 ^ 63 ≤ a.toInt + b.toInt) (hmax : a.toInt + b.toInt < 2 ^ 63) :
    ∃ c, addSigned a b = .ok c ∧ c.toInt = a.toInt + b.toInt := by
  refine ⟨a + b, if_pos ⟨hmin, hmax⟩, ?_⟩
  rw [Int64.toInt_add]
  exact Int.bmod_eq_of_le hmin hmax

theorem subSigned_eq {a b : Int64} (hmin : -2 ^ 63 ≤ a.toInt - b.toInt) (hmax : a.toInt - b.toInt < 2 ^ 63) :
    ∃ c, subSigned a b = .ok c ∧ c.toInt = a.toInt - b.toInt := by
  refine ⟨a - b, if_pos ⟨hmin, hmax⟩, ?_⟩
  rw [Int64.toInt_sub]
  exact Int.bmod_eq_of_le hmin hmax

theorem unsigned_eq {i : Int64} (h : 0 ≤ i.toInt) : ∃ n, unsigned i = .ok n ∧ n.toNat = i.toInt.toNat := by
  have hle : 0 ≤ i := Int64.le_iff_toInt_le.mpr h
  have hint : i.toInt = i.toBitVec.toInt := rfl
  have hnat : i.toUInt64.toNat = i.toBitVec.toNat := rfl
  have hlt := i.toBitVec.isLt
  refine ⟨i.toUInt64, if_pos hle, ?_⟩
  rw [hint, BitVec.toInt_eq_toNat_cond] at h
  rw [hnat, hint, BitVec.toInt_eq_toNat_cond]
  split at h
  · rw [if_pos (by assumption), Int.toNat_natCast]
  · omega

theorem signed_eq {n : UInt64} (h : n.toNat ≤ signedMax) : ∃ i, signed n = .ok i ∧ i.toInt = n.toNat := by
  have hsmall : 2 * n.toBitVec.toNat < 2 ^ 64 := by
    have hn : n.toBitVec.toNat = n.toNat := rfl
    rw [signedMax] at h
    omega
  exact ⟨n.toInt64, if_pos h, BitVec.toInt_eq_toNat_of_lt hsmall⟩

/-! ## Positions -/

variable {α : Type}

/-- The entry of a list at a position. -/
def get (xs : List α) (position : UInt64) : Except Trap α :=
  match xs[position.toNat]? with
  | some x => .ok x
  | none => .error .outOfBounds

/-- A list without the entry at a position. -/
def without (xs : List α) (position : UInt64) : Except Trap (List α) :=
  if position.toNat < xs.length then .ok (xs.eraseIdx position.toNat) else .error .outOfBounds

/-- A list with an entry at a position, before the one that stands there. -/
def insertAt (xs : List α) (position : UInt64) (x : α) : Except Trap (List α) :=
  if position.toNat ≤ xs.length then .ok (xs.insertIdx position.toNat x) else .error .outOfBounds

/-- The entries of a list before a position and those from it on. -/
def splitAt (xs : List α) (position : UInt64) : Except Trap (List α × List α) :=
  if position.toNat ≤ xs.length then .ok (xs.take position.toNat, xs.drop position.toNat) else .error .outOfBounds

theorem get_eq {xs : List α} {position : UInt64} (h : position.toNat < xs.length) :
    get xs position = .ok xs[position.toNat] := by
  rw [get, List.getElem?_eq_getElem h]

theorem without_eq {xs : List α} {position : UInt64} (h : position.toNat < xs.length) :
    without xs position = .ok (xs.eraseIdx position.toNat) :=
  if_pos h

theorem insertAt_eq {xs : List α} {position : UInt64} (h : position.toNat ≤ xs.length) (x : α) :
    insertAt xs position x = .ok (xs.insertIdx position.toNat x) :=
  if_pos h

theorem splitAt_eq {xs : List α} {position : UInt64} (h : position.toNat ≤ xs.length) :
    splitAt xs position = .ok (xs.take position.toNat, xs.drop position.toNat) :=
  if_pos h

end FixedWidth

end OperandStack
