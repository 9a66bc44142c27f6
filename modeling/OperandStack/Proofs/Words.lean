import Mathlib.Data.List.TakeWhile
import OperandStack.Text.Decimal
import OperandStack.Text.Hex
import OperandStack.Text.Split

/-!
# Words put together and taken apart

Texts without blanks, written with spaces between them, are the words of what is written, except for the empty ones, of
which nothing is left to see (`words_intercalate`). Texts without line feeds, written with line feeds between them, are
its lines (`lines_intercalate`). Decimal and hexadecimal numbers are such texts, and are read back as they were written.
-/

namespace OperandStack

namespace Text

/-! ## Pieces -/

/-- A text in which nothing is cut is one piece. -/
theorem pieces_of_uncut {cut : Char → Bool} {t : Text} (h : ∀ c ∈ t, cut c = false) : t.pieces cut = [t] := by
  induction t with
  | nil => rfl
  | cons c rest ih =>
    have hc := h c List.mem_cons_self
    rw [pieces, if_neg (by simp [hc]), ih fun d hd => h d (List.mem_cons_of_mem c hd)]
    rfl

/-- Uncut texts with a cut character between neighbours are the pieces of what they make up. -/
theorem pieces_intercalate {cut : Char → Bool} {c : Char} (hc : cut c = true) {parts : List Text} (hne : parts ≠ [])
    (h : ∀ t ∈ parts, ∀ d ∈ t, cut d = false) : pieces cut (List.intercalate [c] parts) = parts := by
  induction parts with
  | nil => exact absurd rfl hne
  | cons t rest ih =>
    have ht := pieces_of_uncut (h t List.mem_cons_self)
    cases rest with
    | nil => rw [List.intercalate_singleton, ht]
    | cons u rest =>
      rw [List.intercalate_cons_cons, List.append_assoc, List.singleton_append, pieces_append_cons hc, ht,
        ih (List.cons_ne_nil u rest) fun v hv => h v (List.mem_cons_of_mem t hv)]
      rfl

/-- The lines of lines. -/
theorem lines_intercalate {parts : List Text} (hne : parts ≠ []) (h : ∀ t ∈ parts, newline ∉ t) :
    lines (List.intercalate [newline] parts) = parts := by
  unfold lines
  refine pieces_intercalate ?_ hne fun t ht d hd => ?_
  · exact beq_self_eq_true newline
  · rw [beq_eq_false_iff_ne]
    rintro rfl
    exact h t ht hd

/-! ## Words -/

/-- A text that can stand in a line as one word: no blank cuts it and it opens no comment. -/
def Solid (t : Text) : Prop :=
  ∀ c ∈ t, isBlank c = false ∧ c ≠ '#'

instance (t : Text) : Decidable t.Solid :=
  List.decidableBAll (fun c => isBlank c = false ∧ c ≠ '#') t

/-- A solid text that is not empty is one word wherever blanks stand around it. -/
def IsWord (t : Text) : Prop :=
  t.Solid ∧ t ≠ []

instance (t : Text) : Decidable t.IsWord :=
  inferInstanceAs (Decidable (t.Solid ∧ t ≠ []))

/-- The words of words: all but the empty ones. -/
theorem words_intercalate {parts : List Text} (h : ∀ t ∈ parts, t.Solid) :
    words (List.intercalate " ".toList parts) = parts.filter (!·.isEmpty) := by
  rcases eq_or_ne parts [] with rfl | hne
  · rfl
  · have hspace : isBlank ' ' = true := by decide
    rw [words, show " ".toList = [' '] from rfl, pieces_intercalate hspace hne fun t ht d hd => (h t ht d hd).1]

/-- What stands in a text put together from parts stands in the separator or in a part. -/
theorem mem_or_mem_of_mem_intercalate {c : Char} {separator : Text} {parts : List Text}
    (h : c ∈ List.intercalate separator parts) : c ∈ separator ∨ ∃ t ∈ parts, c ∈ t := by
  induction parts with
  | nil => simp at h
  | cons t rest ih =>
    cases rest with
    | nil =>
      rw [List.intercalate_singleton] at h
      exact Or.inr ⟨t, List.mem_cons_self, h⟩
    | cons u rest =>
      rw [List.intercalate_cons_cons, List.append_assoc] at h
      rcases List.mem_append.mp h with h | h
      · exact Or.inr ⟨t, List.mem_cons_self, h⟩
      · rcases List.mem_append.mp h with h | h
        · exact Or.inl h
        · rcases ih h with hc | ⟨v, hv, hc⟩
          · exact Or.inl hc
          · exact Or.inr ⟨v, List.mem_cons_of_mem t hv, hc⟩

theorem mem_intercalate {c d : Char} {parts : List Text} (h : c ∈ List.intercalate [d] parts) :
    c = d ∨ ∃ t ∈ parts, c ∈ t :=
  (mem_or_mem_of_mem_intercalate h).imp_left List.mem_singleton.mp

/-- Words with spaces between them open no comment, so they stay when comments are left out. -/
theorem uncommented_intercalate {parts : List Text} (h : ∀ t ∈ parts, t.Solid) :
    uncommented (List.intercalate " ".toList parts) = List.intercalate " ".toList parts := by
  rw [uncommented, List.takeWhile_eq_self_iff]
  intro c hc
  rw [bne_iff_ne]
  rcases mem_intercalate hc with rfl | ⟨t, ht, hc⟩
  · decide
  · exact (h t ht c hc).2

/-- Words with spaces between them stay in one line. -/
theorem newline_notMem_intercalate {parts : List Text} (h : ∀ t ∈ parts, t.Solid) :
    newline ∉ List.intercalate " ".toList parts := by
  intro hc
  rcases mem_intercalate hc with hc | ⟨t, ht, hc⟩
  · exact absurd hc (by decide)
  · exact absurd (h t ht newline hc).1 (by decide)

/-! ## Digits -/

/-- A decimal digit neither cuts a word nor opens a comment. -/
theorem solid_of_isDigit {t : Text} (h : ∀ c ∈ t, c.isDigit = true) : t.Solid := by
  intro c hc
  have hd := h c hc
  simp only [Char.isDigit, Bool.and_eq_true, decide_eq_true_eq, ge_iff_le, UInt32.le_iff_toNat_le] at hd
  have hn : 48 ≤ c.toNat ∧ c.toNat ≤ 57 := hd
  refine ⟨?_, ?_⟩
  · simp only [isBlank, blankRanges, List.any_cons, List.any_nil, Bool.or_eq_false_iff, Bool.and_eq_false_iff,
      decide_eq_false_iff_not, and_true]
    omega
  · rintro rfl
    exact absurd hn (by decide)

end Text

namespace Decimal

theorem isDigit_of_mem_ofNat {n : Nat} {c : Char} (h : c ∈ ofNat n) : c.isDigit = true :=
  Nat.isDigit_of_mem_toDigits (by omega) (by omega) h

theorem isWord_ofNat (n : Nat) : Text.IsWord (ofNat n) :=
  ⟨Text.solid_of_isDigit fun _ h => isDigit_of_mem_ofNat h, Nat.toDigits_ne_nil⟩

theorem isWord_ofInt (n : Int) : Text.IsWord (ofInt n) := by
  unfold ofInt
  split
  · refine ⟨fun c hc => ?_, List.cons_ne_nil _ _⟩
    rcases List.mem_cons.mp hc with rfl | hc
    · decide
    · exact (isWord_ofNat _).1 c hc
  · exact isWord_ofNat _

/-- A natural number is read back. -/
theorem nat?_ofNat (n : Nat) : nat? (ofNat n) = some n := by
  have hread := digits?_ofNat n
  cases h : ofNat n with
  | nil => exact absurd h (isWord_ofNat n).2
  | cons c rest =>
    have hc : c ≠ '+' := by
      rintro rfl
      have hd := isDigit_of_mem_ofNat (h ▸ List.mem_cons_self : '+' ∈ ofNat n)
      exact absurd hd (by decide)
    rw [nat?, if_neg hc, ← h, hread]

/-- An integer is read back. -/
theorem int?_ofInt (n : Int) : int? (ofInt n) = some n := by
  unfold ofInt
  split
  · rename_i hn
    have habs : -(n.natAbs : Int) = n := by omega
    rw [int?, if_pos rfl, digits?_ofNat]
    exact congrArg some habs
  · rename_i hn
    have hread := nat?_ofNat n.natAbs
    cases h : ofNat n.natAbs with
    | nil => exact absurd h (isWord_ofNat _).2
    | cons c rest =>
      have hc : c ≠ '-' := by
        rintro rfl
        have hd := isDigit_of_mem_ofNat (h ▸ List.mem_cons_self : '-' ∈ ofNat n.natAbs)
        exact absurd hd (by decide)
      have habs : (n.natAbs : Int) = n := by omega
      rw [int?, if_neg hc, ← h, hread]
      exact congrArg some habs

/-- An unsigned number is read back. -/
theorem unsigned?_ofNat (n : UInt64) : unsigned? (ofNat n.toNat) = some n := by
  rw [unsigned?, nat?_ofNat, Option.bind_some, if_pos n.toNat_lt_size, UInt64.ofNat_toNat]

/-- A signed number is read back. -/
theorem signed?_ofInt (n : Int64) : signed? (ofInt n.toInt) = some n := by
  have hn : Int64.minValue.toInt ≤ n.toInt ∧ n.toInt ≤ Int64.maxValue.toInt :=
    ⟨Int64.minValue_le_toInt n, Int64.toInt_le n⟩
  rw [signed?, int?_ofInt, Option.bind_some, if_pos hn, Int64.ofInt_toInt]

end Decimal

namespace Hex

/-- The sixteen digits are read back, and each is a solid text of one byte other than the letter of the marker. -/
theorem digitChar_props {k : Nat} (hk : k < 16) :
    digit? (Nat.digitChar k) = some k ∧ Text.Solid [Nat.digitChar k] ∧ (Nat.digitChar k).utf8Size = 1 ∧
      Nat.digitChar k ≠ 'x' := by
  have h : ∀ k : Fin 16, digit? (Nat.digitChar k) = some (k : Nat) ∧ Text.Solid [Nat.digitChar k] ∧
      (Nat.digitChar k).utf8Size = 1 ∧ Nat.digitChar k ≠ 'x' := by decide
  exact h ⟨k, hk⟩

theorem high_lt (b : UInt8) : b.toNat / 16 < 16 := by
  have := b.toNat_lt
  omega

theorem low_lt (b : UInt8) : b.toNat % 16 < 16 :=
  Nat.mod_lt _ (by omega)

theorem solid_encode (bytes : List UInt8) : Text.Solid (encode bytes) := by
  intro c hc
  obtain ⟨b, -, hb⟩ := List.mem_flatMap.mp hc
  rcases List.mem_cons.mp hb with rfl | hb
  · exact (digitChar_props (high_lt b)).2.1 _ List.mem_cons_self
  · rw [List.mem_singleton] at hb
    exact hb ▸ (digitChar_props (low_lt b)).2.1 _ List.mem_cons_self

theorem byteLength_encode (bytes : List UInt8) : Text.byteLength (encode bytes) = 2 * bytes.length := by
  induction bytes with
  | nil => rfl
  | cons b rest ih =>
    change (Nat.digitChar (b.toNat / 16)).utf8Size +
      ((Nat.digitChar (b.toNat % 16)).utf8Size + Text.byteLength (encode rest)) = 2 * (rest.length + 1)
    rw [(digitChar_props (high_lt b)).2.2.1, (digitChar_props (low_lt b)).2.2.1, ih]
    omega

/-- Two digits at a time give the bytes back. -/
theorem decodeFrom_encode (position : Nat) (bytes : List UInt8) : decodeFrom position (encode bytes) = .ok bytes := by
  induction bytes generalizing position with
  | nil => rfl
  | cons b rest ih =>
    have hb : UInt8.ofNat (16 * (b.toNat / 16) + b.toNat % 16) = b := by
      rw [Nat.div_add_mod]
      exact UInt8.ofNat_toNat
    change decodeFrom position (Nat.digitChar (b.toNat / 16) :: Nat.digitChar (b.toNat % 16) :: encode rest) = _
    simp only [decodeFrom, digitAt, (digitChar_props (high_lt b)).1, (digitChar_props (low_lt b)).1, ih, bind,
      Except.bind, hb]

/-- Bytes are read back. -/
theorem decode_encode (bytes : List UInt8) : decode (encode bytes) = .ok bytes := by
  have heven : ¬Text.byteLength (encode bytes) % 2 = 1 := by
    rw [byteLength_encode]
    omega
  rw [decode, if_neg heven, decodeFrom_encode]

end Hex

end OperandStack
