import OperandStack.Proofs.Words
import OperandStack.Script

/-!
# Commands are read back

The written form of a command is a list of words with spaces between them (`Command.text_eq`), and these words are read
as the command (`Command.read_parts`). One word can be empty: the digits of no bytes. It is not seen when the written
form is read, so a command with an empty byte string is refused, and every other one is read back (`readLine_text`).
-/

namespace OperandStack

namespace Literal

/-- The words of a literal. The word for no bytes is empty. -/
def parts : Literal → List Text
  | null => ["null".toList]
  | boolean flag => ["bool".toList, Text.ofBool flag]
  | integer number => ["int".toList, Decimal.ofInt number.toInt]
  | bytes bs => ["bytes".toList, Hex.encode bs]

/-- The written form of a literal is its words. -/
theorem text_eq (l : Literal) : l.text = List.intercalate " ".toList l.parts := by
  cases l with
  | null => rfl
  | boolean flag => cases flag <;> rfl
  | integer number =>
    rw [parts, List.intercalate_cons_cons, List.intercalate_singleton]
    rfl
  | bytes bs =>
    rw [parts, List.intercalate_cons_cons, List.intercalate_singleton]
    rfl

theorem parts_ne_nil (l : Literal) : l.parts ≠ [] := by
  cases l <;> exact List.cons_ne_nil _ _

/-- The parts of a literal are words, but for the digits of no bytes. -/
theorem isWord_of_mem_parts {l : Literal} {t : Text} (h : t ∈ l.parts) : t.IsWord ∨ t = [] ∧ l = .bytes [] := by
  cases l with
  | null =>
    rw [List.mem_singleton.mp h]
    exact Or.inl (by decide)
  | boolean flag =>
    rcases List.mem_cons.mp h with rfl | h
    · exact Or.inl (by decide)
    · rw [List.mem_singleton.mp h]
      cases flag <;> exact Or.inl (by decide)
  | integer number =>
    rcases List.mem_cons.mp h with rfl | h
    · exact Or.inl (by decide)
    · rw [List.mem_singleton.mp h]
      exact Or.inl (Decimal.isWord_ofInt _)
  | bytes bs =>
    rcases List.mem_cons.mp h with rfl | h
    · exact Or.inl (by decide)
    · rw [List.mem_singleton.mp h]
      cases bs with
      | nil => exact Or.inr ⟨rfl, rfl⟩
      | cons b rest => exact Or.inl ⟨Hex.solid_encode _, List.cons_ne_nil _ _⟩

/-- No written bytes begin with the marker `0x`. -/
theorem hexDigits_encode (bs : List UInt8) : hexDigits (Hex.encode bs) = Hex.encode bs := by
  cases bs with
  | nil => rfl
  | cons b rest =>
    have hx := (Hex.digitChar_props (Hex.low_lt b)).2.2.2
    change hexDigits (Nat.digitChar (b.toNat / 16) :: Nat.digitChar (b.toNat % 16) :: Hex.encode rest) = _
    unfold hexDigits
    split
    · rename_i h
      exact absurd (List.cons.inj (List.cons.inj h).2).1 hx
    · rfl

/-- The words of a literal are read as the literal, the empty word included. -/
theorem read_parts (l : Literal) : read l.parts = .ok l := by
  cases l with
  | null => rfl
  | boolean flag => cases flag <;> rfl
  | integer number =>
    simp only [parts, read]
    rw [if_neg (by decide), if_true, readInteger, Decimal.signed?_ofInt]
  | bytes bs =>
    simp only [parts, read]
    rw [if_neg (by decide), if_neg (by decide), if_true, readBytes, hexDigits_encode, Hex.decode_encode]

end Literal

theorem Operation.isWord_word (op : Operation) : op.word.IsWord := by
  cases op <;> decide

theorem View.isWord_keyword (v : View) : v.keyword.IsWord := by
  cases v with
  | only k => cases k <;> decide
  | _ => decide

namespace Command

/-- The words of the arguments of a command. -/
def argumentParts : Command → List Text
  | push literal => literal.parts
  | insert index literal => Decimal.ofInt index.toInt :: literal.parts
  | c => c.arguments

/-- The words of a command. -/
def parts (c : Command) : List Text :=
  c.operation.word :: c.argumentParts

/-- The literal of a command that has one. -/
def literal? : Command → Option Literal
  | push literal | insert _ literal => some literal
  | _ => none

/-- A command that writes down an empty byte string. -/
def HasEmptyBytes (c : Command) : Prop :=
  c.literal? = some (.bytes [])

instance (c : Command) : Decidable c.HasEmptyBytes :=
  inferInstanceAs (Decidable (c.literal? = some (.bytes [])))

/-- The written form of a command is its words. -/
theorem text_eq (c : Command) : c.text = List.intercalate " ".toList c.parts := by
  cases c with
  | push literal =>
    simp only [text, arguments, parts, argumentParts]
    rw [List.intercalate_cons_cons, List.intercalate_singleton, literal.text_eq,
      List.intercalate_cons_of_ne_nil literal.parts_ne_nil]
  | insert index literal =>
    simp only [text, arguments, parts, argumentParts]
    rw [List.intercalate_cons_cons, List.intercalate_cons_cons, List.intercalate_singleton, literal.text_eq,
      List.intercalate_cons_cons, List.intercalate_cons_of_ne_nil literal.parts_ne_nil]
  | _ => rfl

/-- The parts of a command are words, but for the digits of no bytes. -/
theorem isWord_of_mem_parts {c : Command} {t : Text} (h : t ∈ c.parts) : t.IsWord ∨ t = [] ∧ c.HasEmptyBytes := by
  rcases List.mem_cons.mp h with rfl | h
  · exact Or.inl c.operation.isWord_word
  · have hliteral : ∀ {l : Literal}, t ∈ l.parts → c.literal? = some l → t.IsWord ∨ t = [] ∧ c.HasEmptyBytes := by
      intro l ht hl
      rcases Literal.isWord_of_mem_parts ht with hw | ⟨rfl, rfl⟩
      · exact Or.inl hw
      · exact Or.inr ⟨rfl, hl⟩
    cases c with
    | push literal => exact hliteral h rfl
    | insert index literal =>
      rcases List.mem_cons.mp h with rfl | h
      · exact Or.inl (Decimal.isWord_ofInt _)
      · exact hliteral h rfl
    | pushArray size =>
      rcases List.mem_cons.mp h with rfl | h
      · exact Or.inl (by decide)
      · exact Or.inl (List.mem_singleton.mp h ▸ Decimal.isWord_ofNat _)
    | pushStruct size =>
      rcases List.mem_cons.mp h with rfl | h
      · exact Or.inl (by decide)
      · exact Or.inl (List.mem_singleton.mp h ▸ Decimal.isWord_ofNat _)
    | pop view =>
      simp only [argumentParts, arguments] at h
      split at h
      · cases h
      · exact Or.inl (List.mem_singleton.mp h ▸ view.isWord_keyword)
    | tryPop view => exact Or.inl (List.mem_singleton.mp h ▸ view.isWord_keyword)
    | peek index => exact Or.inl (List.mem_singleton.mp h ▸ Decimal.isWord_ofInt _)
    | peekQuiet index => exact Or.inl (List.mem_singleton.mp h ▸ Decimal.isWord_ofInt _)
    | remove index view =>
      rcases List.mem_cons.mp h with rfl | h
      · exact Or.inl (Decimal.isWord_ofInt _)
      · exact Or.inl (List.mem_singleton.mp h ▸ view.isWord_keyword)
    | reverse count => exact Or.inl (List.mem_singleton.mp h ▸ Decimal.isWord_ofInt _)
    | clear => cases h
    | copy count =>
      obtain ⟨n, -, rfl⟩ := List.mem_map.mp h
      exact Or.inl (Decimal.isWord_ofNat _)

/-- A literal is not taken for an array or a struct. -/
theorem readPush_parts (l : Literal) : readPush l.parts = .ok (push l) := by
  have hread := l.read_parts
  cases l with
  | null => rfl
  | _ =>
    simp only [Literal.parts] at hread ⊢
    rw [readPush, if_neg (by decide), if_neg (by decide), hread]
    rfl

theorem readIndex_ofInt (index : Int64) : readIndex (Decimal.ofInt index.toInt) = .ok index := by
  rw [readIndex, Decimal.signed?_ofInt]

theorem readCount_ofNat (count : UInt64) : readCount (Decimal.ofNat count.toNat) = .ok count := by
  rw [readCount, Decimal.unsigned?_ofNat]

theorem readView_keyword (v : View) : readView v.keyword = .ok v := by
  rw [readView, View.ofKeyword?_eq_some_iff.mpr rfl]

/-- The parts of a command are read as the command, an empty part included. -/
theorem read_parts (c : Command) : read c.parts = .ok c := by
  rw [parts, read, Operation.ofWord?_eq_some_iff.mpr rfl]
  cases c with
  | push literal => exact readPush_parts literal
  | insert index literal =>
    change (do
      let index ← readIndex (Decimal.ofInt index.toInt)
      let literal ← Literal.read literal.parts
      .ok (insert index literal)) = _
    rw [readIndex_ofInt, literal.read_parts]
    rfl
  | pushArray size =>
    change pushArray <$> readCount (Decimal.ofNat size.toNat) = _
    rw [readCount_ofNat]
    rfl
  | pushStruct size =>
    change pushStruct <$> readCount (Decimal.ofNat size.toNat) = _
    rw [readCount_ofNat]
    rfl
  | pop view =>
    simp only [operation, argumentParts, arguments]
    split
    · rename_i h
      rw [h]
      rfl
    · change pop <$> readView view.keyword = _
      rw [readView_keyword]
      rfl
  | tryPop view =>
    change tryPop <$> readView view.keyword = _
    rw [readView_keyword]
    rfl
  | peek index =>
    change peek <$> readIndex (Decimal.ofInt index.toInt) = _
    rw [readIndex_ofInt]
    rfl
  | peekQuiet index =>
    change peekQuiet <$> readIndex (Decimal.ofInt index.toInt) = _
    rw [readIndex_ofInt]
    rfl
  | remove index view =>
    change (do
      let index ← readIndex (Decimal.ofInt index.toInt)
      let view ← readView view.keyword
      .ok (remove index view)) = _
    rw [readIndex_ofInt, readView_keyword]
    rfl
  | reverse count =>
    change reverse <$> readIndex (Decimal.ofInt count.toInt) = _
    rw [readIndex_ofInt]
    rfl
  | clear => rfl
  | copy count =>
    cases count with
    | none => rfl
    | some n =>
      change (do
        let count ← readCount (Decimal.ofNat n.toNat)
        .ok (copy (some count))) = _
      rw [readCount_ofNat]
      rfl

theorem solid_of_mem_parts {c : Command} {t : Text} (h : t ∈ c.parts) : t.Solid := by
  rcases isWord_of_mem_parts h with hw | ⟨rfl, -⟩
  · exact hw.1
  · exact fun d hd => absurd hd List.not_mem_nil

/-- The words of a line that holds a command are its parts that are not empty. -/
theorem words_text (c : Command) : Text.words (Text.uncommented c.text) = c.parts.filter (!·.isEmpty) := by
  rw [text_eq, Text.uncommented_intercalate fun _ => solid_of_mem_parts,
    Text.words_intercalate fun _ => solid_of_mem_parts]

/-- A command stays in one line. -/
theorem newline_notMem_text (c : Command) : Text.newline ∉ c.text := by
  rw [text_eq]
  exact Text.newline_notMem_intercalate fun _ => solid_of_mem_parts

/-- All parts of a command without an empty byte string are words. -/
theorem filter_parts {c : Command} (h : ¬c.HasEmptyBytes) : c.parts.filter (!·.isEmpty) = c.parts := by
  rw [List.filter_eq_self]
  intro t ht
  rcases isWord_of_mem_parts ht with hw | ⟨-, he⟩
  · simpa using hw.2
  · exact absurd he h

/-- Of a command with an empty byte string the keyword stays, and is no literal. -/
theorem read_filter_parts {c : Command} (h : c.HasEmptyBytes) :
    read (c.parts.filter (!·.isEmpty)) = .error (.notLiteral ["bytes".toList]) := by
  cases c with
  | push literal =>
    obtain rfl : literal = .bytes [] := Option.some.inj h
    rfl
  | insert index literal =>
    obtain rfl : literal = .bytes [] := Option.some.inj h
    -- the digits of the index are seen, those of the bytes are not
    obtain ⟨d, ds, hd⟩ := List.exists_cons_of_ne_nil (Decimal.isWord_ofInt index.toInt).2
    have hf : (insert index (.bytes [])).parts.filter (!·.isEmpty) =
        [Operation.word .insert, Decimal.ofInt index.toInt, "bytes".toList] := by
      change [Operation.word .insert, Decimal.ofInt index.toInt, "bytes".toList, []].filter (!·.isEmpty) = _
      rw [hd]
      rfl
    rw [hf, read, Operation.ofWord?_eq_some_iff.mpr rfl]
    change (do
      let index ← readIndex (Decimal.ofInt index.toInt)
      let literal ← Literal.read ["bytes".toList]
      .ok (insert index literal)) = _
    rw [readIndex_ofInt]
    rfl
  | _ => cases h

end Command

namespace Script

/-- The written form of a command is read as a line with that command, or refused if the command has an empty byte
string. -/
theorem readLine_text (c : Command) :
    readLine c.text = if c.HasEmptyBytes then .error (.notLiteral ["bytes".toList]) else .ok (some c) := by
  have hread : readLine c.text = some <$> Command.read (c.parts.filter (!·.isEmpty)) := by
    rw [readLine, Command.words_text]
    have hword : (!c.operation.word.isEmpty) = true := by simpa using c.operation.isWord_word.2
    rw [Command.parts, List.filter_cons, if_pos hword]
  rw [hread]
  split
  · rename_i h
    rw [Command.read_filter_parts h]
    rfl
  · rename_i h
    rw [Command.filter_parts h, Command.read_parts]
    rfl

end Script

end OperandStack
