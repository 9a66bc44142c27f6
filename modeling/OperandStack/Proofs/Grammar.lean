import OperandStack.Proofs.Numerals
import OperandStack.Script.Reader

/-!
# The grammar of commands

Which words spell which literal and which command (`Literal.Spelled`, `Command.Spelled`), said without the reader. The
reader accepts a list of words exactly when it spells a command, and answers with that command
(`Command.read_eq_ok_iff_spelled`), so no list of words can be read in two ways. The words of a line are never empty;
the grammar and the reader agree on empty words too.
-/

namespace OperandStack

namespace Literal

/-- The spellings of a literal: its keyword and, but for `null`, one word. -/
inductive Spelled : List Text → Literal → Prop where
  | null : Spelled ["null".toList] .null
  | true : Spelled ["bool".toList, "true".toList] (.boolean true)
  | false : Spelled ["bool".toList, "false".toList] (.boolean false)
  | integer {w : Text} {n : Int64} : Decimal.Signed w n.toInt → Spelled ["int".toList, w] (.integer n)
  | bytes {w : Text} {bs : List UInt8} : Hex.Marked w bs → Spelled ["bytes".toList, w] (.bytes bs)

end Literal

namespace Command

/-- The spellings of a command: the word of its operation and its arguments, of which a view may be left out if it is
`any` and a count if it is all. -/
inductive Spelled : List Text → Command → Prop where
  | push {ws : List Text} {l : Literal} : l.Spelled ws → Spelled ("push".toList :: ws) (.push l)
  | pushArray {w : Text} {size : UInt64} :
      Decimal.Unsigned w size.toNat → Spelled ["push".toList, "array".toList, w] (.pushArray size)
  | pushStruct {w : Text} {size : UInt64} :
      Decimal.Unsigned w size.toNat → Spelled ["push".toList, "struct".toList, w] (.pushStruct size)
  | popAny : Spelled ["pop".toList] (.pop .any)
  | pop (view : View) : Spelled ["pop".toList, view.keyword] (.pop view)
  | tryPopAny : Spelled ["trypop".toList] (.tryPop .any)
  | tryPop (view : View) : Spelled ["trypop".toList, view.keyword] (.tryPop view)
  | peek {w : Text} {index : Int64} : Decimal.Signed w index.toInt → Spelled ["peek".toList, w] (.peek index)
  | peekQuiet {w : Text} {index : Int64} : Decimal.Signed w index.toInt → Spelled ["peekq".toList, w] (.peekQuiet index)
  | insert {w : Text} {index : Int64} {ws : List Text} {l : Literal} :
      Decimal.Signed w index.toInt → l.Spelled ws → Spelled ("insert".toList :: w :: ws) (.insert index l)
  | removeAny {w : Text} {index : Int64} :
      Decimal.Signed w index.toInt → Spelled ["remove".toList, w] (.remove index .any)
  | remove {w : Text} {index : Int64} (view : View) :
      Decimal.Signed w index.toInt → Spelled ["remove".toList, w, view.keyword] (.remove index view)
  | reverse {w : Text} {count : Int64} : Decimal.Signed w count.toInt → Spelled ["reverse".toList, w] (.reverse count)
  | clear : Spelled ["clear".toList] .clear
  | copyAll : Spelled ["copy".toList] (.copy none)
  | copy {w : Text} {count : UInt64} : Decimal.Unsigned w count.toNat → Spelled ["copy".toList, w] (.copy (some count))

end Command

/-! ## The readers of words -/

namespace Command

theorem readIndex_eq_ok_iff {w : Text} {i : Int64} : readIndex w = .ok i ↔ Decimal.Signed w i.toInt := by
  rw [← Decimal.signed?_eq_some_iff, readIndex]
  cases Decimal.signed? w <;> simp

theorem readCount_eq_ok_iff {w : Text} {n : UInt64} : readCount w = .ok n ↔ Decimal.Unsigned w n.toNat := by
  rw [← Decimal.unsigned?_eq_some_iff, readCount]
  cases Decimal.unsigned? w <;> simp

theorem readView_eq_ok_iff {w : Text} {v : View} : readView w = .ok v ↔ w = v.keyword := by
  rw [← View.ofKeyword?_eq_some_iff, readView]
  cases View.ofKeyword? w <;> simp

end Command

namespace Literal

theorem readBoolean_eq_ok_iff {w : Text} {l : Literal} :
    readBoolean w = .ok l ↔ w = "true".toList ∧ l = .boolean true ∨ w = "false".toList ∧ l = .boolean false := by
  unfold readBoolean
  split
  · rename_i h
    simp [h, eq_comm]
  · split
    · rename_i h
      simp [h, eq_comm]
    · rename_i htrue hfalse
      simp only [htrue, hfalse, false_and, or_self, reduceCtorEq]

theorem readInteger_eq_ok_iff {w : Text} {l : Literal} :
    readInteger w = .ok l ↔ ∃ n : Int64, Decimal.Signed w n.toInt ∧ .integer n = l := by
  simp only [← Decimal.signed?_eq_some_iff, readInteger]
  cases Decimal.signed? w <;> simp

/-- The digits of a word are what is left of it without a marker; digits do not begin like one. -/
theorem decode_hexDigits_eq_ok_iff {w : Text} {bs : List UInt8} :
    Hex.decode (hexDigits w) = .ok bs ↔ Hex.Marked w bs := by
  rw [Hex.decode_eq_ok_iff]
  unfold hexDigits
  split
  · constructor
    · exact .marker
    · intro h
      cases h with
      | marker h => exact h
      | plain h =>
        cases h with
        | cons _ hx _ => exact absurd rfl hx.spec.2
  · rename_i hno
    constructor
    · exact .plain
    · intro h
      cases h with
      | marker h => exact absurd rfl (hno _)
      | plain h => exact h

theorem readBytes_eq_ok_iff {w : Text} {l : Literal} :
    readBytes w = .ok l ↔ ∃ bs, Hex.Marked w bs ∧ .bytes bs = l := by
  simp only [← decode_hexDigits_eq_ok_iff, readBytes]
  cases Hex.decode (hexDigits w) <;> simp

/-! ## Literals -/

theorem spelled_of_read {ws : List Text} {l : Literal} (h : read ws = .ok l) : l.Spelled ws := by
  unfold read at h
  split at h
  · split at h
    · rename_i hk
      cases h
      exact hk ▸ .null
    · cases h
  · split at h
    · rename_i hk
      rcases readBoolean_eq_ok_iff.mp h with ⟨rfl, rfl⟩ | ⟨rfl, rfl⟩
      · exact hk ▸ .true
      · exact hk ▸ .false
    · split at h
      · rename_i hk
        obtain ⟨n, hn, rfl⟩ := readInteger_eq_ok_iff.mp h
        exact hk ▸ .integer hn
      · split at h
        · rename_i hk
          obtain ⟨bs, hbs, rfl⟩ := readBytes_eq_ok_iff.mp h
          exact hk ▸ .bytes hbs
        · cases h
  · cases h

theorem read_of_spelled {ws : List Text} {l : Literal} (h : l.Spelled ws) : read ws = .ok l := by
  cases h with
  | null => rfl
  | true => rfl
  | false => rfl
  | integer hn => exact readInteger_eq_ok_iff.mpr ⟨_, hn, rfl⟩
  | bytes hbs => exact readBytes_eq_ok_iff.mpr ⟨_, hbs, rfl⟩

end Literal

namespace Command

/-! ## Commands -/

/-- A line that opens with the word of an operation is read as its arguments say. -/
theorem read_word (op : Operation) (args : List Text) : read (op.word :: args) = readArguments op args := by
  rw [read, Operation.ofWord?_eq_some_iff.mpr rfl]

theorem spelled_of_readPush {args : List Text} {c : Command} (h : readPush args = .ok c) :
    Spelled ("push".toList :: args) c := by
  unfold readPush at h
  split at h
  · split at h
    · rename_i hk
      obtain ⟨n, hn, rfl⟩ := map_eq_ok_iff.mp h
      exact hk ▸ .pushArray (readCount_eq_ok_iff.mp hn)
    · split at h
      · rename_i hk
        obtain ⟨n, hn, rfl⟩ := map_eq_ok_iff.mp h
        exact hk ▸ .pushStruct (readCount_eq_ok_iff.mp hn)
      · obtain ⟨l, hl, rfl⟩ := map_eq_ok_iff.mp h
        exact .push (Literal.spelled_of_read hl)
  · obtain ⟨l, hl, rfl⟩ := map_eq_ok_iff.mp h
    exact .push (Literal.spelled_of_read hl)

/-- No keyword of a literal is taken for that of an array or a struct. -/
theorem readPush_of_spelled {ws : List Text} {l : Literal} (h : l.Spelled ws) : readPush ws = .ok (push l) := by
  have hread : push <$> Literal.read ws = .ok (push l) := map_eq_ok_iff.mpr ⟨l, Literal.read_of_spelled h, rfl⟩
  cases h with
  | null => exact hread
  | _ =>
    rw [readPush, if_neg (by decide), if_neg (by decide)]
    exact hread

/-- What is read from the arguments of an operation is spelled by its word and them. -/
theorem spelled_of_readArguments {op : Operation} {args : List Text} {c : Command}
    (h : readArguments op args = .ok c) : Spelled (op.word :: args) c := by
  -- The cases are the arms of the reader in their order; the last is every wrong number of arguments.
  unfold readArguments at h
  split at h
  case h_1 => exact spelled_of_readPush h
  case h_2 =>
    cases h
    exact .popAny
  case h_3 =>
    obtain ⟨v, hv, rfl⟩ := map_eq_ok_iff.mp h
    exact readView_eq_ok_iff.mp hv ▸ .pop v
  case h_4 =>
    cases h
    exact .tryPopAny
  case h_5 =>
    obtain ⟨v, hv, rfl⟩ := map_eq_ok_iff.mp h
    exact readView_eq_ok_iff.mp hv ▸ .tryPop v
  case h_6 =>
    obtain ⟨i, hi, rfl⟩ := map_eq_ok_iff.mp h
    exact .peek (readIndex_eq_ok_iff.mp hi)
  case h_7 =>
    obtain ⟨i, hi, rfl⟩ := map_eq_ok_iff.mp h
    exact .peekQuiet (readIndex_eq_ok_iff.mp hi)
  case h_8 w ws =>
    obtain ⟨i, hi, h⟩ := bind_eq_ok_iff.mp h
    obtain ⟨l, hl, h⟩ := bind_eq_ok_iff.mp h
    cases h
    exact .insert (readIndex_eq_ok_iff.mp hi) (Literal.spelled_of_read hl)
  case h_9 w =>
    obtain ⟨i, hi, rfl⟩ := map_eq_ok_iff.mp h
    exact .removeAny (readIndex_eq_ok_iff.mp hi)
  case h_10 w k =>
    obtain ⟨i, hi, h⟩ := bind_eq_ok_iff.mp h
    obtain ⟨v, hv, h⟩ := bind_eq_ok_iff.mp h
    cases h
    exact readView_eq_ok_iff.mp hv ▸ .remove v (readIndex_eq_ok_iff.mp hi)
  case h_11 =>
    obtain ⟨i, hi, rfl⟩ := map_eq_ok_iff.mp h
    exact .reverse (readIndex_eq_ok_iff.mp hi)
  case h_12 =>
    cases h
    exact .clear
  case h_13 =>
    cases h
    exact .copyAll
  case h_14 =>
    obtain ⟨n, hn, rfl⟩ := map_eq_ok_iff.mp h
    exact .copy (readCount_eq_ok_iff.mp hn)
  case h_15 => cases h

theorem spelled_of_read {words : List Text} {c : Command} (h : read words = .ok c) : Spelled words c := by
  cases words with
  | nil => cases h
  | cons w args =>
    rw [read] at h
    split at h
    · rename_i op hop
      rw [Operation.ofWord?_eq_some_iff.mp hop]
      exact spelled_of_readArguments h
    · cases h

theorem read_of_spelled {words : List Text} {c : Command} (h : Spelled words c) : read words = .ok c := by
  cases h with
  | push hl => exact (read_word .push _).trans (readPush_of_spelled hl)
  | pushArray hn => exact (read_word .push _).trans (map_eq_ok_iff.mpr ⟨_, readCount_eq_ok_iff.mpr hn, rfl⟩)
  | pushStruct hn => exact (read_word .push _).trans (map_eq_ok_iff.mpr ⟨_, readCount_eq_ok_iff.mpr hn, rfl⟩)
  | popAny => rfl
  | pop v => exact (read_word .pop _).trans (map_eq_ok_iff.mpr ⟨v, readView_eq_ok_iff.mpr rfl, rfl⟩)
  | tryPopAny => rfl
  | tryPop v => exact (read_word .trypop _).trans (map_eq_ok_iff.mpr ⟨v, readView_eq_ok_iff.mpr rfl, rfl⟩)
  | peek hi => exact (read_word .peek _).trans (map_eq_ok_iff.mpr ⟨_, readIndex_eq_ok_iff.mpr hi, rfl⟩)
  | peekQuiet hi => exact (read_word .peekq _).trans (map_eq_ok_iff.mpr ⟨_, readIndex_eq_ok_iff.mpr hi, rfl⟩)
  | insert hi hl =>
    refine (read_word .insert _).trans (bind_eq_ok_iff.mpr ⟨_, readIndex_eq_ok_iff.mpr hi, ?_⟩)
    exact bind_eq_ok_iff.mpr ⟨_, Literal.read_of_spelled hl, rfl⟩
  | removeAny hi => exact (read_word .remove _).trans (map_eq_ok_iff.mpr ⟨_, readIndex_eq_ok_iff.mpr hi, rfl⟩)
  | remove v hi =>
    refine (read_word .remove _).trans (bind_eq_ok_iff.mpr ⟨_, readIndex_eq_ok_iff.mpr hi, ?_⟩)
    exact bind_eq_ok_iff.mpr ⟨v, readView_eq_ok_iff.mpr rfl, rfl⟩
  | reverse hn => exact (read_word .reverse _).trans (map_eq_ok_iff.mpr ⟨_, readIndex_eq_ok_iff.mpr hn, rfl⟩)
  | clear => rfl
  | copyAll => rfl
  | copy hn => exact (read_word .copy _).trans (map_eq_ok_iff.mpr ⟨_, readCount_eq_ok_iff.mpr hn, rfl⟩)

/-- A list of words is read as a command exactly when it spells the command, it is refused exactly when it spells none,
and no list spells two. -/
theorem read_eq_ok_iff_spelled (words : List Text) :
    (∀ c, read words = .ok c ↔ Spelled words c) ∧ ((∃ e, read words = .error e) ↔ ∀ c, ¬Spelled words c) ∧
      ∀ c c', Spelled words c → Spelled words c' → c = c' := by
  have hiff : ∀ c, read words = .ok c ↔ Spelled words c := fun c => ⟨spelled_of_read, read_of_spelled⟩
  refine ⟨hiff, ?_, ?_⟩
  · constructor
    · rintro ⟨e, he⟩ c hc
      rw [(hiff c).mpr hc] at he
      cases he
    · intro hnone
      cases h : read words with
      | error e => exact ⟨e, rfl⟩
      | ok c => exact absurd ((hiff c).mp h) (hnone c)
  · intro c c' hc hc'
    have h := (hiff c).mpr hc
    rw [(hiff c').mpr hc'] at h
    cases h
    rfl

/-- An index with a needless sign, and a byte with a marker and digits of both cases. -/
def lavishWords : List Text :=
  ["insert".toList, "-0".toList, "bytes".toList, "0xaB".toList]

theorem read_eq_ok_iff_spelled_lavish :
    Spelled lavishWords (.insert 0 (.bytes [0xAB])) ∧ read lavishWords = .ok (.insert 0 (.bytes [0xAB])) ∧
      (∀ c, Spelled lavishWords c → c = .insert 0 (.bytes [0xAB])) ∧
      ∀ c, ¬Spelled (lavishWords ++ ["any".toList]) c := by
  have hindex : Decimal.Signed "-0".toList (0 : Int64).toInt := .minus (.digit (d := 0) (by decide))
  have hbyte : Hex.Marked "0xaB".toList [0xAB] :=
    .marker (.cons (.lower (n := 10) (by decide)) (.upper (n := 11) (by decide)) .nil)
  have hspelled : Spelled lavishWords (.insert 0 (.bytes [0xAB])) := .insert hindex (.bytes hbyte)
  obtain ⟨hiff, -, hunique⟩ := read_eq_ok_iff_spelled lavishWords
  refine ⟨hspelled, (hiff _).mpr hspelled, fun c hc => hunique _ _ hc hspelled, ?_⟩
  exact (read_eq_ok_iff_spelled (lavishWords ++ ["any".toList])).2.1.mp ⟨_, rfl⟩

end Command

end OperandStack
