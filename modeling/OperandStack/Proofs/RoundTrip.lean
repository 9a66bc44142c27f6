import OperandStack.Proofs.Written

/-!
# Scripts are read back

The written forms of commands, a line for each, are a script again. It is read as the same commands, numbered from 1,
exactly when none of them has an empty byte string (`read_written_eq_ok_iff`); otherwise it is refused at the first that
has one (`readFrom_texts_refused`).
-/

namespace OperandStack

namespace Script

/-- The commands of some lines, written down one to a line. -/
def written (lines : List Line) : Text :=
  List.intercalate [Text.newline] (lines.map fun line => line.command.text)

/-- The commands of some lines, numbered from a first number on. -/
def renumbered (first : Nat) : List Line → List Line
  | [] => []
  | line :: rest => { line with number := first } :: renumbered (first + 1) rest

/-- A list with no empty byte string is read back line by line. -/
theorem readFrom_texts (first : Nat) {lines : List Line} (h : ∀ line ∈ lines, ¬line.command.HasEmptyBytes) :
    readFrom first (lines.map fun line => line.command.text) = .ok (renumbered first lines) := by
  induction lines generalizing first with
  | nil => rfl
  | cons line rest ih =>
    have hline := h line List.mem_cons_self
    rw [List.map_cons, readFrom, readLine_text, if_neg hline,
      ih (first + 1) fun other ho => h other (List.mem_cons_of_mem line ho)]
    rfl

/-- A list is refused at its first empty byte string. -/
theorem readFrom_texts_refused (first : Nat) {before after : List Line} {line : Line}
    (hb : ∀ other ∈ before, ¬other.command.HasEmptyBytes) (hl : line.command.HasEmptyBytes) :
    readFrom first ((before ++ line :: after).map fun line => line.command.text) =
      .error { line := first + before.length, cause := .notLiteral ["bytes".toList] } := by
  induction before generalizing first with
  | nil =>
    rw [List.nil_append, List.map_cons, readFrom, readLine_text, if_pos hl]
    rfl
  | cons other before ih =>
    have hother := hb other List.mem_cons_self
    rw [List.cons_append, List.map_cons, readFrom, readLine_text, if_neg hother,
      ih (first + 1) fun o ho => hb o (List.mem_cons_of_mem other ho), List.length_cons,
      show first + 1 + before.length = first + (before.length + 1) by omega]
    rfl

/-- A script of written forms is read line by line. -/
theorem read_written (lines : List Line) :
    read (written lines) = readFrom 1 (lines.map fun line => line.command.text) := by
  cases lines with
  | nil => rfl
  | cons line rest =>
    rw [read, written, Text.lines_intercalate (by simp)]
    intro t ht
    obtain ⟨other, -, rfl⟩ := List.mem_map.mp ht
    exact other.command.newline_notMem_text

/-- A script of written forms is read back if and only if it has no empty byte string. -/
theorem read_written_eq_ok_iff (lines : List Line) :
    read (written lines) = .ok (renumbered 1 lines) ↔ ∀ line ∈ lines, ¬line.command.HasEmptyBytes := by
  rw [read_written]
  constructor
  · intro h
    cases hf : lines.find? fun line => decide line.command.HasEmptyBytes with
    | none =>
      intro line hl
      simpa using List.find?_eq_none.mp hf line hl
    | some line =>
      obtain ⟨hline, before, after, rfl, hb⟩ := List.find?_eq_some_iff_append.mp hf
      rw [readFrom_texts_refused 1 (fun other ho => by simpa using hb other ho) (by simpa using hline)] at h
      cases h
  · exact readFrom_texts 1

/-- The written form of one command is read back if and only if it has no empty byte string. -/
theorem read_text_eq_ok_iff (c : Command) : read c.text = .ok [{ number := 1, command := c }] ↔ ¬c.HasEmptyBytes := by
  have h := read_written_eq_ok_iff [{ number := 1, command := c }]
  simpa [written, renumbered] using h

end Script

end OperandStack
