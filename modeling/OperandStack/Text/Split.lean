import OperandStack.Text.Blank

/-!
# Lines, comments and words

A text is cut at every character of a class. Lines are the pieces between line feeds, words the pieces between blanks
that are not empty. A carriage return before a line feed is a blank at the end of its line, so no rule of its own is
needed for it.
-/

namespace OperandStack

namespace Text

/-- The pieces of a text between the characters that `cut` marks, in order, the empty ones included. -/
def pieces (cut : Char → Bool) : Text → List Text
  | [] => [[]]
  | c :: rest => if cut c then [] :: pieces cut rest else (pieces cut rest).modifyHead (c :: ·)

/-- The lines of a text: the pieces between its line feeds. -/
def lines (t : Text) : List Text :=
  t.pieces (· == newline)

/-- A line up to its first `#`, which opens a comment. -/
def uncommented (t : Text) : Text :=
  t.takeWhile (· != '#')

/-- The words of a text: its longest stretches without a blank, in order. -/
def words (t : Text) : List Text :=
  (t.pieces isBlank).filter (!·.isEmpty)

/-- A text has at least one piece. -/
theorem pieces_ne_nil (cut : Char → Bool) (t : Text) : t.pieces cut ≠ [] := by
  induction t with
  | nil => simp [pieces]
  | cons c rest ih =>
    unfold pieces
    split
    · simp
    · cases h : pieces cut rest with
      | nil => exact absurd h ih
      | cons p ps => simp

/-- A cut character between two texts separates their pieces. -/
theorem pieces_append_cons {cut : Char → Bool} {c : Char} (hc : cut c = true) (a b : Text) :
    pieces cut (a ++ c :: b) = pieces cut a ++ pieces cut b := by
  induction a with
  | nil => simp [pieces, hc]
  | cons d a ih =>
    simp only [List.cons_append, pieces, ih]
    split
    · simp
    · cases h : pieces cut a with
      | nil => exact absurd h (pieces_ne_nil cut a)
      | cons p ps => simp

/-- No piece holds a cut character. -/
theorem cut_eq_false_of_mem_pieces {cut : Char → Bool} {t p : Text} (hp : p ∈ pieces cut t) :
    ∀ c ∈ p, cut c = false := by
  induction t generalizing p with
  | nil => simp_all [pieces]
  | cons d rest ih =>
    unfold pieces at hp
    split at hp
    · rcases List.mem_cons.mp hp with rfl | hp
      · simp
      · exact ih hp
    · rename_i hd
      cases h : pieces cut rest with
      | nil => exact absurd h (pieces_ne_nil cut rest)
      | cons q qs =>
        rw [h, List.modifyHead_cons] at hp
        rcases List.mem_cons.mp hp with rfl | hp
        · intro c hc
          rcases List.mem_cons.mp hc with rfl | hc
          · simpa using hd
          · exact ih (h ▸ List.mem_cons_self) c hc
        · exact ih (h ▸ List.mem_cons_of_mem q hp)

end Text

end OperandStack
