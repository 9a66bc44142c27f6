import OperandStack.Proofs.Words
import OperandStack.Script

/-!
# Scripts joined at a line feed

Two texts with a line feed between them are read one after the other: the lines of the second follow those of the first,
with numbers that go on, and a flaw of the first hides any of the second. Behind it stands that reading is done line by
line: a list of lines is refused exactly at the first that has words but is no command (`readFrom_eq_error_iff`), and
otherwise its commands bear the numbers of their lines (`readFrom_append`, `readFrom_add`).
-/

namespace OperandStack

namespace Text

/-- A line feed between two texts separates their lines. -/
theorem lines_append_newline (a b : Text) : (a ++ newline :: b).lines = a.lines ++ b.lines := by
  rw [lines, pieces_append_cons]
  · rfl
  · exact beq_self_eq_true newline

/-- A text that stays in its line is one line. -/
theorem lines_of_notMem {t : Text} (h : newline ∉ t) : t.lines = [t] := by
  refine pieces_of_uncut fun c hc => ?_
  rw [beq_eq_false_iff_ne]
  rintro rfl
  exact h hc

/-- A text has one line more than it has line feeds. -/
theorem length_lines (t : Text) : t.lines.length = 1 + t.count newline := by
  induction t with
  | nil => rfl
  | cons c t ih =>
    have hrest : (pieces (· == newline) t).length = 1 + t.count newline := ih
    rw [lines, pieces]
    by_cases hc : c = newline
    · subst hc
      rw [if_pos (beq_self_eq_true newline), List.length_cons, hrest, List.count_cons_self]
      omega
    · rw [if_neg (by simpa using hc), List.length_modifyHead, hrest, List.count_cons_of_ne hc]

end Text

/-- A line whose number has been raised. -/
def Line.later (k : Nat) (line : Line) : Line :=
  { line with number := k + line.number }

/-- A refusal at a line whose number has been raised, for the same cause. -/
def ScriptError.later (k : Nat) (e : ScriptError) : ScriptError :=
  { e with line := k + e.line }

namespace Script

open Text

/-- A line is refused when it has words before its comment and they are no command. -/
def Refused (t : Text) (cause : CommandError) : Prop :=
  t.uncommented.words ≠ [] ∧ Command.read t.uncommented.words = .error cause

theorem readLine_eq_error_iff {t : Text} {cause : CommandError} : readLine t = .error cause ↔ Refused t cause := by
  unfold readLine Refused
  cases t.uncommented.words with
  | nil => simp
  | cons w ws => cases h : Command.read (w :: ws) <;> simp [h]

/-- A line that is not refused holds a command or nothing. -/
theorem exists_readLine_eq_ok {t : Text} (h : ∀ cause, ¬Refused t cause) : ∃ content, readLine t = .ok content := by
  cases ht : readLine t with
  | error cause => exact absurd (readLine_eq_error_iff.mp ht) (h cause)
  | ok content => exact ⟨content, rfl⟩

/-- What a line of a number holds. -/
def numbered (number : Nat) (content : Option Command) : List Line :=
  content.toList.map fun command => { number, command }

theorem mem_numbered {number : Nat} {content : Option Command} {line : Line} (h : line ∈ numbered number content) :
    line.number = number ∧ line.command ∈ content := by
  obtain ⟨command, hc, rfl⟩ := List.mem_map.mp h
  exact ⟨rfl, Option.mem_toList.mp hc⟩

/-! ## Lists of lines -/

/-- A refused first line is where the reading ends. -/
theorem readFrom_cons_error {number : Nat} {t : Text} {cause : CommandError} (h : readLine t = .error cause)
    (rest : List Text) : readFrom number (t :: rest) = .error { line := number, cause } := by
  rw [readFrom, h]

/-- What any other first line holds comes before what is read from the others. -/
theorem readFrom_cons_ok {number : Nat} {t : Text} {content : Option Command} (h : readLine t = .ok content)
    (rest : List Text) :
    readFrom number (t :: rest) = (numbered number content ++ ·) <$> readFrom (number + 1) rest := by
  rw [readFrom, h]
  cases content <;> cases readFrom (number + 1) rest <;> rfl

/-- Two lists of lines are read one after the other. -/
theorem readFrom_append (number : Nat) (xs ys : List Text) :
    readFrom number (xs ++ ys) =
      match readFrom number xs with
      | .error e => .error e
      | .ok first => (first ++ ·) <$> readFrom (number + xs.length) ys := by
  induction xs generalizing number with
  | nil => cases h : readFrom number ys <;> simp [readFrom, h]
  | cons t xs ih =>
    rw [List.cons_append]
    cases ht : readLine t with
    | error cause => rw [readFrom_cons_error ht, readFrom_cons_error ht]
    | ok content =>
      have hlength : number + 1 + xs.length = number + (t :: xs).length := by
        rw [List.length_cons]
        omega
      rw [readFrom_cons_ok ht, readFrom_cons_ok ht, ih, hlength]
      cases readFrom (number + 1) xs with
      | error e => rfl
      | ok first => cases readFrom (number + (t :: xs).length) ys <;> simp

/-- Lines that stand further down are read alike, with greater numbers. -/
theorem readFrom_add (k number : Nat) (ts : List Text) :
    readFrom (k + number) ts =
      match readFrom number ts with
      | .error e => .error (e.later k)
      | .ok lines => .ok (lines.map (Line.later k)) := by
  induction ts generalizing number with
  | nil => rfl
  | cons t ts ih =>
    cases ht : readLine t with
    | error cause =>
      rw [readFrom_cons_error ht, readFrom_cons_error ht]
      rfl
    | ok content =>
      rw [readFrom_cons_ok ht, readFrom_cons_ok ht, Nat.add_assoc, ih]
      cases readFrom (number + 1) ts with
      | error e => rfl
      | ok lines => cases content <;> rfl

/-- The lines that were read bear increasing numbers, from the first number on. -/
theorem readFrom_numbers {number : Nat} {ts : List Text} {lines : List Line} (h : readFrom number ts = .ok lines) :
    (∀ line ∈ lines, number ≤ line.number) ∧ (lines.map Line.number).Pairwise (· < ·) := by
  induction ts generalizing number lines with
  | nil =>
    cases h
    exact ⟨by simp, .nil⟩
  | cons t ts ih =>
    cases ht : readLine t with
    | error cause =>
      rw [readFrom_cons_error ht] at h
      cases h
    | ok content =>
      rw [readFrom_cons_ok ht] at h
      cases hrest : readFrom (number + 1) ts with
      | error e =>
        rw [hrest] at h
        cases h
      | ok rest =>
        rw [hrest] at h
        cases h
        obtain ⟨hle, hlt⟩ := ih hrest
        constructor
        · intro line hl
          rcases List.mem_append.mp hl with hl | hl
          · exact Nat.le_of_eq (mem_numbered hl).1.symm
          · have := hle line hl
            omega
        · cases content with
          | none => exact hlt
          | some command =>
            refine List.pairwise_cons.mpr ⟨?_, hlt⟩
            intro n hn
            obtain ⟨line, hl, rfl⟩ := List.mem_map.mp hn
            exact hle line hl

/-- Reading ends at a line exactly when it is the first that is refused. -/
theorem readFrom_eq_error_iff {number : Nat} {ts : List Text} {e : ScriptError} :
    readFrom number ts = .error e ↔ ∃ before t after, ts = before ++ t :: after ∧ e.line = number + before.length ∧
      Refused t e.cause ∧ ∀ u ∈ before, ∀ cause, ¬Refused u cause := by
  constructor
  · intro h
    induction ts generalizing number with
    | nil => cases h
    | cons t ts ih =>
      cases ht : readLine t with
      | error cause =>
        rw [readFrom_cons_error ht] at h
        cases h
        exact ⟨[], t, ts, rfl, rfl, readLine_eq_error_iff.mp ht, by simp⟩
      | ok content =>
        rw [readFrom_cons_ok ht] at h
        cases hrest : readFrom (number + 1) ts with
        | ok rest =>
          rw [hrest] at h
          cases h
        | error e' =>
          rw [hrest] at h
          cases h
          obtain ⟨before, u, after, rfl, hline, hu, hbefore⟩ := ih hrest
          refine ⟨t :: before, u, after, rfl, ?_, hu, ?_⟩
          · rw [hline, List.length_cons]
            omega
          · intro v hv cause hcause
            rcases List.mem_cons.mp hv with rfl | hv
            · rw [readLine_eq_error_iff.mpr hcause] at ht
              cases ht
            · exact hbefore v hv cause hcause
  · rintro ⟨before, t, after, rfl, hline, ht, hbefore⟩
    induction before generalizing number with
    | nil =>
      have he : e = { line := number, cause := e.cause } := congrArg (ScriptError.mk · e.cause) hline
      rw [List.nil_append, readFrom_cons_error (readLine_eq_error_iff.mpr ht), he]
    | cons u before ih =>
      obtain ⟨content, hu⟩ := exists_readLine_eq_ok (hbefore u List.mem_cons_self)
      have hrest : readFrom (number + 1) (before ++ t :: after) = .error e := by
        refine ih ?_ fun v hv => hbefore v (List.mem_cons_of_mem u hv)
        rw [hline, List.length_cons]
        omega
      rw [List.cons_append, readFrom_cons_ok hu, hrest]
      rfl

/-! ## Joined scripts -/

/-- Two scripts with a line feed between them are read as the lines of the first and, with numbers that go on, those of
the second; they are refused as the first is or else, at a line so much further down, as the second is. The lines of a
script bear increasing numbers, and a script is refused exactly at its first line that has words but is no command. -/
theorem read_joined :
    (∀ a b : Text, read (a ++ newline :: b) =
      match read a, read b with
      | .error e, _ => .error e
      | .ok _, .error e => .error (e.later (1 + a.count newline))
      | .ok first, .ok second => .ok (first ++ second.map (Line.later (1 + a.count newline)))) ∧
    ∀ source : Text,
      (∀ lines, read source = .ok lines → (lines.map Line.number).Pairwise (· < ·)) ∧
      ∀ e, read source = .error e ↔ ∃ before t after, source.lines = before ++ t :: after ∧ e.line = 1 + before.length ∧
        Refused t e.cause ∧ ∀ u ∈ before, ∀ cause, ¬Refused u cause := by
  refine ⟨fun a b => ?_, fun source => ⟨fun lines h => (readFrom_numbers h).2, fun e => readFrom_eq_error_iff⟩⟩
  have hstart : 1 + a.lines.length = 1 + a.count newline + 1 := by
    rw [length_lines]
    omega
  rw [read, lines_append_newline, readFrom_append, hstart, readFrom_add, read, read]
  cases readFrom 1 a.lines with
  | error e => rfl
  | ok first => cases readFrom 1 b.lines <;> rfl

/-- A script that ends in a carriage return, and one with a comment and too many words behind it. -/
theorem read_joined_tooManyWords :
    read "push null\r".toList = .ok [⟨1, .push .null⟩] ∧
      read "# empty\nclear now".toList = .error ⟨2, .wrongArguments .clear⟩ ∧
      read ("push null\r".toList ++ newline :: "# empty\nclear now".toList) = .error ⟨3, .wrongArguments .clear⟩ ∧
      read ("push null\r".toList ++ newline :: "push null\r".toList) = .ok [⟨1, .push .null⟩, ⟨2, .push .null⟩] ∧
      [1, 2].Pairwise (· < ·) := by
  have hfirst : read "push null\r".toList = .ok [⟨1, .push .null⟩] := rfl
  have hsecond : read "# empty\nclear now".toList = .error ⟨2, .wrongArguments .clear⟩ := rfl
  have htwice : read ("push null\r".toList ++ newline :: "push null\r".toList) =
      .ok [⟨1, .push .null⟩, ⟨2, .push .null⟩] := by
    rw [read_joined.1, hfirst]
    rfl
  refine ⟨hfirst, hsecond, ?_, htwice, (read_joined.2 _).1 _ htwice⟩
  rw [read_joined.1, hfirst, hsecond]
  rfl

end Script

end OperandStack
