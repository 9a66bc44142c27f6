import OperandStack.Proofs.Seam
import OperandStack.Proofs.Written

/-!
# Layouts of scripts

A script may be laid out in many ways (`Script.Layout`): lines that hold no command anywhere, blanks around and between
the words of a command, a comment at the end of any line, either end of line. All of them are read as the same commands,
each with the number of its line, which is one more than the line feeds before it (`Script.read_layout`). The written
form of a command with an empty byte string is the exception: it is refused as it stands, so in every layout.
-/

namespace OperandStack

namespace Text

/-! ## Blanks and comments -/

/-- Blanks that stay in their line. -/
def Gap (t : Text) : Prop :=
  ∀ c ∈ t, isBlank c = true ∧ c ≠ newline

instance (t : Text) : Decidable t.Gap :=
  List.decidableBAll (fun c => isBlank c = true ∧ c ≠ newline) t

/-- Nothing, or a `#` and any text that stays in its line. -/
inductive Comment : Text → Prop where
  | absent : Comment []
  | present {t : Text} : newline ∉ t → Comment ('#' :: t)

/-- A text in which each space has been replaced by a gap that is not empty. -/
inductive Respaced : Text → Text → Prop where
  | nil : Respaced [] []
  | keep {c : Char} {t t' : Text} : c ≠ ' ' → Respaced t t' → Respaced (c :: t) (c :: t')
  | widen {gap t t' : Text} : Gap gap → gap ≠ [] → Respaced t t' → Respaced (' ' :: t) (gap ++ t')

/-- What ends a line: a line feed, or a carriage return and a line feed. -/
inductive LineEnd : Text → Prop where
  | lineFeed : LineEnd [newline]
  | both : LineEnd ['\r', newline]

/-- A gap opens no comment and stays in its line. -/
theorem Gap.notMem {gap : Text} (hg : Gap gap) : '#' ∉ gap ∧ newline ∉ gap :=
  ⟨fun h => absurd (hg _ h).1 (by decide), fun h => (hg _ h).2 rfl⟩

/-- A text is one way to space itself. -/
theorem Respaced.refl (t : Text) : Respaced t t := by
  induction t with
  | nil => exact .nil
  | cons c t ih =>
    by_cases hc : c = ' '
    · have hspace : Gap [' '] := by decide
      rw [hc]
      exact .widen hspace (List.cons_ne_nil _ _) ih
    · exact .keep hc ih

theorem Respaced.append {a a' b b' : Text} (ha : Respaced a a') (hb : Respaced b b') :
    Respaced (a ++ b) (a' ++ b') := by
  induction ha with
  | nil => exact hb
  | keep hc _ ih => exact .keep hc ih
  | widen hg hne _ ih =>
    rw [List.append_assoc]
    exact .widen hg hne ih

/-- Spacing brings in gaps only. -/
theorem Respaced.mem {t t' : Text} (h : Respaced t t') {c : Char} (hc : c ∈ t') :
    c ∈ t ∨ isBlank c = true ∧ c ≠ newline := by
  induction h with
  | nil => exact Or.inl hc
  | keep _ _ ih =>
    rcases List.mem_cons.mp hc with rfl | hc
    · exact Or.inl List.mem_cons_self
    · exact (ih hc).imp_left (List.mem_cons_of_mem _)
  | widen hg _ _ ih =>
    rcases List.mem_append.mp hc with hc | hc
    · exact Or.inr (hg c hc)
    · exact (ih hc).imp_left (List.mem_cons_of_mem _)

/-! ## What spacing and comments do to words -/

/-- A blank separates the words before it from those after it. -/
theorem words_append_cons {c : Char} (hc : isBlank c = true) (a b : Text) :
    words (a ++ c :: b) = words a ++ words b := by
  rw [words, pieces_append_cons hc, List.filter_append]
  rfl

theorem words_gap_append {gap : Text} (hg : Gap gap) (t : Text) : words (gap ++ t) = words t := by
  induction gap with
  | nil => rfl
  | cons c gap ih =>
    have hc := (hg c List.mem_cons_self).1
    have h : words (c :: (gap ++ t)) = words [] ++ words (gap ++ t) := words_append_cons hc [] (gap ++ t)
    rw [List.cons_append, h, ih fun d hd => hg d (List.mem_cons_of_mem c hd)]
    rfl

theorem words_append_gap {gap : Text} (hg : Gap gap) (t : Text) : words (t ++ gap) = words t := by
  cases gap with
  | nil => rw [List.append_nil]
  | cons c gap =>
    have hrest := words_gap_append (fun d hd => hg d (List.mem_cons_of_mem c hd)) []
    rw [List.append_nil] at hrest
    rw [words_append_cons (hg c List.mem_cons_self).1, hrest]
    exact List.append_nil _

/-- Spacing keeps the words. The induction is on the text with any text before it, where the first word may begin. -/
theorem words_of_respaced {t t' : Text} (h : Respaced t t') (before : Text) :
    words (before ++ t') = words (before ++ t) := by
  induction h generalizing before with
  | nil => rfl
  | @keep c t t' _ _ ih =>
    have hnext := ih (before ++ [c])
    rwa [List.append_assoc, List.append_assoc] at hnext
  | @widen gap t t' hg hne _ ih =>
    obtain ⟨c, gap, rfl⟩ := List.exists_cons_of_ne_nil hne
    have hrest : Gap gap := fun d hd => hg d (List.mem_cons_of_mem c hd)
    rw [List.cons_append, words_append_cons (hg c List.mem_cons_self).1, words_gap_append hrest,
      words_append_cons (by decide)]
    exact congrArg _ (ih [])

/-- A comment is left out, and nothing before it. -/
theorem uncommented_append {t k : Text} (ht : '#' ∉ t) (hk : Comment k) : uncommented (t ++ k) = t := by
  have hall : ∀ c ∈ t, (c != '#') = true := by
    intro c hc
    rw [bne_iff_ne]
    rintro rfl
    exact ht hc
  rw [uncommented, List.takeWhile_append_of_pos hall]
  cases hk with
  | absent => exact List.append_nil t
  | present _ => exact List.append_nil t

end Text

/-- The written form of a command opens no comment. -/
theorem Command.hash_notMem_text (c : Command) : '#' ∉ c.text := by
  intro hc
  rw [c.text_eq] at hc
  rcases Text.mem_intercalate hc with hc | ⟨t, ht, hc⟩
  · exact absurd hc (by decide)
  · exact (solid_of_mem_parts ht '#' hc).2 rfl

namespace Script

open Text

/-! ## Layouts -/

/-- What may stand in one line: blanks and a comment, or the written form of a command with its spaces widened, with
blanks around it and a comment behind it. -/
inductive Row : Option Command → Text → Prop where
  | idle {gap comment : Text} : Gap gap → Comment comment → Row none (gap ++ comment)
  | command {c : Command} {lead body trail comment : Text} : Gap lead → Respaced c.text body → Gap trail →
      Comment comment → Row (some c) (lead ++ body ++ trail ++ comment)

/-- A text that stands behind another and lays out commands: rows with ends of line, of which the last row needs none.
The number of a row is one more than the line feeds before it. -/
inductive Layout : Text → List Line → Text → Prop where
  | last {before row : Text} {content : Option Command} :
      Row content row → Layout before (numbered (1 + before.count newline) content) row
  | cons {before row ending rest : Text} {content : Option Command} {lines : List Line} :
      Row content row → LineEnd ending → Layout (before ++ row ++ ending) lines rest →
      Layout before (numbered (1 + before.count newline) content ++ lines) (row ++ ending ++ rest)

/-! ## Rows -/

theorem Row.newline_notMem {content : Option Command} {row : Text} (h : Row content row) : newline ∉ row := by
  have hcomment : ∀ {k : Text}, Comment k → newline ∉ k := by
    intro k hk
    cases hk with
    | absent => exact List.not_mem_nil
    | present ht => simpa [newline] using ht
  cases h with
  | idle hg hk => simp [hg.notMem.2, hcomment hk]
  | @command c lead body trail comment hlead hbody htrail hk =>
    have hb : newline ∉ body := by
      intro hc
      rcases hbody.mem hc with hc | hc
      · exact c.newline_notMem_text hc
      · exact hc.2 rfl
    simp [hlead.notMem.2, hb, htrail.notMem.2, hcomment hk]

/-- A carriage return at the end of a row is one blank more, or one character more of its comment. -/
theorem Row.append_return {content : Option Command} {row : Text} (h : Row content row) :
    Row content (row ++ ['\r']) := by
  have hreturn : Gap ['\r'] := by decide
  have hgap : ∀ {g : Text}, Gap g → Gap (g ++ ['\r']) := by
    intro g hg c hc
    rcases List.mem_append.mp hc with hc | hc
    · exact hg c hc
    · exact hreturn c hc
  have hcomment : ∀ {t : Text}, newline ∉ t → Comment ('#' :: (t ++ ['\r'])) := by
    intro t ht
    refine .present fun hc => ?_
    rcases List.mem_append.mp hc with hc | hc
    · exact ht hc
    · exact absurd hc (by decide)
  cases h with
  | @idle gap comment hg hk =>
    rw [List.append_assoc]
    cases hk with
    | absent => simpa using Row.idle (hgap hg) .absent
    | present ht => exact .idle hg (hcomment ht)
  | @command c lead body trail comment hlead hbody htrail hk =>
    rw [List.append_assoc]
    cases hk with
    | absent => simpa using Row.command hlead hbody (hgap htrail) .absent
    | present ht => exact .command hlead hbody htrail (hcomment ht)

/-- Lines with the same words before their comments hold the same command. -/
theorem readLine_congr {t t' : Text} (h : t.uncommented.words = t'.uncommented.words) : readLine t = readLine t' := by
  rw [readLine, readLine, h]

/-- A row is read as what it holds. -/
theorem readLine_row {content : Option Command} {row : Text} (h : Row content row)
    (hbytes : ∀ c ∈ content, ¬c.HasEmptyBytes) : readLine row = .ok content := by
  cases h with
  | @idle gap comment hg hk =>
    have hwords : (gap ++ comment).uncommented.words = [] := by
      have hgap := words_gap_append hg []
      rw [List.append_nil] at hgap
      rw [uncommented_append hg.notMem.1 hk, hgap]
      rfl
    rw [readLine, hwords]
  | @command c lead body trail comment hlead hbody htrail hk =>
    have hhash : '#' ∉ lead ++ body ++ trail := by
      have hb : '#' ∉ body := by
        intro hc
        rcases hbody.mem hc with hc | hc
        · exact c.hash_notMem_text hc
        · exact absurd hc.1 (by decide)
      simp [hlead.notMem.1, hb, htrail.notMem.1]
    have hwords : (lead ++ body ++ trail ++ comment).uncommented.words = c.text.uncommented.words := by
      have htext : c.text.uncommented = c.text := by
        simpa using uncommented_append c.hash_notMem_text .absent
      have hbody' : words body = words c.text := words_of_respaced hbody []
      rw [uncommented_append hhash hk, words_append_gap htrail, words_gap_append hlead, hbody', htext]
    rw [readLine_congr hwords, readLine_text, if_neg (hbytes c rfl)]

/-! ## Reading layouts -/

/-- The end of a line separates a row from what follows it; of its two characters the first stays with the row. -/
theorem lines_row_append {content : Option Command} {row ending : Text} (hrow : Row content row)
    (hend : LineEnd ending) (rest : Text) :
    ∃ row', Row content row' ∧ (row ++ ending ++ rest).lines = row' :: rest.lines := by
  have hcut : ∀ {t : Text}, newline ∉ t → (t ++ newline :: rest).lines = t :: rest.lines := by
    intro t ht
    rw [lines_append_newline, lines_of_notMem ht]
    rfl
  cases hend with
  | lineFeed =>
    refine ⟨row, hrow, ?_⟩
    rw [List.append_assoc]
    exact hcut hrow.newline_notMem
  | both =>
    refine ⟨row ++ ['\r'], hrow.append_return, ?_⟩
    have happend : row ++ ['\r', newline] ++ rest = row ++ ['\r'] ++ newline :: rest := by simp
    rw [happend]
    exact hcut hrow.append_return.newline_notMem

/-- A row and its end hold one line feed. -/
theorem count_row_append {content : Option Command} {row ending : Text} (hrow : Row content row)
    (hend : LineEnd ending) (before : Text) :
    (before ++ row ++ ending).count newline = before.count newline + 1 := by
  have hending : ending.count newline = 1 := by cases hend <;> decide
  rw [List.count_append, List.count_append, List.count_eq_zero_of_not_mem hrow.newline_notMem, hending]

/-- A layout behind a text is read with the numbers that its place gives to its lines. -/
theorem readFrom_layout {before source : Text} {lines : List Line} (h : Layout before lines source)
    (hbytes : ∀ line ∈ lines, ¬line.command.HasEmptyBytes) :
    readFrom (1 + before.count newline) source.lines = .ok lines := by
  have hheld : ∀ {number : Nat} {content : Option Command}, (∀ line ∈ numbered number content,
      ¬line.command.HasEmptyBytes) → ∀ c ∈ content, ¬c.HasEmptyBytes := by
    intro number content hall c hc
    exact hall { number, command := c } (List.mem_map_of_mem (Option.mem_toList.mpr hc))
  induction h with
  | @last before row content hrow =>
    have hread := readLine_row hrow (hheld hbytes)
    rw [lines_of_notMem hrow.newline_notMem, readFrom_cons_ok hread]
    exact congrArg Except.ok (List.append_nil _)
  | @cons before row ending rest content lines hrow hend _ ih =>
    -- The line that is read is not always the row as it was laid out: a carriage return may have come to it.
    obtain ⟨row', hrow', hlines⟩ := lines_row_append hrow hend rest
    have hread := readLine_row hrow' (hheld fun line hl => hbytes line (List.mem_append_left _ hl))
    have hrest := ih fun line hl => hbytes line (List.mem_append_right _ hl)
    rw [count_row_append hrow hend, ← Nat.add_assoc] at hrest
    rw [hlines, readFrom_cons_ok hread, hrest]
    rfl

/-- Every layout of commands without an empty byte string is read as these commands in their order, each numbered by one
more than the line feeds before its line. -/
theorem read_layout (lines : List Line) (source : Text) (h : Layout [] lines source)
    (hbytes : ∀ line ∈ lines, ¬line.command.HasEmptyBytes) : read source = .ok lines :=
  readFrom_layout h hbytes

/-- A comment, an empty line, a command among blanks beyond ASCII, and one at the very end; three lines end in a carriage
return and a line feed. -/
def looseSource : Text :=
  "\t# setup\r\n\n\u00a0push\u2003int\t 7\u3000#7\r\n \u000b\r\npop".toList

theorem read_layout_loose :
    Layout [] [⟨3, .push (.integer 7)⟩, ⟨5, .pop .any⟩] looseSource ∧
      (∀ line ∈ [(⟨3, .push (.integer 7)⟩ : Line), ⟨5, .pop .any⟩], ¬line.command.HasEmptyBytes) ∧
      read looseSource = .ok [⟨3, .push (.integer 7)⟩, ⟨5, .pop .any⟩] := by
  have hgap : ∀ gap ∈ [[], [' ', '\u000b'], ['\t'], ['\t', ' '], ['\u00a0'], ['\u2003'], ['\u3000']], Gap gap := by
    decide
  have hsetup : Row none (['\t'] ++ "# setup".toList) :=
    .idle (hgap ['\t'] (by decide)) (.present (t := " setup".toList) (by decide))
  have hempty : Row none [] :=
    .idle (hgap [] (by decide)) .absent
  have hbody : Respaced (Command.push (.integer 7)).text
      ("push".toList ++ (['\u2003'] ++ ("int".toList ++ (['\t', ' '] ++ "7".toList)))) :=
    (Respaced.refl "push".toList).append (.widen (hgap ['\u2003'] (by decide)) (List.cons_ne_nil _ _)
      ((Respaced.refl "int".toList).append (.widen (hgap ['\t', ' '] (by decide)) (List.cons_ne_nil _ _)
        (Respaced.refl "7".toList))))
  have hpush : Row (some (.push (.integer 7))) (['\u00a0'] ++ _ ++ ['\u3000'] ++ "#7".toList) :=
    .command (hgap ['\u00a0'] (by decide)) hbody (hgap ['\u3000'] (by decide)) (.present (t := ['7']) (by decide))
  have hblank : Row none [' ', '\u000b'] :=
    .idle (hgap [' ', '\u000b'] (by decide)) .absent
  have hpop : Row (some (.pop .any)) "pop".toList :=
    .command (hgap [] (by decide)) (Respaced.refl (Command.pop .any).text) (hgap [] (by decide)) .absent
  have hrows : looseSource = ['\t'] ++ "# setup".toList ++ ['\r', newline] ++ ([] ++ [newline] ++
      (['\u00a0'] ++ ("push".toList ++ (['\u2003'] ++ ("int".toList ++ (['\t', ' '] ++ "7".toList)))) ++ ['\u3000'] ++
        "#7".toList ++ ['\r', newline] ++ ([' ', '\u000b'] ++ ['\r', newline] ++ "pop".toList))) := by decide
  have hlayout : Layout [] [⟨3, .push (.integer 7)⟩, ⟨5, .pop .any⟩] looseSource := by
    rw [hrows]
    exact .cons hsetup .both (.cons hempty .lineFeed (.cons hpush .both (.cons hblank .both (.last hpop))))
  have hbytes : ∀ line ∈ [(⟨3, .push (.integer 7)⟩ : Line), ⟨5, .pop .any⟩], ¬line.command.HasEmptyBytes := by decide
  exact ⟨hlayout, hbytes, read_layout _ _ hlayout hbytes⟩

end Script

end OperandStack
