import OperandStack.Proofs.Seam
import OperandStack.Proofs.Words

/-!
# The wording of refusals

A refused script is answered in one line, although the refusal echoes words of the script as they stand. What is echoed
are words of the refused line (`Command.echoed_of_read`), and blanks cut words, whichever characters they are; all else
in a refusal is of the library's own wording, in which the only blank is the space (`Script.plain_message`).
-/

namespace OperandStack

namespace Text

/-- A text in which every blank is a space. -/
def Plain (t : Text) : Prop :=
  ∀ c ∈ t, isBlank c = true → c = ' '

instance (t : Text) : Decidable t.Plain :=
  List.decidableBAll (fun c => isBlank c = true → c = ' ') t

theorem Plain.append {a b : Text} (ha : a.Plain) (hb : b.Plain) : (a ++ b).Plain := by
  intro c hc
  rcases List.mem_append.mp hc with h | h
  · exact ha c h
  · exact hb c h

theorem plain_of_solid {t : Text} (h : t.Solid) : t.Plain := by
  intro c hc hblank
  rw [(h c hc).1] at hblank
  cases hblank

theorem plain_intercalate {parts : List Text} (h : ∀ t ∈ parts, t.Plain) :
    Plain (List.intercalate " ".toList parts) := by
  intro c hc hblank
  rcases mem_intercalate hc with rfl | ⟨t, ht, hc⟩
  · rfl
  · exact h t ht c hc hblank

/-- The line feed is a blank, so a plain text is part of one line. -/
theorem Plain.newline_notMem {t : Text} (h : t.Plain) : newline ∉ t := by
  intro hc
  have hspace := h newline hc (by decide)
  cases hspace

/-- Words hold no blanks at all. -/
theorem plain_of_mem_words {t w : Text} (h : w ∈ t.words) : w.Plain := by
  intro c hc hblank
  rw [cut_eq_false_of_mem_pieces (List.mem_filter.mp h).1 c hc] at hblank
  cases hblank

end Text

/-! ## The wording of errors -/

theorem Quoted.plain_ofByte (b : UInt8) : (Quoted.ofByte b).Plain := by
  have hbody : ∀ code : Fin 256, Text.Plain (Quoted.body code) := by decide +kernel
  have hquote : Text.Plain "'".toList := by decide
  exact (hquote.append (hbody ⟨b.toNat, b.toNat_lt⟩)).append hquote

theorem Decimal.plain_ofNat (n : Nat) : (Decimal.ofNat n).Plain :=
  Text.plain_of_solid (isWord_ofNat n).1

theorem Hex.Flaw.plain_message (flaw : Hex.Flaw) : flaw.message.Plain := by
  cases flaw with
  | oddLength => decide
  | badCharacter lead position =>
    have hlead : Text.Plain "Invalid character ".toList := by decide
    have hmiddle : Text.Plain " at position ".toList := by decide
    exact ((hlead.append (Quoted.plain_ofByte lead)).append hmiddle).append (Decimal.plain_ofNat position)

namespace CommandError

/-- The words that an error echoes as they stand. -/
def echoed : CommandError → List Text
  | noWords | wrongArguments _ => []
  | unknownOperation word | unknownType word | badIndex word | badCount word | badBoolean word | badInteger word
  | badHex word _ => [word]
  | notLiteral words => words

theorem plain_quoted {t : Text} (h : t.Plain) : (quoted t).Plain := by
  have hquote : Text.Plain "'".toList := by decide
  exact (hquote.append h).append hquote

/-- An error has no blanks but spaces and those of the words that it echoes. -/
theorem plain_message {e : CommandError} (h : ∀ w ∈ e.echoed, w.Plain) : e.message.Plain := by
  cases e with
  | noWords => decide
  | wrongArguments op => cases op <;> decide
  | unknownOperation word | unknownType word | badIndex word | badCount word | badBoolean word | badInteger word =>
    refine Text.Plain.append ?_ (plain_quoted (h word List.mem_cons_self))
    decide
  | badHex word flaw =>
    have hlead : Text.Plain "invalid hex ".toList := by decide
    have hmiddle : Text.Plain ": ".toList := by decide
    exact ((hlead.append (plain_quoted (h word List.mem_cons_self))).append hmiddle).append flaw.plain_message
  | notLiteral words =>
    refine Text.Plain.append ?_ (plain_quoted (Text.plain_intercalate h))
    decide

end CommandError

/-! ## What is echoed -/

/-- A reading of words whose error, if there is one, echoes no other words. -/
def Echoes {α : Type} (words : List Text) (result : Except CommandError α) : Prop :=
  ∀ cause, result = .error cause → ∀ w ∈ cause.echoed, w ∈ words

namespace Echoes

variable {α β : Type} {words : List Text} {result : Except CommandError α}

theorem ok (words : List Text) (a : α) : Echoes words (.ok a : Except CommandError α) := by
  intro cause h
  cases h

theorem mono {more : List Text} (h : Echoes words result) (hsub : words ⊆ more) : Echoes more result :=
  fun cause hcause w hw => hsub (h cause hcause w hw)

theorem map (f : α → β) (h : Echoes words result) : Echoes words (f <$> result) := by
  intro cause hcause
  cases result with
  | ok a => cases hcause
  | error e =>
    cases hcause
    exact h cause rfl

theorem bind {next : α → Except CommandError β} (h : Echoes words result) (hnext : ∀ a, Echoes words (next a)) :
    Echoes words (result >>= next) := by
  intro cause hcause
  cases result with
  | ok a => exact hnext a cause hcause
  | error e =>
    cases hcause
    exact h cause rfl

end Echoes

namespace Command

theorem echoes_readIndex (w : Text) : Echoes [w] (readIndex w) := by
  intro cause h
  unfold readIndex at h
  split at h <;> cases h
  exact fun _ hw => hw

theorem echoes_readCount (w : Text) : Echoes [w] (readCount w) := by
  intro cause h
  unfold readCount at h
  split at h <;> cases h
  exact fun _ hw => hw

theorem echoes_readView (w : Text) : Echoes [w] (readView w) := by
  intro cause h
  unfold readView at h
  split at h <;> cases h
  exact fun _ hw => hw

end Command

namespace Literal

theorem echoes_readBoolean (w : Text) : Echoes [w] (readBoolean w) := by
  intro cause h
  unfold readBoolean at h
  split at h
  · cases h
  · split at h <;> cases h
    exact fun _ hw => hw

theorem echoes_readInteger (w : Text) : Echoes [w] (readInteger w) := by
  intro cause h
  unfold readInteger at h
  split at h <;> cases h
  exact fun _ hw => hw

theorem echoes_readBytes (w : Text) : Echoes [w] (readBytes w) := by
  intro cause h
  unfold readBytes at h
  split at h <;> cases h
  exact fun _ hw => hw

/-- What is no literal is echoed as a whole. -/
theorem echoes_notLiteral (words : List Text) :
    Echoes words (.error (.notLiteral words) : Except CommandError Literal) := by
  intro cause h
  cases h
  exact fun _ hw => hw

theorem echoes_read (words : List Text) : Echoes words (read words) := by
  unfold read
  split
  · split
    · exact Echoes.ok _ _
    · exact echoes_notLiteral _
  · rename_i keyword w
    have hlast : [w] ⊆ [keyword, w] := List.subset_cons_self _ _
    split
    · exact (echoes_readBoolean w).mono hlast
    · split
      · exact (echoes_readInteger w).mono hlast
      · split
        · exact (echoes_readBytes w).mono hlast
        · exact echoes_notLiteral _
  · exact echoes_notLiteral _

end Literal

namespace Command

theorem echoes_readPush (args : List Text) : Echoes args (readPush args) := by
  unfold readPush
  split
  · rename_i keyword w
    have hlast : [w] ⊆ [keyword, w] := List.subset_cons_self _ _
    split
    · exact ((echoes_readCount w).mono hlast).map _
    · split
      · exact ((echoes_readCount w).mono hlast).map _
      · exact (Literal.echoes_read _).map _
  · exact (Literal.echoes_read _).map _

theorem echoes_readArguments (op : Operation) (args : List Text) : Echoes args (readArguments op args) := by
  unfold readArguments
  split
  · exact echoes_readPush _
  · exact Echoes.ok _ _
  · exact (echoes_readView _).map _
  · exact Echoes.ok _ _
  · exact (echoes_readView _).map _
  · exact (echoes_readIndex _).map _
  · exact (echoes_readIndex _).map _
  · rename_i i literal
    have hfirst : [i] ⊆ i :: literal := List.cons_subset_cons i (List.nil_subset literal)
    refine ((echoes_readIndex i).mono hfirst).bind fun index => ?_
    exact ((Literal.echoes_read literal).mono (List.subset_cons_self _ _)).bind fun _ => Echoes.ok _ _
  · exact (echoes_readIndex _).bind fun _ => Echoes.ok _ _
  · rename_i i w
    have hfirst : [i] ⊆ [i, w] := List.cons_subset_cons i (List.nil_subset [w])
    refine ((echoes_readIndex i).mono hfirst).bind fun index => ?_
    exact ((echoes_readView w).mono (List.subset_cons_self _ _)).bind fun _ => Echoes.ok _ _
  · exact (echoes_readIndex _).map _
  · exact Echoes.ok _ _
  · exact Echoes.ok _ _
  · exact (echoes_readCount _).bind fun _ => Echoes.ok _ _
  · intro cause h
    cases h
    exact fun _ hw => absurd hw List.not_mem_nil

/-- What a refusal echoes are words that were read. -/
theorem echoed_of_read {words : List Text} {cause : CommandError} (h : read words = .error cause) :
    ∀ w ∈ cause.echoed, w ∈ words := by
  unfold read at h
  split at h
  · cases h
    exact fun _ hw => absurd hw List.not_mem_nil
  · rename_i w args
    split at h
    · rename_i op _
      exact (echoes_readArguments op args).mono (List.subset_cons_self _ _) cause h
    · cases h
      intro w' hw
      cases List.mem_singleton.mp hw
      exact List.mem_cons_self

end Command

namespace Script

/-- The refusal of a script is plain, whatever the script. -/
theorem plain_message {source : Text} {e : ScriptError} (h : read source = .error e) : e.message.Plain := by
  obtain ⟨before, t, after, -, -, ⟨-, hrefused⟩, -⟩ := readFrom_eq_error_iff.mp h
  have hline : Text.Plain "line ".toList := by decide
  have hcolon : Text.Plain ": ".toList := by decide
  have hcause : e.cause.message.Plain := CommandError.plain_message fun w hw =>
    Text.plain_of_mem_words (Command.echoed_of_read hrefused w hw)
  exact ((hline.append (Decimal.plain_ofNat e.line)).append hcolon).append hcause

end Script

end OperandStack
