import OperandStack.Proofs.Likeness
import OperandStack.Proofs.Readability
import OperandStack.Run.Report

/-!
# The wording of reports

Every writer of a report keeps to letters and digits of ASCII and a few marks of its own (`Text.Over`): commands to the
minus sign and the space, items to the minus sign and brackets, records to the minus sign and the space, the wording of
faults to a comma and a colon besides. So all that they write is printable (`Text.Over.printable`), and a mark that a
writer does not use shows where it has ended (`Text.append_cons_inj`): an arrow or a bracket behind a command, a comma
behind an item. From its line an observation, a fault, a record, the figures of a tally and the lines of a list of items
are told.
-/

namespace OperandStack

namespace Text

/-- A text of letters and digits of ASCII and of some marks. -/
def Over (t marks : Text) : Prop :=
  ∀ c ∈ t, c.isAlphanum = true ∨ c ∈ marks

instance (t marks : Text) : Decidable (t.Over marks) :=
  List.decidableBAll (fun c : Char => c.isAlphanum = true ∨ c ∈ marks) t

/-- A text of the characters of ASCII that are printed, the space among them. -/
def Printable (t : Text) : Prop :=
  ∀ c ∈ t, ' ' ≤ c ∧ c ≤ '~'

instance (t : Text) : Decidable t.Printable :=
  List.decidableBAll (fun c : Char => ' ' ≤ c ∧ c ≤ '~') t

theorem Printable.append {a b : Text} (ha : a.Printable) (hb : b.Printable) : (a ++ b).Printable :=
  List.forall_mem_append.mpr ⟨ha, hb⟩

theorem printable_intercalate {separator : Text} {parts : List Text} (hs : separator.Printable)
    (h : ∀ t ∈ parts, t.Printable) : Printable (List.intercalate separator parts) := by
  intro c hc
  rcases mem_or_mem_of_mem_intercalate hc with hc | ⟨t, ht, hc⟩
  · exact hs c hc
  · exact h t ht c hc

/-- The codes of the letters and digits of ASCII. -/
theorem code_of_isAlphanum {c : Char} (h : c.isAlphanum = true) :
    (65 ≤ c.toNat ∧ c.toNat ≤ 90 ∨ 97 ≤ c.toNat ∧ c.toNat ≤ 122) ∨ 48 ≤ c.toNat ∧ c.toNat ≤ 57 := by
  rcases Bool.or_eq_true_iff.mp h with hletter | hdigit
  · left
    rcases Bool.or_eq_true_iff.mp hletter with hupper | hlower
    · exact .inl (of_decide_eq_true hupper)
    · obtain ⟨hlow, hhigh⟩ := Bool.and_eq_true_iff.mp hlower
      exact .inr ⟨of_decide_eq_true hlow, of_decide_eq_true hhigh⟩
  · obtain ⟨hlow, hhigh⟩ := Bool.and_eq_true_iff.mp hdigit
    exact .inr ⟨of_decide_eq_true hlow, of_decide_eq_true hhigh⟩

/-- A printable text is part of one line. -/
theorem Printable.newline_notMem {t : Text} (h : t.Printable) : newline ∉ t :=
  fun hc => absurd (h newline hc) (by decide)

namespace Over

variable {a b t marks : Text}

theorem append (ha : a.Over marks) (hb : b.Over marks) : (a ++ b).Over marks :=
  List.forall_mem_append.mpr ⟨ha, hb⟩

theorem mono {more : Text} (h : t.Over marks) (hsub : marks ⊆ more) : t.Over more :=
  fun c hc => (h c hc).imp_right fun hm => hsub hm

/-- A character that is no letter or digit and none of the marks does not stand in the text. -/
theorem notMem {c : Char} (h : t.Over marks) (hc : c.isAlphanum = false ∧ c ∉ marks) : c ∉ t := by
  intro hmem
  rcases h c hmem with halpha | hmark
  · rw [hc.1] at halpha
    cases halpha
  · exact hc.2 hmark

theorem printable (h : t.Over marks) (hm : marks.Printable) : t.Printable := by
  intro c hc
  rcases h c hc with halpha | hmark
  · have hcode := code_of_isAlphanum halpha
    change 32 ≤ c.toNat ∧ c.toNat ≤ 126
    omega
  · exact hm c hmark

end Over

/-- What stands before the first of a character that it does not hold, and what stands behind, are told apart. -/
theorem append_cons_inj {c : Char} {a b x y : Text} (ha : c ∉ a) (hb : c ∉ b) (h : a ++ c :: x = b ++ c :: y) :
    a = b ∧ x = y := by
  induction a generalizing b with
  | nil =>
    cases b with
    | nil => exact ⟨rfl, (List.cons.inj h).2⟩
    | cons d b =>
      obtain rfl := (List.cons.inj h).1
      exact absurd List.mem_cons_self hb
  | cons d a ih =>
    cases b with
    | nil =>
      obtain rfl := (List.cons.inj h).1
      exact absurd List.mem_cons_self ha
    | cons e b =>
      obtain ⟨rfl, hrest⟩ := List.cons.inj h
      have ha' : c ∉ a := fun hm => ha (List.mem_cons_of_mem d hm)
      have hb' : c ∉ b := fun hm => hb (List.mem_cons_of_mem d hm)
      obtain ⟨rfl, hxy⟩ := ih ha' hb' hrest
      exact ⟨rfl, hxy⟩

theorem over_ofBool (flag : Bool) (marks : Text) : (ofBool flag).Over marks := by
  have hnone : (ofBool flag).Over [] := by cases flag <;> decide
  exact hnone.mono (List.nil_subset marks)

end Text

/-! ## Numbers -/

theorem Decimal.over_ofNat (n : Nat) (marks : Text) : (Decimal.ofNat n).Over marks :=
  fun c hc => .inl (by rw [Char.isAlphanum, isDigit_of_mem_ofNat hc, Bool.or_true])

theorem Decimal.over_ofInt (n : Int) {marks : Text} (hm : '-' ∈ marks) : (Decimal.ofInt n).Over marks := by
  unfold ofInt
  split
  · exact List.forall_mem_cons.mpr ⟨.inr hm, over_ofNat _ marks⟩
  · exact over_ofNat _ marks

theorem Hex.over_encode (bytes : List UInt8) (marks : Text) : (Hex.encode bytes).Over marks := by
  have hdigit : ∀ k : Fin 16, (Nat.digitChar k).isAlphanum = true := by decide
  intro c hc
  obtain ⟨b, -, hb⟩ := List.mem_flatMap.mp hc
  rcases List.mem_cons.mp hb with rfl | hb
  · exact .inl (hdigit ⟨_, high_lt b⟩)
  · exact .inl (List.mem_singleton.mp hb ▸ hdigit ⟨_, low_lt b⟩)

/-- A number between printable texts. -/
theorem Text.Printable.number {a b : Text} (ha : a.Printable) (n : Nat) (hb : b.Printable) :
    (a ++ Decimal.ofNat n ++ b).Printable :=
  (ha.append ((Decimal.over_ofNat n []).printable (by decide))).append hb

/-! ## Commands -/

/-- The marks in the written form of a command. -/
def Command.marks : Text :=
  "- ".toList

theorem Literal.over_text (l : Literal) : l.text.Over Command.marks := by
  cases l with
  | null => decide
  | boolean flag => exact Text.Over.append (by decide) (Text.over_ofBool flag _)
  | integer number => exact Text.Over.append (by decide) (Decimal.over_ofInt _ (by decide))
  | bytes bs => exact Text.Over.append (by decide) (Hex.over_encode bs _)

theorem View.over_keyword (v : View) : v.keyword.Over Command.marks := by
  cases v with
  | only k => cases k <;> decide
  | _ => decide

theorem Operation.over_word (op : Operation) : op.word.Over Command.marks := by
  cases op <;> decide

theorem Command.over_arguments {c : Command} {t : Text} (h : t ∈ c.arguments) : t.Over Command.marks := by
  have hindex : ∀ index : Int64, (Decimal.ofInt index.toInt).Over Command.marks :=
    fun index => Decimal.over_ofInt _ (by decide)
  cases c with
  | push literal => exact List.mem_singleton.mp h ▸ literal.over_text
  | pushArray size | pushStruct size =>
    rcases List.mem_cons.mp h with rfl | h
    · decide
    · exact List.mem_singleton.mp h ▸ Decimal.over_ofNat _ _
  | pop view =>
    simp only [arguments] at h
    split at h
    · cases h
    · exact List.mem_singleton.mp h ▸ view.over_keyword
  | tryPop view => exact List.mem_singleton.mp h ▸ view.over_keyword
  | peek index | peekQuiet index | reverse index => exact List.mem_singleton.mp h ▸ hindex index
  | insert index literal =>
    rcases List.mem_cons.mp h with rfl | h
    · exact hindex index
    · exact List.mem_singleton.mp h ▸ literal.over_text
  | remove index view =>
    rcases List.mem_cons.mp h with rfl | h
    · exact hindex index
    · exact List.mem_singleton.mp h ▸ view.over_keyword
  | clear => cases h
  | copy count =>
    obtain ⟨n, -, rfl⟩ := List.mem_map.mp h
    exact Decimal.over_ofNat _ _

/-- A command is written in letters, digits, minus signs and spaces. -/
theorem Command.over_text (c : Command) : c.text.Over Command.marks := by
  intro d hd
  rcases Text.mem_intercalate hd with rfl | ⟨t, ht, hd⟩
  · exact .inr (by decide)
  · rcases List.mem_cons.mp ht with rfl | ht
    · exact c.operation.over_word d hd
    · exact over_arguments ht d hd

/-! ## Items, records and faults -/

/-- The marks in the line of an item. -/
def Item.marks : Text :=
  "-()[]\x7b\x7d".toList

theorem Kind.over_name (k : Kind) (marks : Text) : k.name.Over marks := by
  have hnone : k.name.Over [] := by cases k <;> decide
  exact hnone.mono (List.nil_subset marks)

theorem Value.over_payload {α : Type} (v : Value α) : v.payload.Over Item.marks := by
  have hwrap : ∀ {opening body closing : Text}, opening.Over Item.marks → body.Over Item.marks →
      closing.Over Item.marks → (opening ++ body ++ closing).Over Item.marks :=
    fun ho hb hc => (ho.append hb).append hc
  cases v with
  | null => exact List.forall_mem_nil _
  | boolean flag => exact hwrap (by decide) (Text.over_ofBool flag _) (by decide)
  | integer number => exact hwrap (by decide) (Decimal.over_ofInt _ (by decide)) (by decide)
  | byteString bytes | buffer bytes => exact hwrap (by decide) (Hex.over_encode bytes _) (by decide)
  | array | struct | map | pointer => exact hwrap (by decide) (Decimal.over_ofNat _ _) (by decide)

/-- An item is written in letters, digits, minus signs and brackets. -/
theorem Item.over_text (x : Item) : x.text.Over Item.marks :=
  (x.kind.over_name _).append x.value.over_payload

theorem Item.text_ne_nil (x : Item) : x.text ≠ [] := by
  have hname : ∀ k : Kind, k.name ≠ [] := by
    intro k
    cases k <;> decide
  exact List.append_ne_nil_of_left_ne_nil (hname x.kind) _

/-- The marks in the line of a record. -/
def Journal.Record.marks : Text :=
  "- ".toList

theorem Journal.Op.over_title (op : Journal.Op) (marks : Text) : op.title.Over marks := by
  have hnone : op.title.Over [] := by cases op <;> decide
  exact hnone.mono (List.nil_subset marks)

/-- A record is written in letters, digits, minus signs and spaces. -/
theorem Journal.Record.over_text (r : Journal.Record) : r.text.Over Journal.Record.marks := by
  rw [text]
  split
  · exact r.op.over_title _
  · exact ((r.op.over_title _).append (by decide)).append (Decimal.over_ofInt _ (by decide))

/-- The marks in the wording of a fault. -/
def Fault.marks : Text :=
  "- ,:".toList

theorem View.over_name (v : View) : v.name.Over Fault.marks := by
  cases v with
  | only k => exact k.over_name _
  | _ => decide

/-- A fault is worded in letters, digits, minus signs, spaces, commas and colons. -/
theorem Fault.over_message (f : Fault) : f.message.Over Fault.marks := by
  have hparts : ∀ {a b c d : Text}, a.Over marks → b.Over marks → c.Over marks → d.Over marks →
      (a ++ b ++ c ++ d).Over marks :=
    fun ha hb hc hd => ((ha.append hb).append hc).append hd
  cases f with
  | underflow index depth | outOfRange index depth | badReverse index depth =>
    exact hparts (by decide) (Decimal.over_ofInt _ (by decide)) (by decide) (Decimal.over_ofNat _ _)
  | mismatch expected found => exact hparts (by decide) expected.over_name (by decide) (found.over_name _)
  | overLimit references limit =>
    exact hparts (by decide) (Decimal.over_ofNat _ _) (by decide) (Decimal.over_ofNat _ _)

/-! ## Lists -/

namespace Text

/-- The spaces behind the commas of a list may as well be taken for the first characters of its parts. -/
theorem intercalate_comma (t : Text) (rest : List Text) :
    List.intercalate ", ".toList (t :: rest) = List.intercalate [','] (t :: rest.map (' ' :: ·)) := by
  induction rest generalizing t with
  | nil => rw [List.map_nil, List.intercalate_singleton, List.intercalate_singleton]
  | cons u rest ih =>
    rw [List.intercalate_cons_cons, ih, List.map_cons, List.intercalate_cons_cons]
    cases rest with
    | nil => simp
    | cons v rest => simp [List.intercalate_cons_cons]

theorem pieces_intercalate_comma {t : Text} {rest : List Text} (h : ∀ u ∈ t :: rest, ',' ∉ u) :
    pieces (· == ',') (List.intercalate ", ".toList (t :: rest)) = t :: rest.map (' ' :: ·) := by
  have huncut : ∀ u : Text, ',' ∉ u → ∀ c ∈ u, (c == ',') = false := by
    intro u hu c hc
    rw [beq_eq_false_iff_ne]
    rintro rfl
    exact hu hc
  rw [intercalate_comma]
  refine pieces_intercalate ?_ (List.cons_ne_nil _ _) fun u hu => huncut u ?_
  · exact beq_self_eq_true ','
  rcases List.mem_cons.mp hu with rfl | hu
  · exact h u List.mem_cons_self
  · obtain ⟨v, hv, rfl⟩ := List.mem_map.mp hu
    exact List.not_mem_cons_of_ne_of_not_mem (by decide) (h v (List.mem_cons_of_mem t hv))

/-- A list of parts that are not empty and hold no comma is told by its commas. -/
theorem intercalate_comma_inj {ts us : List Text} (ht : ∀ t ∈ ts, t ≠ [] ∧ ',' ∉ t) (hu : ∀ u ∈ us, u ≠ [] ∧ ',' ∉ u)
    (h : List.intercalate ", ".toList ts = List.intercalate ", ".toList us) : ts = us := by
  have hspaces : Function.Injective (List.map (' ' :: · : Text → Text)) :=
    List.map_injective_iff.mpr fun _ _ heq => (List.cons.inj heq).2
  have hpieces := congrArg (pieces (· == ',')) h
  cases ts with
  | nil =>
    cases us with
    | nil => rfl
    | cons u us =>
      rw [pieces_intercalate_comma fun v hv => (hu v hv).2] at hpieces
      exact absurd (List.cons.inj hpieces).1.symm (hu u List.mem_cons_self).1
  | cons t ts =>
    rw [pieces_intercalate_comma fun v hv => (ht v hv).2] at hpieces
    cases us with
    | nil => exact absurd (List.cons.inj hpieces).1 (ht t List.mem_cons_self).1
    | cons u us =>
      rw [pieces_intercalate_comma fun v hv => (hu v hv).2] at hpieces
      obtain ⟨rfl, hrest⟩ := List.cons.inj hpieces
      rw [hspaces hrest]

end Text

/-! ## What is told from a line -/

/-- Two numbers, each before a character that is no digit, are told from what follows. -/
theorem Decimal.ofNat_append_inj {m n : Nat} {c : Char} {r r' : Text} (hc : c.isDigit = false)
    (h : Decimal.ofNat m ++ c :: r = Decimal.ofNat n ++ c :: r') : m = n ∧ r = r' := by
  obtain ⟨hn, hr⟩ := readable_ofNat m n _ _ (Text.noDigit_cons hc r) (Text.noDigit_cons hc r') h
  exact ⟨hn, (List.cons.inj hr).2⟩

theorem Observation.text_eq (o : Observation) :
    o.text = "line ".toList ++ (Decimal.ofNat o.line ++
      ':' :: ' ' :: ((o.command ++ " -".toList) ++ '>' :: ' ' :: o.result)) := by
  unfold text
  simp only [List.append_assoc]
  rfl

theorem Observation.text_inj {o o' : Observation} (ho : o.command.Over Command.marks)
    (ho' : o'.command.Over Command.marks) (h : o.text = o'.text) : o = o' := by
  have hnotMem : ∀ {t : Text}, t.Over Command.marks → '>' ∉ t ++ " -".toList :=
    fun ht => (ht.append (by decide)).notMem (by decide)
  rw [text_eq, text_eq] at h
  obtain ⟨hline, hrest⟩ := Decimal.ofNat_append_inj (by decide) (List.append_cancel_left h)
  obtain ⟨hcommand, hresult⟩ := Text.append_cons_inj (hnotMem ho) (hnotMem ho') (List.cons.inj hrest).2
  obtain ⟨line, command, result⟩ := o
  obtain ⟨line', command', result'⟩ := o'
  rw [Observation.mk.injEq]
  exact ⟨hline, List.append_cancel_right hcommand, (List.cons.inj hresult).2⟩

theorem Stop.text_eq (s : Stop) :
    s.text = "fault at line ".toList ++ (Decimal.ofNat s.line ++
      ' ' :: '(' :: (s.command ++ ')' :: ':' :: ' ' :: s.error)) := by
  unfold text
  simp only [List.append_assoc]
  rfl

theorem Stop.text_inj {s s' : Stop} (hs : s.command.Over Command.marks) (hs' : s'.command.Over Command.marks)
    (h : s.text = s'.text) : s = s' := by
  rw [text_eq, text_eq] at h
  obtain ⟨hline, hrest⟩ := Decimal.ofNat_append_inj (by decide) (List.append_cancel_left h)
  obtain ⟨hcommand, herror⟩ :=
    Text.append_cons_inj (hs.notMem (by decide)) (hs'.notMem (by decide)) (List.cons.inj hrest).2
  obtain ⟨line, command, error⟩ := s
  obtain ⟨line', command', error'⟩ := s'
  rw [Stop.mk.injEq]
  exact ⟨hline, hcommand, (List.cons.inj (List.cons.inj herror).2).2⟩

theorem Report.itemsText_inj {xs ys : List Item} (h : itemsText xs = itemsText ys) :
    xs.map Item.text = ys.map Item.text := by
  have hparts : ∀ zs : List Item, ∀ t ∈ zs.map Item.text, t ≠ [] ∧ ',' ∉ t := by
    intro zs t ht
    obtain ⟨x, -, rfl⟩ := List.mem_map.mp ht
    exact ⟨x.text_ne_nil, x.over_text.notMem (by decide)⟩
  exact Text.intercalate_comma_inj (hparts xs) (hparts ys) (List.append_cancel_left (List.append_cancel_right h))

theorem Report.referencesText_eq (s : Stats) :
    referencesText s = "references: ".toList ++ (Decimal.ofNat s.references ++ ' ' :: ("live, peak ".toList ++
      (Decimal.ofNat s.peak ++ ',' :: ' ' :: (Decimal.ofNat s.adds ++ ' ' :: ("adds, ".toList ++
        (Decimal.ofNat s.removes ++ ' ' :: "removes".toList)))))) := by
  unfold referencesText
  simp only [List.append_assoc]
  rfl

theorem Report.referencesText_inj {s s' : Stats} (h : referencesText s = referencesText s') :
    s.references = s'.references ∧ s.peak = s'.peak ∧ s.adds = s'.adds ∧ s.removes = s'.removes := by
  rw [referencesText_eq, referencesText_eq] at h
  obtain ⟨hreferences, h⟩ := Decimal.ofNat_append_inj (by decide) (List.append_cancel_left h)
  obtain ⟨hpeak, h⟩ := Decimal.ofNat_append_inj (by decide) (List.append_cancel_left h)
  obtain ⟨hadds, h⟩ := Decimal.ofNat_append_inj (by decide) (List.cons.inj h).2
  obtain ⟨hremoves, -⟩ := Decimal.ofNat_append_inj (by decide) (List.append_cancel_left h)
  exact ⟨hreferences, hpeak, hadds, hremoves⟩

namespace Journal

theorem Op.title_injective : Function.Injective Op.title := by
  have hall : ∀ op : Op, op ∈ [none, clear, insert, peek, pop, push, remove, reverse, set] := by
    intro op
    cases op <;> decide
  exact injective_of_nodup_map hall (by decide)

theorem Record.text_injective : Function.Injective Record.text := by
  intro r r' h
  have htitle : ∀ op : Op, ' ' ∉ op.title := fun op => (op.over_title []).notMem (by decide)
  have hmem : ∀ (t u : Text), ' ' ∈ t ++ " ".toList ++ u := fun t u =>
    List.mem_append_left u (List.mem_append_right t List.mem_cons_self)
  obtain ⟨op, index⟩ := r
  obtain ⟨op', index'⟩ := r'
  cases index with
  | none =>
    cases index' with
    | none =>
      have hop : op = op' := Op.title_injective h
      rw [hop]
    | some i =>
      have hop : op.title = op'.title ++ " ".toList ++ Decimal.ofInt i.toInt := h
      exact absurd (hop ▸ hmem op'.title _) (htitle op)
  | some i =>
    cases index' with
    | none =>
      have hop : op.title ++ " ".toList ++ Decimal.ofInt i.toInt = op'.title := h
      exact absurd (hop ▸ hmem op.title _) (htitle op')
    | some i' =>
      have hparts : op.title ++ " ".toList ++ Decimal.ofInt i.toInt =
          op'.title ++ " ".toList ++ Decimal.ofInt i'.toInt := h
      rw [List.append_assoc, List.append_assoc] at hparts
      obtain ⟨hop, hi⟩ := Text.append_cons_inj (htitle op) (htitle op') hparts
      rw [Op.title_injective hop, Int64.toInt_inj.mp (Text.injective_of_readable Decimal.readable_ofInt hi)]

end Journal

end OperandStack
