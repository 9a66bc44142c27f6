import OperandStack.Json
import OperandStack.Proofs.Words

/-!
# Compact documents are read in one way

No compact form is that of two documents (`Json.compact_injective`). A compact form does not say how long it is, so what
is proved of each part is that it can be told from the text that follows it (`Text.Readable`): a number ends where there
are no more digits, a quoted text at its first quote that is not escaped, a list or an object at its own closing
bracket. The first character of a document tells its shape (`Json.Shape.ofLead?`), and that no element begins with a
bracket that closes.
-/

namespace OperandStack

namespace Text

/-- A text that opens with no digit, as what stands behind a number does. -/
def NoDigit (t : Text) : Prop :=
  ∀ c ∈ t.head?, c.isDigit = false

theorem noDigit_cons {c : Char} (h : c.isDigit = false) (t : Text) : NoDigit (c :: t) := by
  intro d hd
  cases hd
  exact h

theorem noDigit_nil : NoDigit [] := by
  intro c hc
  cases hc

/-- What is written for a value, before a text that opens with no digit, is written for no other value, and the text
behind it is told from it. -/
def Readable {α : Type} (write : α → Text) (x : α) : Prop :=
  ∀ (y : α) (r r' : Text), NoDigit r → NoDigit r' → write x ++ r = write y ++ r' → x = y ∧ r = r'

/-- Written forms that can be told from what follows belong to one value each. -/
theorem injective_of_readable {α : Type} {write : α → Text} (h : ∀ x, Readable write x) :
    Function.Injective write := by
  intro x y hxy
  exact (h x y [] [] noDigit_nil noDigit_nil (by rw [hxy])).1

/-! ## Lists -/

/-- What stands behind the first of some parts: the end, or a separator and the other parts. -/
def following (separator : Char) (r : Text) : List Text → Text
  | [] => r
  | t :: rest => separator :: (List.intercalate [separator] (t :: rest) ++ r)

theorem intercalate_cons_append (separator : Char) (t : Text) (rest : List Text) (r : Text) :
    List.intercalate [separator] (t :: rest) ++ r = t ++ following separator r rest := by
  cases rest with
  | nil => rw [List.intercalate_singleton, following]
  | cons u rest =>
    rw [List.intercalate_cons_cons, following, List.append_assoc, List.append_assoc, List.singleton_append]

theorem noDigit_following {separator close : Char} (hs : separator.isDigit = false) (hc : close.isDigit = false)
    (r : Text) (parts : List Text) : NoDigit (following separator (close :: r) parts) := by
  cases parts with
  | nil => exact noDigit_cons hc r
  | cons t rest => exact noDigit_cons hs _

/-- Parts that can be told from what follows are told from each other by the separators between them, and their end by
the closing bracket, with which none of them begins. -/
theorem list_append_inj {α : Type} {write : α → Text} (separator close : Char) (hne : close ≠ separator)
    (hs : separator.isDigit = false) (hc : close.isDigit = false) (hopen : ∀ y r s, write y ++ r ≠ close :: s)
    {xs ys : List α} (hxs : ∀ x ∈ xs, Readable write x) {r r' : Text}
    (h : List.intercalate [separator] (xs.map write) ++ close :: r =
      List.intercalate [separator] (ys.map write) ++ close :: r') : xs = ys ∧ r = r' := by
  induction xs generalizing ys with
  | nil =>
    cases ys with
    | nil => exact ⟨rfl, (List.cons.inj h).2⟩
    | cons y ys =>
      rw [List.map_cons, intercalate_cons_append] at h
      exact absurd h.symm (hopen y _ r)
  | cons x xs ih =>
    cases ys with
    | nil =>
      rw [List.map_cons, intercalate_cons_append] at h
      exact absurd h (hopen x _ r')
    | cons y ys =>
      rw [List.map_cons, List.map_cons, intercalate_cons_append, intercalate_cons_append] at h
      obtain ⟨rfl, hrest⟩ :=
        hxs x List.mem_cons_self y _ _ (noDigit_following hs hc r _) (noDigit_following hs hc r' _) h
      -- Behind an equal first part both lists end, or both go on.
      cases xs with
      | nil =>
        cases ys with
        | nil => exact ⟨rfl, (List.cons.inj hrest).2⟩
        | cons y' ys => exact absurd (List.cons.inj hrest).1 hne
      | cons x' xs =>
        cases ys with
        | nil => exact absurd (List.cons.inj hrest).1.symm hne
        | cons y' ys =>
          have hothers : ∀ z ∈ x' :: xs, Readable write z := fun z hz => hxs z (List.mem_cons_of_mem x hz)
          have hbehind : List.intercalate [separator] ((x' :: xs).map write) ++ close :: r =
              List.intercalate [separator] ((y' :: ys).map write) ++ close :: r' := (List.cons.inj hrest).2
          obtain ⟨htail, hr⟩ := ih hothers hbehind
          exact ⟨congrArg (x :: ·) htail, hr⟩

end Text

/-! ## Numbers -/

namespace Decimal

open Text

theorem ofNat_injective : Function.Injective ofNat := by
  intro m n h
  have hread := digits?_ofNat m
  rw [h, digits?_ofNat] at hread
  exact (Option.some.inj hread).symm

/-- The digits of a number are all the digits that stand there. -/
theorem readable_ofNat (n : Nat) : Readable ofNat n := by
  intro m r r' hr hr' h
  have hdigits : ∀ (k : Nat) {s : Text}, NoDigit s → (ofNat k ++ s).takeWhile Char.isDigit = ofNat k := by
    intro k s hs
    rw [List.takeWhile_append_of_pos fun c hc => isDigit_of_mem_ofNat hc, List.takeWhile_eq_nil_iff.mpr,
      List.append_nil]
    intro hlen
    have hhead := hs s[0] (by rw [List.head?_eq_getElem?, List.getElem?_eq_getElem hlen]; rfl)
    simpa using hhead
  have hn : ofNat n = ofNat m := by rw [← hdigits n hr, h, hdigits m hr']
  rw [hn] at h
  exact ⟨ofNat_injective hn, List.append_cancel_left h⟩

/-- No natural number is written with a minus sign in front. -/
theorem ofNat_append_ne_minus (n : Nat) (r s : Text) : ofNat n ++ r ≠ '-' :: s := by
  cases h : ofNat n with
  | nil => exact absurd h (isWord_ofNat n).2
  | cons c rest =>
    intro he
    have hc : c = '-' := (List.cons.inj he).1
    have hdigit := isDigit_of_mem_ofNat (h ▸ List.mem_cons_self : c ∈ ofNat n)
    rw [hc] at hdigit
    exact absurd hdigit (by decide)

/-- An integer is told from what follows by its sign and its digits. -/
theorem readable_ofInt (z : Int) : Readable ofInt z := by
  intro w r r' hr hr' h
  unfold ofInt at h
  split at h
  · split at h
    · obtain ⟨habs, hrest⟩ := readable_ofNat _ _ _ _ hr hr' (List.cons.inj h).2
      exact ⟨by omega, hrest⟩
    · exact absurd h.symm (ofNat_append_ne_minus _ _ _)
  · split at h
    · exact absurd h (ofNat_append_ne_minus _ _ _)
    · obtain ⟨habs, hrest⟩ := readable_ofNat _ _ _ _ hr hr' h
      exact ⟨by omega, hrest⟩

end Decimal

namespace Json

open Text

/-! ## Quoted texts -/

/-- The characters that are escaped by a letter or by themselves, each behind what stands for it. -/
def escapes : List (Char × Char) :=
  [('"', '"'), ('\\', '\\'), ('n', '\n'), ('r', '\r'), ('t', '\t'), ('b', '\x08'), ('f', '\x0c')]

/-- The first character inside a quoted text and what stands behind it, or nothing at the closing quote. -/
def unescape? : Text → Option (Char × Text)
  | '\\' :: 'u' :: '0' :: '0' :: high :: low :: rest => do
    let h ← Hex.digit? high
    let l ← Hex.digit? low
    some (Char.ofNat (16 * h + l), rest)
  | '\\' :: letter :: rest => (escapes.lookup letter).map (·, rest)
  | c :: rest => if c = '"' then none else some (c, rest)
  | [] => none

/-- Every character is read back. -/
theorem unescape?_escapeChar (c : Char) (r : Text) : unescape? (escapeChar c ++ r) = some (c, r) := by
  by_cases hescaped : c ∈ escapes.map Prod.snd
  · have hall : ∀ d ∈ escapes.map Prod.snd, unescape? (escapeChar d ++ r) = some (d, r) := by
      simp only [escapes, List.map_cons, List.map_nil, List.forall_mem_cons]
      exact ⟨rfl, rfl, rfl, rfl, rfl, rfl, rfl, by simp⟩
    exact hall c hescaped
  · simp only [escapes, List.map_cons, List.map_nil, List.mem_cons, List.not_mem_nil, or_false, not_or] at hescaped
    obtain ⟨hquote, hslash, hn, hr, ht, hb, hf⟩ := hescaped
    rw [escapeChar, if_neg hquote, if_neg hslash, if_neg hn, if_neg hr, if_neg ht, if_neg hb, if_neg hf]
    split
    · have hhigh := (Hex.digitChar_props (k := c.toNat / 16) (by omega)).1
      have hlow := (Hex.digitChar_props (k := c.toNat % 16) (by omega)).1
      change (do
        let h ← Hex.digit? (Nat.digitChar (c.toNat / 16))
        let l ← Hex.digit? (Nat.digitChar (c.toNat % 16))
        some (Char.ofNat (16 * h + l), r)) = _
      rw [hhigh, hlow]
      change some (Char.ofNat (16 * (c.toNat / 16) + c.toNat % 16), r) = _
      rw [Nat.div_add_mod, Char.ofNat_toNat]
    · rw [List.singleton_append, unescape?]
      · exact if_neg hquote
      · intro high low rest h
        exact absurd h hslash
      · intro letter rest h
        exact absurd h hslash

/-- The characters of a text are told from each other and from the quote behind them. -/
theorem escaped_append_inj {t t' r r' : Text}
    (h : t.flatMap escapeChar ++ '"' :: r = t'.flatMap escapeChar ++ '"' :: r') : t = t' ∧ r = r' := by
  have hread := congrArg unescape? h
  induction t generalizing t' with
  | nil =>
    cases t' with
    | nil => exact ⟨rfl, (List.cons.inj h).2⟩
    | cons d t' =>
      rw [List.flatMap_cons, List.append_assoc, unescape?_escapeChar] at hread
      cases hread
  | cons c t ih =>
    rw [List.flatMap_cons, List.append_assoc, unescape?_escapeChar] at hread
    cases t' with
    | nil => cases hread
    | cons d t' =>
      rw [List.flatMap_cons, List.append_assoc, unescape?_escapeChar] at hread
      obtain ⟨rfl, hrest⟩ := Prod.mk.inj (Option.some.inj hread)
      obtain ⟨rfl, hr⟩ := ih hrest (congrArg unescape? hrest)
      exact ⟨rfl, hr⟩

/-- A quoted text ends at the first quote that is not escaped. -/
theorem quote_append_inj {t t' r r' : Text} (h : quote t ++ r = quote t' ++ r') : t = t' ∧ r = r' := by
  simp only [quote, List.append_assoc] at h
  exact escaped_append_inj (List.cons.inj h).2

/-! ## Documents -/

/-- The shapes of documents, which their first characters tell apart. -/
inductive Shape where
  | null
  | bool
  | number
  | text
  | list
  | object
  deriving DecidableEq

/-- The shape of a document. -/
def shape : Json → Shape
  | .null => .null
  | .bool _ => .bool
  | .number _ => .number
  | .text _ => .text
  | .list _ => .list
  | .object _ => .object

/-- The shape that a document has if it opens with a character. -/
def Shape.ofLead? (c : Char) : Option Shape :=
  if c = 'n' then some .null
  else if c = 't' ∨ c = 'f' then some .bool
  else if c = '-' ∨ c.isDigit then some .number
  else if c = '"' then some .text
  else if c = '[' then some .list
  else if c = '\x7b' then some .object
  else none

theorem Shape.ofLead?_of_isDigit {c : Char} (h : c.isDigit = true) : ofLead? c = some .number := by
  have hne : ∀ d : Char, d.isDigit = false → c ≠ d := by
    rintro d hd rfl
    rw [h] at hd
    cases hd
  rw [ofLead?, if_neg (hne 'n' (by decide)), if_neg (not_or.mpr ⟨hne 't' (by decide), hne 'f' (by decide)⟩),
    if_pos (Or.inr h)]

/-- A document opens with a character that tells its shape. -/
theorem exists_lead (j : Json) (r : Text) : ∃ c s, compact j ++ r = c :: s ∧ Shape.ofLead? c = some j.shape := by
  cases j with
  | null => exact ⟨_, _, rfl, rfl⟩
  | bool b => cases b <;> exact ⟨_, _, rfl, rfl⟩
  | number z =>
    have hnat : ∀ n, ∃ c s, Decimal.ofNat n ++ r = c :: s ∧ Shape.ofLead? c = some .number := by
      intro n
      obtain ⟨c, s, hc⟩ := List.exists_cons_of_ne_nil (Decimal.isWord_ofNat n).2
      have hdigit := Decimal.isDigit_of_mem_ofNat (hc ▸ List.mem_cons_self : c ∈ Decimal.ofNat n)
      exact ⟨c, s ++ r, by rw [hc, List.cons_append], Shape.ofLead?_of_isDigit hdigit⟩
    rw [compact, Decimal.ofInt]
    split
    · exact ⟨_, _, rfl, rfl⟩
    · exact hnat _
  | text t => exact ⟨_, _, rfl, rfl⟩
  | list elements => exact ⟨_, _, rfl, rfl⟩
  | object fields => exact ⟨_, _, rfl, rfl⟩

/-- Equal texts that open with documents open with documents of one shape. -/
theorem shape_eq_of_append_eq {j j' : Json} {r r' : Text} (h : compact j ++ r = compact j' ++ r') :
    j.shape = j'.shape := by
  obtain ⟨c, s, hc, hshape⟩ := exists_lead j r
  obtain ⟨c', s', hc', hshape'⟩ := exists_lead j' r'
  rw [h, hc'] at hc
  rw [(List.cons.inj hc).1, hshape] at hshape'
  exact Option.some.inj hshape'

/-- No document opens with a character that tells no shape, such as a closing bracket. -/
theorem compact_append_ne {c : Char} (hc : Shape.ofLead? c = none) (j : Json) (r s : Text) :
    compact j ++ r ≠ c :: s := by
  obtain ⟨d, s', hd, hshape⟩ := exists_lead j r
  intro h
  rw [h] at hd
  rw [← (List.cons.inj hd).1, hc] at hshape
  cases hshape

/-- A field of an object: its quoted name, a colon and its value. -/
def compactField (field : Text × Json) : Text :=
  quote field.1 ++ ":".toList ++ compact field.2

theorem compactElements_eq_map (elements : List Json) : compactElements elements = elements.map compact := by
  induction elements with
  | nil => rfl
  | cons j rest ih => rw [compactElements, ih, List.map_cons]

theorem compactFields_eq_map (fields : List (Text × Json)) : compactFields fields = fields.map compactField := by
  induction fields with
  | nil => rfl
  | cons field rest ih => rw [compactFields, ih, List.map_cons, compactField]

/-- A field is told from what follows if its value is. -/
theorem readable_compactField {field : Text × Json} (h : Readable compact field.2) : Readable compactField field := by
  intro other r r' hr hr' heq
  simp only [compactField, List.append_assoc] at heq
  obtain ⟨hname, hvalue⟩ := quote_append_inj heq
  obtain ⟨hjson, hrest⟩ := h _ r r' hr hr' (List.cons.inj hvalue).2
  exact ⟨Prod.ext hname hjson, hrest⟩

theorem readable_list {elements : List Json} (h : ∀ j ∈ elements, Readable compact j) :
    Readable compact (.list elements) := by
  intro j' r r' hr hr' heq
  have hshape := shape_eq_of_append_eq heq
  cases j' with
  | list elements' =>
    simp only [compact, compactElements_eq_map, List.append_assoc] at heq
    obtain ⟨rfl, hrest⟩ := list_append_inj ',' ']' (by decide) (by decide) (by decide)
      (compact_append_ne (by decide)) h (List.cons.inj heq).2
    exact ⟨rfl, hrest⟩
  | _ => cases hshape

theorem readable_object {fields : List (Text × Json)} (h : ∀ field ∈ fields, Readable compact field.2) :
    Readable compact (.object fields) := by
  intro j' r r' hr hr' heq
  have hshape := shape_eq_of_append_eq heq
  have hopen : ∀ (field : Text × Json) (r s : Text), compactField field ++ r ≠ '\x7d' :: s := by
    intro field r s hfield
    exact absurd (List.cons.inj hfield).1 (by decide)
  cases j' with
  | object fields' =>
    simp only [compact, compactFields_eq_map, List.append_assoc] at heq
    obtain ⟨rfl, hrest⟩ := list_append_inj ',' '\x7d' (by decide) (by decide) (by decide)
      hopen (fun field hf => readable_compactField (h field hf)) (List.cons.inj heq).2
    exact ⟨rfl, hrest⟩
  | _ => cases hshape

mutual

/-- A document is told from what follows it. -/
theorem readable_compact : ∀ j : Json, Readable compact j
  | .null => by
    intro j' r r' _ _ h
    have hshape := shape_eq_of_append_eq h
    cases j' with
    | null => exact ⟨rfl, List.append_cancel_left h⟩
    | _ => cases hshape
  | .bool b => by
    intro j' r r' _ _ h
    have hshape := shape_eq_of_append_eq h
    cases j' with
    | bool b' =>
      cases b <;> cases b'
      · exact ⟨rfl, List.append_cancel_left h⟩
      · cases h
      · cases h
      · exact ⟨rfl, List.append_cancel_left h⟩
    | _ => cases hshape
  | .number z => by
    intro j' r r' hr hr' h
    have hshape := shape_eq_of_append_eq h
    cases j' with
    | number z' =>
      obtain ⟨rfl, hrest⟩ := Decimal.readable_ofInt z z' r r' hr hr' h
      exact ⟨rfl, hrest⟩
    | _ => cases hshape
  | .text t => by
    intro j' r r' _ _ h
    have hshape := shape_eq_of_append_eq h
    cases j' with
    | text t' =>
      obtain ⟨rfl, hrest⟩ := quote_append_inj h
      exact ⟨rfl, hrest⟩
    | _ => cases hshape
  | .list elements => readable_list (readable_elements elements)
  | .object fields => readable_object (readable_fields fields)

theorem readable_elements : ∀ elements : List Json, ∀ j ∈ elements, Readable compact j
  | [] => fun _ h => nomatch h
  | j :: rest => List.forall_mem_cons.mpr ⟨readable_compact j, readable_elements rest⟩

theorem readable_fields : ∀ fields : List (Text × Json), ∀ field ∈ fields, Readable compact field.2
  | [] => fun _ h => nomatch h
  | (_, j) :: rest => List.forall_mem_cons.mpr ⟨readable_compact j, readable_fields rest⟩

end

/-- No text is the compact form of two documents. -/
theorem compact_injective : Function.Injective compact :=
  injective_of_readable readable_compact

end Json

end OperandStack
