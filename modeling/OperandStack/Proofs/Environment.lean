import Mathlib.Algebra.Group.Nat.Defs
import Mathlib.Data.List.Forall2
import OperandStack.Proofs.Numerals
import OperandStack.Settings

/-!
# What an environment sets

The settings of an environment are told here from the values of its variables without a reader. A value counts only if
it is the form of a text in UTF-8, and of that text only what is left without the blanks around it (`Text.Strips`).
Journals are switched off by one of three words, whichever of their letters are capitals (`Text.LetterByLetter`). A
limit is set by a spelling of a positive number below 2^64. Any other value leaves its setting as it is by default
(`Settings.ofEnvironment_exact`).
-/

namespace OperandStack

namespace Text

/-! ## Blanks around a text -/

/-- A text that neither begins nor ends with a blank. -/
def Bare (t : Text) : Prop :=
  (∀ c ∈ t.head?, isBlank c = false) ∧ ∀ c ∈ t.getLast?, isBlank c = false

/-- What is left of a text without the blanks around it. -/
def Strips (t core : Text) : Prop :=
  core.Bare ∧ ∃ before after, t = before ++ core ++ after ∧ (∀ c ∈ before, isBlank c = true) ∧
    ∀ c ∈ after, isBlank c = true

theorem dropWhile_of_head? {t : Text} (h : ∀ c ∈ t.head?, isBlank c = false) : t.dropWhile isBlank = t := by
  cases t with
  | nil => rfl
  | cons c t => exact List.dropWhile_cons_of_neg (by simp [h c rfl])

theorem head?_dropWhile {t : Text} {c : Char} (h : c ∈ (t.dropWhile isBlank).head?) : isBlank c = false := by
  have hhead := List.head?_dropWhile_not isBlank t
  rw [Option.mem_def.mp h] at hhead
  exact hhead

/-- Trimming takes off the blanks at the two ends, all of them and nothing else. -/
theorem trim_eq_iff {t core : Text} : t.trim = core ↔ t.Strips core := by
  constructor
  · rintro rfl
    have hfront := List.takeWhile_append_dropWhile (p := isBlank) (l := t)
    have hback := List.takeWhile_append_dropWhile (p := isBlank) (l := (t.dropWhile isBlank).reverse)
    have hsplit : t.dropWhile isBlank =
        t.trim ++ ((t.dropWhile isBlank).reverse.takeWhile isBlank).reverse := by
      rw [trim, ← List.reverse_append, hback, List.reverse_reverse]
    refine ⟨⟨?_, ?_⟩, t.takeWhile isBlank, ((t.dropWhile isBlank).reverse.takeWhile isBlank).reverse, ?_, ?_, ?_⟩
    · intro c hc
      refine head?_dropWhile (t := t) ?_
      rw [hsplit, List.head?_append, Option.mem_def.mp hc]
      rfl
    · intro c hc
      refine head?_dropWhile (t := (t.dropWhile isBlank).reverse) ?_
      rwa [trim, List.getLast?_reverse] at hc
    · rw [List.append_assoc, ← hsplit, hfront]
    · intro c hc
      exact List.mem_takeWhile_imp hc
    · intro c hc
      exact List.mem_takeWhile_imp (List.mem_reverse.mp hc)
  · rintro ⟨⟨hhead, hlast⟩, before, after, rfl, hbefore, hafter⟩
    rw [trim, List.append_assoc, List.dropWhile_append_of_pos hbefore]
    rcases eq_or_ne core [] with rfl | hne
    · rw [List.nil_append, List.dropWhile_eq_nil_iff.mpr hafter]
      rfl
    · have hcore : ∀ c ∈ (core ++ after).head?, isBlank c = false := by
        rwa [List.head?_append_of_ne_nil _ hne]
      have hreverse : ∀ c ∈ core.reverse.head?, isBlank c = false := by
        rwa [List.head?_reverse]
      rw [dropWhile_of_head? hcore, List.reverse_append,
        List.dropWhile_append_of_pos fun c hc => hafter c (List.mem_reverse.mp hc), dropWhile_of_head? hreverse,
        List.reverse_reverse]

/-! ## Letters of either case -/

/-- A text that is a word but for the case of its letters: each character is that of the word or its capital. -/
def LetterByLetter (t word : Text) : Prop :=
  List.Forall₂ (fun c d => c = d ∨ c = d.toUpper) t word

/-- The capitals of ASCII stand 32 places before their letters. -/
theorem toNat_toLower (c : Char) :
    c.toLower.toNat = if 65 ≤ c.toNat ∧ c.toNat ≤ 90 then c.toNat + 32 else c.toNat := by
  unfold Char.toLower
  split <;> rename_i h
  · have hcode : 65 ≤ c.toNat ∧ c.toNat ≤ 90 := h
    have hsum : (c.val + 32).toNat = c.toNat + 32 := by
      rw [UInt32.toNat_add]
      exact Nat.mod_eq_of_lt (by change c.toNat + 32 < _; omega)
    rw [if_pos hcode]
    exact hsum
  · exact (if_neg h).symm

theorem toNat_toUpper (c : Char) :
    c.toUpper.toNat = if 97 ≤ c.toNat ∧ c.toNat ≤ 122 then c.toNat - 32 else c.toNat := by
  unfold Char.toUpper
  split <;> rename_i h
  · have hcode : 97 ≤ c.toNat ∧ c.toNat ≤ 122 := h
    -- the distance is taken off by adding its complement to 2^32
    have hsum : (c.val + 4294967264).toNat = c.toNat - 32 := by
      rw [UInt32.toNat_add]
      change (c.toNat + 4294967264) % 4294967296 = _
      omega
    rw [if_pos hcode]
    exact hsum
  · exact (if_neg h).symm

/-- The characters with a given character for their lower case are that one and its capital. -/
theorem toLower_eq_iff {c d : Char} (hd : d.isUpper = false) : c.toLower = d ↔ c = d ∨ c = d.toUpper := by
  have hrange : ¬(65 ≤ d.toNat ∧ d.toNat ≤ 90) := of_decide_eq_false hd
  rw [← Char.toNat_inj, ← Char.toNat_inj, ← Char.toNat_inj, toNat_toLower, toNat_toUpper]
  split <;> split <;> omega

/-- A text in lower case is a word without capitals exactly when it is that word but for the case of its letters. -/
theorem map_toLower_eq_iff {t word : Text} (h : ∀ d ∈ word, d.isUpper = false) :
    t.map Char.toLower = word ↔ t.LetterByLetter word := by
  induction word generalizing t with
  | nil => simp [LetterByLetter]
  | cons d word ih =>
    have hrest := fun u => ih (t := u) fun e he => h e (List.mem_cons_of_mem d he)
    cases t with
    | nil => simp [LetterByLetter]
    | cons c t =>
      simp only [List.map_cons, List.cons.injEq, toLower_eq_iff (h d List.mem_cons_self), hrest, LetterByLetter,
        List.forall₂_cons]

end Text

namespace Settings

/-! ## Values of the two variables -/

/-- The bytes of a variable are a text in UTF-8 of which a core is left without the blanks around it. -/
def Holds (value : Option ByteArray) (core : Text) : Prop :=
  ∃ t : Text, value = some (String.ofList t).toUTF8 ∧ t.Strips core

/-- A variable holds a spelling of a limit: an optional plus sign and digits for a positive number below 2^64. -/
def SetsLimit (value : Option ByteArray) (limit : Nat) : Prop :=
  ∃ core, Holds value core ∧ Decimal.Unsigned core limit ∧ 1 ≤ limit ∧ limit < 2 ^ 64

/-- A variable is read as the texts its bytes are the form of. -/
theorem read_eq_some_iff {value : Option ByteArray} {t : Text} :
    value.bind Text.ofBytes? = some t ↔ value = some (String.ofList t).toUTF8 := by
  rw [Option.bind_eq_some_iff]
  constructor
  · rintro ⟨bytes, rfl, h⟩
    rw [Text.ofBytes?_eq_some_iff.mp h]
  · rintro rfl
    exact ⟨_, rfl, Text.ofBytes?_eq_some_iff.mpr rfl⟩

theorem holds_iff {value : Option ByteArray} {core : Text} :
    Holds value core ↔ ∃ t, value.bind Text.ofBytes? = some t ∧ t.trim = core := by
  simp only [Holds, read_eq_some_iff, Text.trim_eq_iff]

/-- The words that switch journals off are in lower case. -/
theorem isUpper_of_mem_offWords : ∀ word ∈ offWords, ∀ d ∈ word, d.isUpper = false := by
  have hall : (offWords.all fun word => word.all fun d => d.isUpper == false) = true := by decide
  simpa only [List.all_eq_true, beq_iff_eq] using hall

theorem isOff_iff {value : Text} : isOff value = true ↔ ∃ word ∈ offWords, value.trim.LetterByLetter word := by
  rw [isOff, List.contains_iff_mem]
  constructor
  · intro h
    exact ⟨_, h, (Text.map_toLower_eq_iff (isUpper_of_mem_offWords _ h)).mp rfl⟩
  · rintro ⟨word, hword, h⟩
    rwa [(Text.map_toLower_eq_iff (isUpper_of_mem_offWords word hword)).mpr h]

example : isOff " oFF\n".toList = true := by decide

theorem limit?_eq_some_iff {value : Text} {n : Nat} :
    limit? value = some n ↔ Decimal.Unsigned value.trim n ∧ 1 ≤ n ∧ n < 2 ^ 64 := by
  rw [limit?, Option.filter_eq_some_iff, Option.map_eq_some_iff]
  constructor
  · rintro ⟨⟨i, hi, rfl⟩, hpos⟩
    exact ⟨Decimal.unsigned?_eq_some_iff.mp hi, of_decide_eq_true hpos, i.toNat_lt⟩
  · rintro ⟨h, hpos, hlt⟩
    have hn : (UInt64.ofNat n).toNat = n := UInt64.toNat_ofNat_of_lt' hlt
    exact ⟨⟨UInt64.ofNat n, Decimal.unsigned?_eq_some_iff.mpr (hn.symm ▸ h), hn⟩, decide_eq_true hpos⟩

example : limit? "\t+0064 ".toList = some 64 := by decide

/-- A limit is set by exactly the values that hold a spelling of it. -/
theorem readLimit_eq_some_iff {value : Option ByteArray} {n : Nat} :
    (value.bind Text.ofBytes?).bind limit? = some n ↔ SetsLimit value n := by
  rw [Option.bind_eq_some_iff]
  constructor
  · rintro ⟨t, ht, hn⟩
    exact ⟨t.trim, holds_iff.mpr ⟨t, ht, rfl⟩, limit?_eq_some_iff.mp hn⟩
  · rintro ⟨core, hcore, hn⟩
    obtain ⟨t, ht, rfl⟩ := holds_iff.mp hcore
    exact ⟨t, ht, limit?_eq_some_iff.mpr hn⟩

/-- Journals are off for exactly the values that hold one of the words. -/
theorem readJournal_eq_false_iff {value : Option ByteArray} :
    (!(value.bind Text.ofBytes?).any isOff) = false ↔
      ∃ core, Holds value core ∧ ∃ word ∈ offWords, core.LetterByLetter word := by
  rw [Bool.not_eq_false', Option.any_eq_true]
  constructor
  · rintro ⟨t, ht, h⟩
    exact ⟨t.trim, holds_iff.mpr ⟨t, ht, rfl⟩, isOff_iff.mp h⟩
  · rintro ⟨core, hcore, h⟩
    obtain ⟨t, ht, rfl⟩ := holds_iff.mp hcore
    exact ⟨t, ht, isOff_iff.mpr h⟩

/-! ## The settings of an environment -/

/-- The limit of an environment is the one its variable holds a spelling of, or else the default. -/
theorem limit_eq_iff (e : Environment) (limit : Nat) :
    (ofEnvironment e).limit = limit ↔ SetsLimit e.limit limit ∨ (∀ n, ¬SetsLimit e.limit n) ∧ limit = 2048 := by
  simp only [← readLimit_eq_some_iff, ofEnvironment]
  cases (e.limit.bind Text.ofBytes?).bind limit? with
  | none => simp [defaultLimit, eq_comm]
  | some n => simp

theorem limit_lt (e : Environment) : (ofEnvironment e).limit < 2 ^ 64 := by
  rcases (limit_eq_iff e _).mp rfl with ⟨-, -, -, -, hlt⟩ | ⟨-, hlimit⟩
  · exact hlt
  · rw [hlimit]
    decide

/-- Whatever bytes the two variables hold, or if they are not set, an environment gives settings. Journals are off
exactly when the first variable is a text which without the blanks around it is one of three words in letters of either
case. The limit is the number that the second spells, without the blanks around it, as an optional plus sign and digits,
if that is positive and below 2^64, and 2048 for any other value. Neither setting depends on the other variable. -/
theorem ofEnvironment_exact (e : Environment) :
    ((ofEnvironment e).journal = false ↔
      ∃ core, Holds e.journal core ∧
        ∃ word ∈ ["0".toList, "false".toList, "off".toList], core.LetterByLetter word) ∧
    (∀ limit, (ofEnvironment e).limit = limit ↔
      SetsLimit e.limit limit ∨ (∀ n, ¬SetsLimit e.limit n) ∧ limit = 2048) ∧
    0 < (ofEnvironment e).limit ∧ (ofEnvironment e).limit < 2 ^ 64 ∧
    (∀ value, (ofEnvironment { e with limit := value }).journal = (ofEnvironment e).journal) ∧
    ∀ value, (ofEnvironment { e with journal := value }).limit = (ofEnvironment e).limit :=
  ⟨readJournal_eq_false_iff, limit_eq_iff e, limit_ofEnvironment_pos e, limit_lt e, fun _ => rfl, fun _ => rfl⟩

end Settings

end OperandStack
