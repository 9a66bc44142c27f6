import OperandStack.Proofs.Ceiling
import OperandStack.Proofs.Grammar
import OperandStack.Proofs.Likeness
import OperandStack.Proofs.Seam
import OperandStack.Proofs.Written

/-!
# Literals survive a run

A line that pushes a literal and a line that pops any item make a script with one observation, the name of the kind of
the literal and, but for `null`, its payload in parentheses. The payload behind the keyword of the kind is a spelling of
the literal again, with the marker `0x` even where there are no bytes. So an observation tells which literal was pushed
(`Literal.shown_injective`), and nothing of how it was spelled.
-/

namespace OperandStack

/-- A text in parentheses, if there is one. -/
def Text.parenthesised : Option Text → Text
  | none => []
  | some t => "(".toList ++ t ++ ")".toList

/-- The line that pushes a word, if there is one, behind a keyword. -/
def Script.pushLine (keyword : Text) (word : Option Text) : Text :=
  List.intercalate " ".toList ("push".toList :: keyword :: word.toList)

/-- What a script lets a run under settings observe, if it is read. -/
def Script.observed (s : Settings) (source : Text) : Except ScriptError (List Observation) :=
  (fun lines => (runLines s lines).report.observations) <$> read source

theorem Text.parenthesised_injective : Function.Injective parenthesised := by
  intro v w h
  cases v with
  | none =>
    cases w with
    | none => rfl
    | some w => simp [parenthesised] at h
  | some v =>
    cases w with
    | none => simp [parenthesised] at h
    | some w => exact congrArg some (List.append_cancel_left (List.append_cancel_right h))

/-- No name of a kind has a parenthesis in it, so it ends where the parentheses begin. -/
theorem Kind.name_append_inj {k k' : Kind} {v w : Option Text}
    (h : k.name ++ Text.parenthesised v = k'.name ++ Text.parenthesised w) : k = k' ∧ v = w := by
  have hname : ∀ (k : Kind) (w : Option Text), (k.name ++ Text.parenthesised w).takeWhile (· != '(') = k.name := by
    intro k w
    have hk : k.name.all (· != '(') = true := by cases k <;> rfl
    rw [List.takeWhile_append_of_pos (List.all_eq_true.mp hk)]
    cases w with
    | none => exact List.append_nil _
    | some w => exact List.append_nil _
  have hkind : k.name = k'.name := by rw [← hname k v, h, hname k' w]
  rw [hkind] at h
  exact ⟨name_injective hkind, Text.parenthesised_injective (List.append_cancel_left h)⟩

namespace Literal

open Text

/-- The keyword that a push gives for the kind of a literal. -/
def keyword : Literal → Text
  | null => "null".toList
  | boolean _ => "bool".toList
  | integer _ => "int".toList
  | bytes _ => "bytes".toList

/-- What a literal shows in parentheses after the name of its kind. -/
def payload? : Literal → Option Text
  | null => none
  | boolean flag => some (ofBool flag)
  | integer number => some (Decimal.ofInt number.toInt)
  | bytes bs => some ("0x".toList ++ Hex.encode bs)

/-- The name of the kind of a literal and its payload. -/
def shown (l : Literal) : Text :=
  l.value.kind.name ++ parenthesised l.payload?

/-- A line whose words are a push of a spelling of a literal. -/
def PushedBy (l : Literal) (t : Text) : Prop :=
  newline ∉ t ∧ ∃ ws, t.uncommented.words = "push".toList :: ws ∧ l.Spelled ws

/-! ## Lines that push -/

/-- The lines that push a literal are those that are read as its push. -/
theorem pushedBy_iff {l : Literal} {t : Text} :
    l.PushedBy t ↔ newline ∉ t ∧ Script.readLine t = .ok (some (.push l)) := by
  refine and_congr_right fun _ => ?_
  constructor
  · rintro ⟨ws, hws, hl⟩
    rw [Script.readLine, hws]
    exact map_eq_ok_iff.mpr ⟨_, Command.read_of_spelled (.push hl), rfl⟩
  · intro h
    unfold Script.readLine at h
    split at h
    · cases h
    · obtain ⟨c, hc, heq⟩ := map_eq_ok_iff.mp h
      cases heq
      have hspelled := Command.spelled_of_read hc
      generalize t.uncommented.words = words at hspelled
      cases hspelled with
      | push hl => exact ⟨_, rfl, hl⟩

/-! ## Payloads -/

/-- The value of a literal shows its payload. -/
theorem text_value (l : Literal) : l.value.text = l.shown := by
  cases l <;> rfl

theorem payload?_eq_none_iff {l : Literal} : l.payload? = none ↔ l = .null := by
  cases l <;> simp [payload?]

/-- A payload behind its keyword spells the literal. -/
theorem spelled_payload (l : Literal) : l.Spelled (l.keyword :: l.payload?.toList) := by
  cases l with
  | null => exact .null
  | boolean flag =>
    cases flag with
    | true => exact .true
    | false => exact .false
  | integer number => exact .integer (Decimal.signed?_eq_some_iff.mp (Decimal.signed?_ofInt number))
  | bytes bs => exact .bytes (.marker (Hex.decode_eq_ok_iff.mp (Hex.decode_encode bs)))

/-- The keyword of a literal is that of the view of its kind. -/
theorem keyword_eq (l : Literal) : l.keyword = (View.only l.value.kind).keyword := by
  cases l <;> rfl

theorem isWord_of_mem_payload {l : Literal} {w : Text} (h : w ∈ l.payload?) : w.IsWord := by
  cases l with
  | null => cases h
  | boolean flag =>
    cases h
    cases flag <;> decide
  | integer number =>
    cases h
    exact Decimal.isWord_ofInt _
  | bytes bs =>
    cases h
    refine ⟨fun c hc => ?_, List.cons_ne_nil _ _⟩
    rcases List.mem_append.mp hc with hc | hc
    · have hmarker : Solid "0x".toList := by decide
      exact hmarker c hc
    · exact Hex.solid_encode bs c hc

/-- The payload is pushed again as it was shown. -/
theorem pushedBy_pushLine (l : Literal) : l.PushedBy (Script.pushLine l.keyword l.payload?) := by
  have hwords : ∀ w ∈ "push".toList :: l.keyword :: l.payload?.toList, IsWord w := by
    intro w hw
    rcases List.mem_cons.mp hw with rfl | hw
    · decide
    · rcases List.mem_cons.mp hw with rfl | hw
      · rw [keyword_eq]
        exact View.isWord_keyword _
      · exact isWord_of_mem_payload (Option.mem_toList.mp hw)
  have hsolid := fun w hw => (hwords w hw).1
  refine ⟨newline_notMem_intercalate hsolid, l.keyword :: l.payload?.toList, ?_, l.spelled_payload⟩
  rw [Script.pushLine, uncommented_intercalate hsolid, words_intercalate hsolid, List.filter_eq_self]
  intro w hw
  simpa using (hwords w hw).2

/-- Literals that show the same are pushed again by the same line, so they are the same. -/
theorem shown_injective : Function.Injective shown := by
  intro l l' h
  obtain ⟨hkind, hpayload⟩ := Kind.name_append_inj h
  have hline : Script.pushLine l.keyword l.payload? = Script.pushLine l'.keyword l'.payload? := by
    rw [keyword_eq, keyword_eq, hkind, hpayload]
  have hread := (pushedBy_iff.mp l.pushedBy_pushLine).2
  rw [hline, (pushedBy_iff.mp l'.pushedBy_pushLine).2] at hread
  cases hread
  rfl

end Literal

/-! ## Scripts that push and pop -/

namespace Script

open Text

/-- A line that holds a command and a script behind it are read one after the other. -/
theorem read_cons {t p : Text} {c : Command} {lines : List Line} (ht : newline ∉ t)
    (hc : readLine t = .ok (some c)) (hp : read p = .ok lines) :
    read (t ++ newline :: p) = .ok (⟨1, c⟩ :: lines.map (Line.later 1)) := by
  rw [read] at hp
  rw [read, lines_append_newline, lines_of_notMem ht, List.singleton_append, readFrom_cons_ok hc, readFrom_add, hp]
  rfl

end Script

namespace Machine

/-- A push of a literal passes where one reference more is allowed. -/
theorem step_push (m : Machine) (supply : Nat → Nat) {line : Line} {l : Literal} (hline : line.command = .push l)
    (hroom : m.tally.references < m.tally.limit) :
    ∃ after, m.step supply line = (.ok (), after) ∧ m.Grown after 0 ⟨supply m.created, l.value⟩ := by
  have hgrows : line.command.Grows m.main.depth 0 l.value := hline ▸ .push l
  obtain ⟨after, he, hgrown⟩ := announced_of_grows hgrows supply
  obtain ⟨hreferences, -, hlimit⟩ := hgrown.figures
  have hs := step_of_ok he
  rw [if_neg (by omega)] at hs
  exact ⟨after, hs, hgrown⟩

/-- A pop of any item passes where the references are allowed, and shows the item on top. -/
theorem step_popAny (m : Machine) (supply : Nat → Nat) {line : Line} (hline : line.command = .pop .any) {x : Item}
    {rest : List Item} (htop : m.main.fromTop = x :: rest) (hroom : m.tally.references ≤ m.tally.limit) :
    ∃ after, m.step supply line = (.ok (), after) ∧
      after.observations = m.observations ++ [⟨line.number, "pop".toList, x.text⟩] := by
  have hmap : m.main.slots.reverse.map Slot.item = x :: rest := List.map_reverse.trans htop
  obtain ⟨top, below, hreverse, rfl, -⟩ := List.map_eq_cons_iff.mp hmap
  have hslots : m.main.slots = below.reverse ++ [top] := List.reverse_eq_cons_iff.mp hreverse
  have hreply : ((m.announced line).call (.popAs .any)).1 = .item top.item := (call_pop hslots).1
  have he : (m.announced line).execute supply line =
      (.ok (), ((m.announced line).call (.popAs .any)).2.note line top.item.text) := by
    rw [execute, hline]
    change (m.announced line).observe line (.popAs .any) = _
    rw [observe_eq, hreply]
    rfl
  have hfalls : m.tally.Falls ((m.announced line).call (.popAs .any)).2.tally := falls_call (m.announced line) rfl
  have hwithin : ¬((m.announced line).call (.popAs .any)).2.tally.limit <
      ((m.announced line).call (.popAs .any)).2.tally.references := by
    have hreferences := hfalls.references_le
    have hlimit := hfalls.limit
    omega
  refine ⟨_, (step_of_ok he).trans (if_neg hwithin), ?_⟩
  change m.observations ++ [⟨line.number, line.command.text, top.item.text⟩] = _
  rw [hline]
  rfl

end Machine

/-- A literal that is pushed and popped is shown once, where the ceiling allows it. -/
theorem observations_push_pop {s : Settings} (hs : 0 < s.limit) {push pop : Line} {l : Literal}
    (hpush : push.command = .push l) (hpop : pop.command = .pop .any) :
    (runLines s [push, pop]).report.observations =
      [{ line := pop.number, command := "pop".toList, result := l.shown }] := by
  obtain ⟨pushed, hfirst, hgrown⟩ := (Machine.start s).step_push id hpush hs
  obtain ⟨hreferences, -, hlimit⟩ := hgrown.figures
  have hwithin : pushed.tally.references ≤ pushed.tally.limit := by
    rw [hreferences, hlimit]
    exact hs
  obtain ⟨popped, hsecond, hobservations⟩ := pushed.step_popAny id hpop hgrown.stack hwithin
  have hrun : (runLines s [push, pop]).machine = popped := by
    rw [runLines, Machine.run_cons_ok _ hfirst, Machine.run_cons_ok _ hsecond]
    rfl
  change (runLines s [push, pop]).machine.observations = _
  rw [hrun, hobservations, hgrown.observations, Item.text, Literal.text_value]
  rfl

namespace Literal

open Text

/-- Whatever way a literal is spelled, it is shown as the name of its kind and its payload. -/
theorem PushedBy.observed {l : Literal} {t p : Text} {k : Nat} (ht : l.PushedBy t) {s : Settings} (hs : 0 < s.limit)
    (hp : Script.read p = .ok [⟨k, .pop .any⟩]) :
    Script.observed s (t ++ newline :: p) = .ok [{ line := 1 + k, command := "pop".toList, result := l.shown }] := by
  obtain ⟨hnewline, hread⟩ := pushedBy_iff.mp ht
  rw [Script.observed, Script.read_cons hnewline hread hp]
  exact congrArg Except.ok (observations_push_pop hs rfl rfl)

/-- The lines that spell a push of a literal are those that are read as its push. Where a reference is allowed, such a
line and a pop of any item show the name of the kind of the literal and, but for `null`, a payload in parentheses, which
the keyword of the literal pushes again. Two such lines show the same exactly when they push the same literal. -/
theorem shown_payload_pushes_again (s : Settings) (hs : 0 < s.limit) (p : Text) (k : Nat)
    (hp : Script.read p = .ok [⟨k, .pop .any⟩]) :
    (∀ (l : Literal) (t : Text), l.PushedBy t ↔ newline ∉ t ∧ Script.readLine t = .ok (some (.push l))) ∧
    (∀ (l : Literal) (t : Text), l.PushedBy t →
      Script.observed s (t ++ newline :: p) =
        .ok [{ line := 1 + k, command := "pop".toList, result := l.value.kind.name ++ parenthesised l.payload? }] ∧
      (l.payload? = none ↔ l = .null) ∧
      Script.readLine (Script.pushLine l.keyword l.payload?) = .ok (some (.push l))) ∧
    ∀ (l l' : Literal) (t t' : Text), l.PushedBy t → l'.PushedBy t' →
      (Script.observed s (t ++ newline :: p) = Script.observed s (t' ++ newline :: p) ↔ l = l') := by
  refine ⟨fun _ _ => pushedBy_iff, ?_, ?_⟩
  · intro l t ht
    exact ⟨ht.observed hs hp, payload?_eq_none_iff, (pushedBy_iff.mp l.pushedBy_pushLine).2⟩
  · intro l l' t t' ht ht'
    rw [ht.observed hs hp, ht'.observed hs hp]
    constructor
    · intro h
      have hshown := congrArg Observation.result (List.cons.inj (Except.ok.inj h)).1
      exact shown_injective hshown
    · rintro rfl
      rfl

/-- A byte with a marker, digits of both cases and a comment, and the same byte without any of them. -/
theorem shown_payload_pushes_again_marked :
    0 < (Settings.ofEnvironment {}).limit ∧ Script.read "pop any\n".toList = .ok [⟨1, .pop .any⟩] ∧
      PushedBy (.bytes [0xAB]) "push bytes\t0xaB #".toList ∧ PushedBy (.bytes [0xAB]) "push bytes ab".toList ∧
      Script.observed (.ofEnvironment {}) ("push bytes\t0xaB #".toList ++ newline :: "pop any\n".toList) =
        .ok [{ line := 2, command := "pop".toList, result := "ByteString(0xab)".toList }] ∧
      Script.readLine "push bytes 0xab".toList = .ok (some (.push (.bytes [0xAB]))) ∧
      Script.observed (.ofEnvironment {}) ("push bytes\t0xaB #".toList ++ newline :: "pop any\n".toList) =
        Script.observed (.ofEnvironment {}) ("push bytes ab".toList ++ newline :: "pop any\n".toList) := by
  have hs := Settings.limit_ofEnvironment_pos {}
  have hp : Script.read "pop any\n".toList = .ok [⟨1, .pop .any⟩] := rfl
  obtain ⟨hiff, hshown, hsame⟩ := shown_payload_pushes_again (.ofEnvironment {}) hs _ 1 hp
  have hmarked : PushedBy (.bytes [0xAB]) "push bytes\t0xaB #".toList := (hiff _ _).mpr ⟨by decide, rfl⟩
  have hplain : PushedBy (.bytes [0xAB]) "push bytes ab".toList := (hiff _ _).mpr ⟨by decide, rfl⟩
  obtain ⟨hobserved, -, hagain⟩ := hshown _ _ hmarked
  exact ⟨hs, hp, hmarked, hplain, hobserved, hagain, (hsame _ _ _ _ hmarked hplain).mpr rfl⟩

end Literal

end OperandStack
