import OperandStack.Proofs.Effect
import OperandStack.Run.Report

/-!
# What a line does

Whatever a line does to the stacks and the tally of a machine it does by calls on the main stack and by copies
(`Machine.Moves`), so what every call and every copy keeps is kept by lines and by runs (`Machine.run_moves`). Other
things are lifted from commands to lines by `Machine.step_keeps` and from lines to runs by `Machine.run_keeps`. A
compound push on a stack that is deep enough pops one item after the other, which never fails, and pushes once
(`Machine.wrap_of_le`). A run of two lists of lines is a run of the first and, unless that stopped, a run of the second
from where it ended (`Machine.run_append`); a run that stopped did so at one of its lines (`Machine.run_stopped_iff`).
-/

namespace OperandStack

/-- Whether a reply lets a line pass. -/
def Reply.outcome : Reply → Except Fault Unit
  | .fault f => .error f
  | _ => .ok ()

/-- What a line observes of a reply, if anything. -/
def Reply.shown? : Reply → Option Text
  | .item x => some x.text
  | .missing => some "none".toList
  | _ => none

namespace Call

/-- The top item is popped if the view accepts it. -/
theorem take_top (view : View) (below : List Slot) (top : Slot) :
    take view 0 (below ++ [top]) =
      if view.accepts top.item.kind then .ok (top, below) else .error (.mismatch view top.item.kind) := by
  have hn : ¬((below ++ [top]).length : Int) ≤ (0 : Int64).toInt := by
    rw [List.length_append, List.length_singleton, Int64.toInt_zero]
    omega
  have hr : Position.reach (below ++ [top]).length 0 = 0 := rfl
  have hp : Position.removal (below ++ [top]).length 0 = .ok ⟨below.length, by simp⟩ := by
    rw [Position.removal, dif_neg hn, dif_neg (by omega)]
    simp only [Except.ok.injEq, Fin.mk.injEq, List.length_append, List.length_singleton]
    rfl
  simp only [take, hp, bind, Except.bind]
  have hget : (below ++ [top])[below.length] = top := List.getElem_concat_length rfl _
  have herase : (below ++ [top]).eraseIdx below.length = below := by
    rw [List.eraseIdx_append_of_length_le (Nat.le_refl _), Nat.sub_self, List.eraseIdx_cons_zero, List.append_nil]
  simp only [Fin.getElem_fin, hget, herase]

/-- A pop takes the top slot. -/
theorem effect_pop_top (below : List Slot) (top : Slot) : effect (below ++ [top]) .pop = taken 0 top below := by
  simp only [effect, removal, take_top, View.accepts, if_pos]

end Call

namespace Machine

/-! ## Calls of a machine -/

/-- A call whose failure matters passes as its reply says. -/
theorem change_eq (m : Machine) (c : Call) : m.change c = ((m.call c).1.outcome, (m.call c).2) := by
  unfold change
  rcases m.call c with ⟨reply, after⟩
  cases reply <;> rfl

/-- An observed call passes as its reply says, and notes what the reply shows. -/
theorem observe_eq (m : Machine) (line : Line) (c : Call) :
    m.observe line c = ((m.call c).1.outcome, match (m.call c).1.shown? with
      | some result => (m.call c).2.note line result
      | none => (m.call c).2) := by
  unfold observe
  rcases m.call c with ⟨reply, after⟩
  cases reply <;> rfl

/-! ## Moves -/

/-- What lines may do to the stacks and the tally: a call on the main stack, a copy onto the target, and anything that
leaves them alone, one after the other. -/
inductive Moves : Machine → Machine → Prop where
  | aside {m after : Machine} : after.main = m.main → after.target = m.target → after.tally = m.tally → Moves m after
  | call (m : Machine) (c : Call) : Moves m (m.call c).2
  | copy (m : Machine) (count : Option UInt64) : Moves m (m.copy count)
  | trans {m between after : Machine} : Moves m between → Moves between after → Moves m after

/-- What calls and copies keep is kept by moves. -/
theorem Moves.keeps {I : Stack → Stack → Tally → Prop}
    (call : ∀ {main target tally} (c : Call), I main target tally → I (main.call tally c).stack target
      (main.call tally c).listener)
    (copy : ∀ {main target tally} (count : Option UInt64), I main target tally →
      I main (main.copyOnto count target).1 tally)
    {m after : Machine} (h : Moves m after) (hi : I m.main m.target m.tally) :
    I after.main after.target after.tally := by
  induction h with
  | aside hmain htarget htally =>
    rw [hmain, htarget, htally]
    exact hi
  | call m c => exact call c hi
  | copy m count => exact copy count hi
  | trans _ _ ih₁ ih₂ => exact ih₂ (ih₁ hi)

theorem observe_moves (m : Machine) (line : Line) (c : Call) : Moves m (m.observe line c).2 := by
  rw [observe_eq]
  cases (m.call c).1.shown? with
  | none => exact .call m c
  | some result => exact (Moves.call m c).trans (.aside rfl rfl rfl)

theorem change_moves (m : Machine) (c : Call) : Moves m (m.change c).2 := by
  rw [change_eq]
  exact .call m c

/-! ## Compound pushes -/

/-- A machine after pops in a row. -/
def popped (m : Machine) : Nat → Machine
  | 0 => m
  | n + 1 => (m.call .pop).2.popped n

/-- A stack that is not empty has a top slot. -/
theorem exists_top {m : Machine} {n : Nat} (hn : n + 1 ≤ m.main.depth) :
    ∃ below top, m.main.slots = below ++ [top] ∧ n ≤ below.length := by
  have hne : m.main.slots ≠ [] := by
    intro h
    rw [Stack.depth, h, List.length_nil] at hn
    omega
  refine ⟨_, _, (List.dropLast_append_getLast hne).symm, ?_⟩
  rw [List.length_dropLast]
  have hd : m.main.depth = m.main.slots.length := rfl
  omega

/-- A pop of a stack with a top slot replies with its item and leaves the slots below it. -/
theorem call_pop {m : Machine} {below : List Slot} {top : Slot} (h : m.main.slots = below ++ [top]) :
    (m.call .pop).1 = .item top.item ∧ (m.call .pop).2.main.slots = below := by
  have he : Call.effect m.main.slots .pop = Call.taken 0 top below := by rw [h, Call.effect_pop_top]
  constructor
  · change (Call.effect m.main.slots .pop).reply = _
    rw [he]
    rfl
  · change (Call.effect m.main.slots .pop).slots = _
    rw [he]
    rfl

/-- Pops in a row from a stack that is deep enough take its top slots. -/
theorem popped_slots {m : Machine} {n : Nat} (hn : n ≤ m.main.depth) :
    (m.popped n).main.slots = m.main.slots.take (m.main.depth - n) := by
  induction n generalizing m with
  | zero => exact (List.take_length).symm
  | succ n ih =>
    obtain ⟨below, top, hs, hb⟩ := exists_top hn
    obtain ⟨-, hslots⟩ := call_pop hs
    have hd : (m.call .pop).2.main.depth = below.length := by rw [Stack.depth, hslots]
    have hm : m.main.depth = below.length + 1 := by rw [Stack.depth, hs, List.length_append, List.length_singleton]
    rw [popped, ih (hd ▸ hb), hslots, hd, hm, hs, Nat.add_sub_add_right, List.take_append_of_le_length (Nat.sub_le _ _)]

/-- They give the items in the order in which they lay, and none of them fails. -/
theorem popMany_of_le {m : Machine} {n : Nat} (hn : n ≤ m.main.depth) :
    m.popMany n = (.ok (m.main.items.drop (m.main.depth - n)), m.popped n) := by
  induction n generalizing m with
  | zero =>
    rw [Nat.sub_zero, List.drop_of_length_le (by simp [Stack.items, Stack.depth])]
    rfl
  | succ n ih =>
    obtain ⟨below, top, hs, hb⟩ := exists_top hn
    obtain ⟨hreply, hslots⟩ := call_pop hs
    have hd : (m.call .pop).2.main.depth = below.length := by rw [Stack.depth, hslots]
    have hm : m.main.depth = below.length + 1 := by rw [Stack.depth, hs, List.length_append, List.length_singleton]
    have hitems : m.main.items.drop (m.main.depth - (n + 1)) =
        (m.call .pop).2.main.items.drop (below.length - n) ++ [top.item] := by
      rw [hm, Nat.add_sub_add_right, Stack.items, Stack.items, hs, hslots, List.map_append,
        List.drop_append_of_le_length (by rw [List.length_map]; exact Nat.sub_le _ _)]
      rfl
    have hrest := ih (hd ▸ hb)
    rw [hd] at hrest
    rw [popMany, show m.call .pop = (.item top.item, (m.call .pop).2) by rw [← hreply]]
    simp only [hrest, hitems, popped]

theorem popped_moves (m : Machine) (n : Nat) : Moves m (m.popped n) := by
  induction n generalizing m with
  | zero => exact .aside rfl rfl rfl
  | succ n ih => exact (Moves.call m .pop).trans (ih _)

/-- Pops leave alone what they do not work on. -/
theorem popped_frame (m : Machine) (n : Nat) : (m.popped n).target = m.target ∧ (m.popped n).created = m.created ∧
    (m.popped n).observations = m.observations := by
  induction n generalizing m with
  | zero => exact ⟨rfl, rfl, rfl⟩
  | succ n ih => exact ih (m.call .pop).2

/-- A compound push on a stack that is not deep enough fails and does nothing. -/
theorem wrap_of_lt {m : Machine} {size : UInt64} (h : m.main.depth < size.toNat) (supply : Nat → Nat)
    (compound : List Item → Value Item) :
    m.wrap supply size compound = (.error (.underflow (lastIndex size) m.main.depth), m) :=
  if_pos h

/-- A machine whose top slots have given way to one new item that holds theirs. -/
def wrapped (m : Machine) (supply : Nat → Nat) (n : Nat) (compound : List Item → Value Item) : Machine :=
  ({ m.popped n with created := m.created + 1 }.call
    (.push { id := supply m.created, value := compound (m.main.items.drop (m.main.depth - n)) })).2

/-- A compound push on a stack that is deep enough passes: its pops, then its push. -/
theorem wrap_of_le {m : Machine} {size : UInt64} (h : size.toNat ≤ m.main.depth) (supply : Nat → Nat)
    (compound : List Item → Value Item) :
    m.wrap supply size compound = (.ok (), m.wrapped supply size.toNat compound) := by
  obtain ⟨-, hcreated, -⟩ := popped_frame m size.toNat
  rw [wrap, if_neg (Nat.not_lt.mpr h), popMany_of_le h]
  simp only [create, change_eq, hcreated]
  rfl

theorem wrap_moves (m : Machine) (supply : Nat → Nat) (size : UInt64) (compound : List Item → Value Item) :
    Moves m (m.wrap supply size compound).2 := by
  by_cases h : m.main.depth < size.toNat
  · rw [wrap_of_lt h]
    exact .aside rfl rfl rfl
  · rw [wrap_of_le (Nat.not_lt.mp h)]
    have hcreate : Moves (m.popped size.toNat) { m.popped size.toNat with created := m.created + 1 } :=
      .aside rfl rfl rfl
    exact ((popped_moves m _).trans hcreate).trans (.call _ _)

/-! ## Lines -/

/-- A command does its work by moves. -/
theorem execute_moves (m : Machine) (supply : Nat → Nat) (line : Line) : Moves m (m.execute supply line).2 := by
  have hcreate : ∀ value, Moves m (m.create supply value).2 := fun _ => .aside rfl rfl rfl
  obtain ⟨number, command⟩ := line
  cases command with
  | push literal => exact (hcreate literal.value).trans (change_moves _ _)
  | pushArray size => exact wrap_moves m supply size .array
  | pushStruct size => exact wrap_moves m supply size .struct
  | pop view => exact observe_moves m _ _
  | tryPop view => exact observe_moves m _ _
  | peek index => exact observe_moves m _ _
  | peekQuiet index => exact observe_moves m _ _
  | insert index literal => exact (hcreate literal.value).trans (change_moves _ _)
  | remove index view => exact observe_moves m _ _
  | reverse count => exact change_moves m _
  | clear => exact change_moves m _
  | copy count => exact .copy m count

/-- The machine on which the command of a line works: the line is announced first. -/
def announced (m : Machine) (line : Line) : Machine :=
  m.logged (.executing line.number line.command.text)

/-- A line fails when its command does. -/
theorem step_of_error {m after : Machine} {supply : Nat → Nat} {line : Line} {f : Fault}
    (h : (m.announced line).execute supply line = (.error f, after)) :
    m.step supply line = (.error f, after.logged (.stopped line.number f)) := by
  rw [announced] at h
  rw [step]
  simp only [h]

/-- A line whose command passes fails exactly when there are then too many references. -/
theorem step_of_ok {m after : Machine} {supply : Nat → Nat} {line : Line}
    (h : (m.announced line).execute supply line = (.ok (), after)) :
    m.step supply line = if after.tally.limit < after.tally.references then
        (.error (.overLimit after.tally.references after.tally.limit),
          after.logged (.stopped line.number (.overLimit after.tally.references after.tally.limit)))
      else (.ok (), after) := by
  rw [announced] at h
  rw [step]
  simp only [h, Tally.check]
  by_cases hlimit : after.tally.limit < after.tally.references
  · simp only [if_pos hlimit]
  · simp only [if_neg hlimit]

/-- What a command leaves its line leaves, if events of other levels than traces do not matter to it. -/
theorem step_keeps {P : Machine → Prop} {m : Machine} {supply : Nat → Nat} {line : Line}
    (hlogged : ∀ {after : Machine} {e : Event}, e.level ≠ .trace → P after → P (after.logged e))
    (h : P ((m.announced line).execute supply line).2) : P (m.step supply line).2 := by
  rcases he : (m.announced line).execute supply line with ⟨result, after⟩
  rw [he] at h
  cases result with
  | error f =>
    rw [step_of_error he]
    exact hlogged (by rintro ⟨⟩) h
  | ok _ =>
    rw [step_of_ok he]
    split
    · exact hlogged (by rintro ⟨⟩) h
    · exact h

theorem step_moves (m : Machine) (supply : Nat → Nat) (line : Line) : Moves m (m.step supply line).2 := by
  have hstart : Moves m (m.announced line) := .aside rfl rfl rfl
  refine step_keeps (P := Moves m) ?_ (hstart.trans (execute_moves (m.announced line) supply line))
  intro after e _ h
  exact h.trans (.aside rfl rfl rfl)

/-! ## Runs -/

/-- A line that passes is followed by the others. -/
theorem run_cons_ok {m after : Machine} {supply : Nat → Nat} {line : Line} (rest : List Line)
    (h : m.step supply line = (.ok (), after)) :
    m.run supply (line :: rest) = { after.run supply rest with executed := (after.run supply rest).executed + 1 } := by
  rw [run]
  simp only [h]

/-- A line that fails is the last. -/
theorem run_cons_error {m after : Machine} {supply : Nat → Nat} {line : Line} {f : Fault} (rest : List Line)
    (h : m.step supply line = (.error f, after)) :
    m.run supply (line :: rest) = { executed := 0, stop := some (line, f), machine := after } := by
  rw [run]
  simp only [h]

/-- What each of its lines keeps a run keeps, whether or not it stops. -/
theorem run_keeps {P : Machine → Prop} {m : Machine} {supply : Nat → Nat} {lines : List Line}
    (hstep : ∀ line ∈ lines, ∀ m : Machine, P m → P (m.step supply line).2) (hm : P m) :
    P (m.run supply lines).machine := by
  induction lines generalizing m with
  | nil => exact hm
  | cons line rest ih =>
    have hfirst := hstep line List.mem_cons_self m hm
    rcases hs : m.step supply line with ⟨result, after⟩
    rw [hs] at hfirst
    cases result with
    | error f =>
      rw [run_cons_error rest hs]
      exact hfirst
    | ok _ =>
      rw [run_cons_ok rest hs]
      exact ih (fun other hother => hstep other (List.mem_cons_of_mem line hother)) hfirst

theorem run_moves (m : Machine) (supply : Nat → Nat) (lines : List Line) : Moves m (m.run supply lines).machine :=
  run_keeps (P := Moves m) (fun line _ between h => h.trans (step_moves between supply line)) (.aside rfl rfl rfl)

/-- A run of two lists is a run of the first and, unless that stopped, a run of the second from where it ended. -/
theorem run_append (m : Machine) (supply : Nat → Nat) (first second : List Line) :
    m.run supply (first ++ second) =
      if (m.run supply first).stop = none then
        { (m.run supply first).machine.run supply second with
          executed := first.length + ((m.run supply first).machine.run supply second).executed }
      else m.run supply first := by
  induction first generalizing m with
  | nil =>
    have hnil : m.run supply [] = { executed := 0, stop := none, machine := m } := rfl
    simp only [hnil, List.nil_append, List.length_nil, Nat.zero_add, if_pos]
  | cons line first ih =>
    rcases hs : m.step supply line with ⟨result, after⟩
    cases result with
    | error f =>
      rw [List.cons_append, run_cons_error _ hs, run_cons_error _ hs]
      rfl
    | ok _ =>
      rw [List.cons_append, run_cons_ok _ hs, run_cons_ok _ hs, ih after]
      by_cases h : (after.run supply first).stop = none
      · rw [if_pos h, if_pos h, List.length_cons]
        simp only [Ending.mk.injEq, and_true]
        omega
      · rw [if_neg h, if_neg h]

/-- A line that fails after the lines before it have passed stops the run. -/
theorem run_append_error {m after : Machine} {supply : Nat → Nat} {before : List Line} {line : Line} {f : Fault}
    (rest : List Line) (hbefore : (m.run supply before).stop = none)
    (hstep : (m.run supply before).machine.step supply line = (.error f, after)) :
    m.run supply (before ++ line :: rest) =
      { executed := before.length, stop := some (line, f), machine := after } := by
  rw [run_append, if_pos hbefore, run_cons_error rest hstep]
  rfl

/-- A run stopped at a line exactly when that line failed after the ones before it had passed. -/
theorem run_stopped_iff {m : Machine} {supply : Nat → Nat} {lines : List Line} {line : Line} {f : Fault} :
    (m.run supply lines).stop = some (line, f) ↔ ∃ before rest after, lines = before ++ line :: rest ∧
      (m.run supply before).stop = none ∧ (m.run supply before).machine.step supply line = (.error f, after) ∧
      m.run supply lines = { executed := before.length, stop := some (line, f), machine := after } := by
  constructor
  · intro h
    induction lines generalizing m with
    | nil => cases h
    | cons other rest ih =>
      rcases hs : m.step supply other with ⟨result, after⟩
      cases result with
      | error g =>
        have hrun := run_cons_error rest hs
        rw [hrun] at h
        cases h
        exact ⟨[], rest, after, rfl, rfl, hs, hrun⟩
      | ok _ =>
        have hrun := run_cons_ok rest hs
        rw [hrun] at h
        obtain ⟨before, rest', last, rfl, hbefore, hstep, hlast⟩ := ih h
        refine ⟨other :: before, rest', last, rfl, ?_, ?_, ?_⟩
        · rw [run_cons_ok before hs]
          exact hbefore
        · rw [run_cons_ok before hs]
          exact hstep
        · rw [hrun, hlast, List.length_cons]
  · rintro ⟨before, rest, after, -, -, -, hrun⟩
    rw [hrun]

end Machine

/-- The end of a run of lines under settings, its items named by a supply of identities. -/
def runWith (s : Settings) (supply : Nat → Nat) (lines : List Line) : Ending :=
  (Machine.start s).run supply lines

end OperandStack
