import Mathlib.Data.List.InsertIdx
import OperandStack.World

/-!
# Piles

A pile is a stack as its users think of it: a list that begins with the top, on which an index is a place in the list
and a negative index counts from the end. Piles know nothing of slots, journals or counters; `Yard` puts several of them
together, as `World` does with stacks. What the calls do to a pile is written down here once and for all, and the
stacks of a world are compared with it elsewhere.

A pile is made of cells of any type that says which item a cell holds and how cells are made (`Cell`). Piles of items
are the plain ones; a cell may also remember where it comes from. What a pile answers depends on the items alone, so a
map between cells that keeps the items carries one pile over to another (`call_map`, `act_map`).
-/

namespace OperandStack

/-- What a pile is made of. A cell holds an item; a push and an insertion make a cell for their item, a copy makes one
of another cell. -/
class Cell (α : Type) where
  item : α → Item
  pushed : Item → α
  inserted : Item → α
  copied : α → α

/-- An item is a cell that remembers nothing. -/
instance : Cell Item where
  item := id
  pushed := id
  inserted := id
  copied := id

/-- A map between cells that keeps the items and the ways in which cells are made. -/
structure Cell.Hom {α β : Type} [Cell α] [Cell β] (f : α → β) : Prop where
  item : ∀ a, Cell.item (f a) = Cell.item a
  pushed : ∀ x, f (Cell.pushed x) = Cell.pushed x
  inserted : ∀ x, f (Cell.inserted x) = Cell.inserted x
  copied : ∀ a, f (Cell.copied a) = Cell.copied (f a)

/-- A change of one image in a list is the image of a change. -/
theorem modify_map {α β : Type} (f : α → β) (l : List α) (i : Nat) {g : α → α} {g' : β → β}
    (hg : ∀ a, g' (f a) = f (g a)) : (l.map f).modify i g' = (l.modify i g).map f := by
  apply List.ext_getElem?
  intro j
  simp only [List.getElem?_modify, List.getElem?_map]
  cases l[j]? with
  | none => rfl
  | some a => by_cases h : i = j <;> simp [h, hg]

/-- Cells with the top first, the number of the counter that hears of them, and whether the pile is still in use. -/
structure Pile (α : Type) where
  cells : List α
  counter : Nat
  live : Bool := true

namespace Pile

variable {α : Type}

/-- The place that an index names among `n` cells: a negative one is counted from the end. -/
def place (n : Nat) (index : Int64) (h : -(n : Int) ≤ index.toInt ∧ index.toInt < n) : Fin n :=
  ⟨(if index.toInt < 0 then index.toInt + n else index.toInt).toNat, by split <;> omega⟩

/-- The cell at an index from `-n` to `n - 1`. -/
def look (index : Int64) (cells : List α) : Except Fault α :=
  if h : -(cells.length : Int) ≤ index.toInt ∧ index.toInt < cells.length then .ok (cells.get (place _ index h))
  else .error (.outOfRange index cells.length)

/-- The cell at a place, if the view accepts its item, and the cells without it. -/
def lift [Cell α] (view : View) (cells : List α) (p : Fin cells.length) : Except Fault (α × List α) :=
  let kind := (Cell.item (cells.get p)).kind
  if view.accepts kind then .ok (cells.get p, cells.eraseIdx p) else .error (.mismatch view kind)

/-- The cell at an index from `-n` to `n - 1` and the cells without it, if the view accepts the item. -/
def take [Cell α] (view : View) (index : Int64) (cells : List α) : Except Fault (α × List α) :=
  if hn : (cells.length : Int) ≤ index.toInt then .error (.underflow index cells.length)
  else if hb : index.toInt < -(cells.length : Int) then .error (.outOfRange index cells.length)
  else lift view cells (place cells.length index (by omega))

/-- The cells with another one at an index from `0` to `n`. -/
def insert (index : Int64) (cell : α) (cells : List α) : Except Fault (List α) :=
  if 0 ≤ index.toInt ∧ index.toInt ≤ cells.length then
    .ok (cells.take index.toInt.toNat ++ cell :: cells.drop index.toInt.toNat)
  else .error (.outOfRange index cells.length)

/-- The cells with the first `count` of them in reverse order, for a count from `0` to `n`. -/
def turn (count : Int64) (cells : List α) : Except Fault (List α) :=
  if 0 ≤ count.toInt ∧ count.toInt ≤ cells.length then
    .ok ((cells.take count.toInt.toNat).reverse ++ cells.drop count.toInt.toNat)
  else .error (.badReverse count cells.length)

/-- Copies of the first `count` cells, or of as many as there are; of all without a count. -/
def copies [Cell α] (count : Option UInt64) (cells : List α) : List α :=
  match count with
  | none => cells.map Cell.copied
  | some n => (cells.take n.toNat).map Cell.copied

/-- A removal, which answers a failure in one of two ways: with its fault, or with the lack of an item. -/
def removal [Cell α] (failure : Fault → Reply) (view : View) (index : Int64) (cells : List α) : Reply × List α :=
  match take view index cells with
  | .ok (cell, rest) => (.item (Cell.item cell), rest)
  | .error fault => (failure fault, cells)

/-- A read, which answers a failure in one of the same two ways. -/
def reading [Cell α] (failure : Fault → Reply) (index : Int64) (cells : List α) : Reply × List α :=
  match look index cells with
  | .ok cell => (.item (Cell.item cell), cells)
  | .error fault => (failure fault, cells)

/-- What a call on a pile answers, and the cells after it. -/
def call [Cell α] (cells : List α) : Call → Reply × List α
  | .push x => (.done, Cell.pushed x :: cells)
  | .insert index x =>
    match insert index (Cell.inserted x) cells with
    | .ok after => (.done, after)
    | .error fault => (.fault fault, cells)
  | .pop => removal .fault .any 0 cells
  | .popAs view => removal .fault view 0 cells
  | .tryPop => removal (fun _ => .missing) .any 0 cells
  | .tryPopAs view => removal (fun _ => .missing) view 0 cells
  | .remove index view => removal .fault view index cells
  | .tryRemove index view => removal (fun _ => .missing) view index cells
  | .peek index => reading .fault index cells
  | .peekTop => reading .fault 0 cells
  | .tryPeek index => reading (fun _ => .missing) index cells
  | .peekQuiet index => reading .fault index cells
  | .reverse count =>
    match turn count cells with
    | .ok after => (.done, after)
    | .error fault => (.fault fault, cells)
  | .tryReverse count =>
    match turn count cells with
    | .ok after => (.flag true, after)
    | .error _ => (.flag false, cells)
  | .clear => (.done, [])

/-! ## Piles under a map of their cells -/

variable {β : Type}

theorem look_map (f : α → β) (index : Int64) (cells : List α) :
    look index (cells.map f) = (look index cells).map f := by
  unfold look
  by_cases h : -(cells.length : Int) ≤ index.toInt ∧ index.toInt < cells.length
  · have hm : -((cells.map f).length : Int) ≤ index.toInt ∧ index.toInt < (cells.map f).length := by
      rwa [List.length_map]
    rw [dif_pos h, dif_pos hm]
    simp [place, Except.map]
  · have hm : ¬(-((cells.map f).length : Int) ≤ index.toInt ∧ index.toInt < (cells.map f).length) := by
      rwa [List.length_map]
    rw [dif_neg h, dif_neg hm, List.length_map]
    rfl

theorem insert_map (f : α → β) (index : Int64) (cell : α) (cells : List α) :
    insert index (f cell) (cells.map f) = (insert index cell cells).map (List.map f) := by
  unfold insert
  rw [List.length_map]
  split
  · simp [Except.map]
  · rfl

theorem turn_map (f : α → β) (count : Int64) (cells : List α) :
    turn count (cells.map f) = (turn count cells).map (List.map f) := by
  unfold turn
  rw [List.length_map]
  split
  · simp [Except.map]
  · rfl

variable [Cell α] [Cell β] {f : α → β}

theorem lift_map (hf : Cell.Hom f) (view : View) {cells : List α} (p : Fin cells.length) (q : Fin (cells.map f).length)
    (hq : (q : Nat) = p) : lift view (cells.map f) q = (lift view cells p).map (Prod.map f (List.map f)) := by
  simp only [lift, List.get_eq_getElem, List.getElem_map, hq, hf.item]
  split
  · rw [List.eraseIdx_map]
    rfl
  · rfl

theorem take_map (hf : Cell.Hom f) (view : View) (index : Int64) (cells : List α) :
    take view index (cells.map f) = (take view index cells).map (Prod.map f (List.map f)) := by
  unfold take
  by_cases hn : (cells.length : Int) ≤ index.toInt
  · have hm : ((cells.map f).length : Int) ≤ index.toInt := by rwa [List.length_map]
    rw [dif_pos hn, dif_pos hm, List.length_map]
    rfl
  · have hm : ¬((cells.map f).length : Int) ≤ index.toInt := by rwa [List.length_map]
    rw [dif_neg hn, dif_neg hm]
    by_cases hb : index.toInt < -(cells.length : Int)
    · have hbm : index.toInt < -((cells.map f).length : Int) := by rwa [List.length_map]
      rw [dif_pos hb, dif_pos hbm, List.length_map]
      rfl
    · have hbm : ¬index.toInt < -((cells.map f).length : Int) := by rwa [List.length_map]
      rw [dif_neg hb, dif_neg hbm]
      exact lift_map hf view _ _ (by simp [place])

theorem copies_map (hf : Cell.Hom f) (count : Option UInt64) (cells : List α) :
    copies count (cells.map f) = (copies count cells).map f := by
  cases count <;> simp [copies, Function.comp_def, hf.copied]

theorem removal_map (hf : Cell.Hom f) (failure : Fault → Reply) (view : View) (index : Int64) (cells : List α) :
    removal failure view index (cells.map f) = (removal failure view index cells).map id (List.map f) := by
  unfold removal
  rw [take_map hf]
  cases take view index cells with
  | ok r => simp [Except.map, hf.item]
  | error fault => rfl

theorem reading_map (hf : Cell.Hom f) (failure : Fault → Reply) (index : Int64) (cells : List α) :
    reading failure index (cells.map f) = (reading failure index cells).map id (List.map f) := by
  unfold reading
  rw [look_map]
  cases look index cells with
  | ok cell => simp [Except.map, hf.item]
  | error fault => rfl

/-- A call answers the same on the image of a pile and leaves the image of what it leaves on the pile. -/
theorem call_map (hf : Cell.Hom f) (cells : List α) (c : Call) :
    call (cells.map f) c = (call cells c).map id (List.map f) := by
  cases c with
  | push x => simp [call, hf.pushed]
  | insert index x =>
    simp only [call]
    rw [← hf.inserted, insert_map]
    cases insert index (Cell.inserted x) cells <;> rfl
  | pop => exact removal_map hf _ _ _ _
  | popAs view => exact removal_map hf _ _ _ _
  | tryPop => exact removal_map hf _ _ _ _
  | tryPopAs view => exact removal_map hf _ _ _ _
  | remove index view => exact removal_map hf _ _ _ _
  | tryRemove index view => exact removal_map hf _ _ _ _
  | peek index => exact reading_map hf _ _ _
  | peekTop => exact reading_map hf _ _ _
  | tryPeek index => exact reading_map hf _ _ _
  | peekQuiet index => exact reading_map hf _ _ _
  | reverse count =>
    simp only [call]
    rw [turn_map]
    cases turn count cells <;> rfl
  | tryReverse count =>
    simp only [call]
    rw [turn_map]
    cases turn count cells <;> rfl
  | clear => rfl

/-- The image of a pile. -/
def map (f : α → β) (p : Pile α) : Pile β :=
  { p with cells := p.cells.map f }

end Pile

/-- Any number of piles, and how many counters there are. -/
structure Yard (α : Type) where
  counters : Nat
  piles : List (Pile α) := []

namespace Yard

variable {α : Type}

/-- Counters without piles. -/
def bare (counters : Nat) : Yard α :=
  { counters }

/-- The pile at a place, if it is in use. -/
def pile? (y : Yard α) (i : Nat) : Option (Pile α) :=
  (y.piles[i]?).filter Pile.live

/-- A yard in which the pile at a place has other cells. -/
def setCells (y : Yard α) (i : Nat) (cells : List α) : Yard α :=
  { y with piles := y.piles.modify i fun pile => { pile with cells } }

/-- The answer to an action and the yard after it. There is none where the action names a pile or a counter that is not
there, or copies a pile onto itself. -/
def act [Cell α] (y : Yard α) : Action → Option (Reply × Yard α)
  | .call i c => do
    let pile ← y.pile? i
    if pile.counter < y.counters then
      some ((Pile.call pile.cells c).1, y.setCells i (Pile.call pile.cells c).2)
    else none
  | .copy i j count => do
    let source ← y.pile? i
    let target ← y.pile? j
    if i = j then none else some (.done, y.setCells j (Pile.copies count source.cells ++ target.cells))
  | .clearJournal i => do
    let _ ← y.pile? i
    some (.done, y)
  | .create k _ =>
    if k < y.counters then some (.done, { y with piles := y.piles ++ [{ cells := [], counter := k }] }) else none
  | .discard i => do
    let _ ← y.pile? i
    some (.done, { y with piles := y.piles.modify i fun pile => { pile with live := false } })
  | .notify k _ => if k < y.counters then some (.done, y) else none

/-- The answers to actions in order, and the yard after the last one. -/
def run [Cell α] (y : Yard α) : List Action → Option (List Reply × Yard α)
  | [] => some ([], y)
  | a :: rest => do
    let (reply, next) ← y.act a
    let (replies, last) ← next.run rest
    some (reply :: replies, last)

/-! ## Yards under a map of their cells -/

variable {β : Type}

/-- The image of a yard. -/
def map (f : α → β) (y : Yard α) : Yard β :=
  { y with piles := y.piles.map (Pile.map f) }

theorem pile?_map (f : α → β) (y : Yard α) (i : Nat) : (y.map f).pile? i = (y.pile? i).map (Pile.map f) := by
  simp only [pile?, map, List.getElem?_map]
  cases y.piles[i]? with
  | none => rfl
  | some p => cases h : p.live <;> simp [Option.filter, Pile.map, h]

theorem setCells_map (f : α → β) (y : Yard α) (i : Nat) (cells : List α) :
    (y.map f).setCells i (cells.map f) = (y.setCells i cells).map f :=
  congrArg (Yard.mk y.counters) (modify_map (Pile.map f) y.piles i fun _ => rfl)

variable [Cell α] [Cell β] {f : α → β}

/-- An action on the image of a yard answers the same and leaves the image of what it leaves of the yard. -/
theorem act_map (hf : Cell.Hom f) (y : Yard α) (a : Action) :
    (y.map f).act a = (y.act a).map (Prod.map id (map f)) := by
  cases a with
  | call i c =>
    simp only [act, pile?_map, Option.bind_eq_bind]
    cases y.pile? i with
    | none => rfl
    | some p =>
      simp only [Option.map_some, Option.bind_some, Pile.map, Pile.call_map hf, Prod.map, setCells_map]
      change (if p.counter < y.counters then _ else _) = _
      split <;> rfl
  | copy i j count =>
    simp only [act, pile?_map, Option.bind_eq_bind]
    cases y.pile? i with
    | none => rfl
    | some p =>
      cases y.pile? j with
      | none => rfl
      | some q =>
        simp only [Option.map_some, Option.bind_some, Pile.map, Pile.copies_map hf, ← List.map_append, setCells_map]
        split <;> rfl
  | clearJournal i =>
    simp only [act, pile?_map, Option.bind_eq_bind]
    cases y.pile? i <;> rfl
  | create k journal =>
    change (if k < y.counters then _ else _) = _
    simp only [act]
    split <;> simp [map, Pile.map]
  | discard i =>
    simp only [act, pile?_map, Option.bind_eq_bind]
    cases y.pile? i with
    | none => rfl
    | some p =>
      have hm : (y.piles.map (Pile.map f)).modify i (fun p => { p with live := false }) =
          (y.piles.modify i fun p => { p with live := false }).map (Pile.map f) :=
        modify_map (Pile.map f) y.piles i fun _ => rfl
      exact congrArg (fun piles => some (Reply.done, Yard.mk y.counters piles)) hm
  | notify k notice =>
    change (if k < y.counters then _ else _) = _
    simp only [act]
    split <;> rfl

/-- The same for a run. -/
theorem run_map (hf : Cell.Hom f) (y : Yard α) (actions : List Action) :
    (y.map f).run actions = (y.run actions).map (Prod.map id (map f)) := by
  induction actions generalizing y with
  | nil => rfl
  | cons a rest ih =>
    simp only [run, act_map hf]
    cases y.act a with
    | none => rfl
    | some r =>
      simp only [Option.map_some, Option.bind_eq_bind, Option.bind_some, Prod.map, ih]
      cases r.2.run rest <;> rfl

end Yard

end OperandStack
