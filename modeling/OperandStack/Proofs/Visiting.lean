import Mathlib.Data.List.Basic
import OperandStack.Run.Report
import OperandStack.Stack.Walk

/-!
# Every slot is visited once

The slots that a walk has not visited lie in a row (`Walk.unvisited`), and a call takes the slot at its end of that row
(`Walk.ask_cases`). Calls from the bottom therefore shorten the row from below and calls from the top from above, until
nothing is left between them (`Walk.unvisited_eq`), and no slot is taken twice (`Walk.unvisited_perm`). Calls from one
end alone bring the items in the order from that end (`Walk.drain_eq`), which from the top is the order in which stacks
are shown (`slots_visited_once`).
-/

namespace OperandStack

/-- The two ends of a stack. -/
inductive Side where
  | bottom
  | top
  deriving DecidableEq, Repr

namespace Side

variable {α : Type}

/-- A row with one more at an end. -/
def put (side : Side) (x : α) (row : List α) : List α :=
  match side with
  | bottom => x :: row
  | top => row ++ [x]

/-- A row in the order from an end. -/
def order (side : Side) (row : List α) : List α :=
  match side with
  | bottom => row
  | top => row.reverse

theorem length_put (side : Side) (x : α) (row : List α) : (side.put x row).length = row.length + 1 := by
  cases side with
  | bottom => simp [put]
  | top => simp [put]

theorem put_perm (side : Side) (x : α) (row : List α) : (side.put x row).Perm (x :: row) := by
  cases side with
  | bottom => exact List.Perm.refl _
  | top => exact List.perm_append_singleton x row

theorem order_put (side : Side) (x : α) (row : List α) : side.order (side.put x row) = x :: side.order row := by
  cases side with
  | bottom => simp [put, order]
  | top => simp [put, order]

end Side

namespace Walk

/-! ## Calls -/

/-- The next item from an end, if one is left. -/
def ask (w : Walk) : Side → Option Item × Walk
  | .bottom => w.next
  | .top => w.nextBack

/-- The position, counted from the bottom, of the slot that a call from an end visits, if one is left. -/
def place? (w : Walk) (side : Side) : Option Nat :=
  if w.remaining = 0 then none
  else
    match side with
    | .bottom => some w.fromBottom
    | .top => some (w.items.length - w.fromTop - 1)

/-- The positions of the slots that are not visited yet, from the bottom up. -/
def unvisited (w : Walk) : List Nat :=
  List.range' w.fromBottom w.remaining

/-- What a call from an end does that visits a slot: it brings the item of the slot, which stood at that end of the row
of those not visited. -/
structure Takes (w : Walk) (side : Side) (place : Nat) (item : Item) (after : Walk) : Prop where
  answer : w.ask side = (some item, after)
  position : w.place? side = some place
  shown : w.items[place]? = some item
  items : after.items = w.items
  row : w.unvisited = side.put place after.unvisited

theorem length_unvisited (w : Walk) : w.unvisited.length = w.remaining :=
  List.length_range'

theorem unvisited_eq_nil_iff {w : Walk} : w.unvisited = [] ↔ w.remaining = 0 := by
  rw [← List.length_eq_zero_iff, length_unvisited]

theorem takes_bottom {w : Walk} (h : w.remaining ≠ 0) :
    ∃ item, w.Takes .bottom w.fromBottom item { w with fromBottom := w.fromBottom + 1 } := by
  have hplace : w.fromBottom < w.items.length := by
    unfold remaining at h
    omega
  have hleft : w.remaining = remaining { w with fromBottom := w.fromBottom + 1 } + 1 := by
    simp only [remaining] at h ⊢
    omega
  refine ⟨w.items[w.fromBottom], ?_, if_neg h, List.getElem?_eq_getElem hplace, rfl, ?_⟩
  · rw [ask, next, if_neg h, List.getElem?_eq_getElem hplace]
  · rw [unvisited, hleft, List.range'_succ]
    rfl

theorem takes_top {w : Walk} (h : w.remaining ≠ 0) :
    ∃ item, w.Takes .top (w.items.length - w.fromTop - 1) item { w with fromTop := w.fromTop + 1 } := by
  have hplace : w.items.length - w.fromTop - 1 < w.items.length := by
    unfold remaining at h
    omega
  have hleft : w.remaining = remaining { w with fromTop := w.fromTop + 1 } + 1 := by
    simp only [remaining] at h ⊢
    omega
  have hlast : w.items.length - w.fromTop - 1 = w.fromBottom + remaining { w with fromTop := w.fromTop + 1 } := by
    simp only [remaining] at h ⊢
    omega
  refine ⟨w.items[w.items.length - w.fromTop - 1], ?_, if_neg h, List.getElem?_eq_getElem hplace, rfl, ?_⟩
  · rw [ask, nextBack, if_neg h, List.getElem?_eq_getElem hplace]
  · rw [unvisited, hleft, List.range'_1_concat, hlast]
    rfl

/-- A call either finds no slot left, brings nothing and changes nothing, or it visits a slot. -/
theorem ask_cases (w : Walk) (side : Side) :
    (w.unvisited = [] ∧ w.place? side = none ∧ w.ask side = (none, w)) ∨
      ∃ place item after, w.Takes side place item after := by
  by_cases h : w.remaining = 0
  · refine .inl ⟨unvisited_eq_nil_iff.mpr h, if_pos h, ?_⟩
    cases side with
    | bottom => exact if_pos h
    | top => exact if_pos h
  · right
    cases side with
    | bottom =>
      obtain ⟨item, ht⟩ := takes_bottom h
      exact ⟨_, item, _, ht⟩
    | top =>
      obtain ⟨item, ht⟩ := takes_top h
      exact ⟨_, item, _, ht⟩

section

variable {w after : Walk} {side : Side} {item : Item}

theorem Takes.remaining {place : Nat} (h : w.Takes side place item after) : w.remaining = after.remaining + 1 := by
  rw [← length_unvisited, h.row, Side.length_put, length_unvisited]

/-- A call that brings an item visits a slot. -/
theorem takes_of_ask (h : w.ask side = (some item, after)) : ∃ place, w.Takes side place item after := by
  rcases w.ask_cases side with ⟨-, -, hask⟩ | ⟨place, item', after', ht⟩
  · rw [hask] at h
    cases h
  · obtain ⟨hitem, rfl⟩ := Prod.mk.inj (ht.answer.symm.trans h)
    obtain rfl := Option.some.inj hitem
    exact ⟨place, ht⟩

theorem remaining_lt_of_ask (h : w.ask side = (some item, after)) : after.remaining < w.remaining := by
  obtain ⟨place, ht⟩ := takes_of_ask h
  rw [ht.remaining]
  exact Nat.lt_succ_self _

theorem ask_fst_eq_none_iff : (w.ask side).1 = none ↔ w.remaining = 0 := by
  rcases w.ask_cases side with ⟨hrow, -, hask⟩ | ⟨place, item, after, ht⟩
  · simp [hask, unvisited_eq_nil_iff.mp hrow]
  · simp [ht.answer, ht.remaining]

end

/-! ## Calls in a row -/

/-- What a call shows: the end from which it is made, the position of the slot that it visits, and the item that it
brings. -/
structure Answer where
  side : Side
  place : Option Nat
  item : Option Item

namespace Answer

/-- The answers to the calls from an end. -/
def ofSide (side : Side) (answers : List Answer) : List Answer :=
  answers.filter (·.side = side)

/-- The positions of the slots visited. -/
def places (answers : List Answer) : List Nat :=
  answers.filterMap Answer.place

/-- The items that came. -/
def items (answers : List Answer) : List Item :=
  answers.filterMap Answer.item

theorem ofSide_subset (side : Side) (answers : List Answer) : ofSide side answers ⊆ answers :=
  List.filter_subset_self _

end Answer

/-- The answers to calls in a row. -/
def answers (w : Walk) : List Side → List Answer
  | [] => []
  | side :: rest => { side, place := w.place? side, item := (w.ask side).1 } :: (w.ask side).2.answers rest

/-- The walk that calls in a row leave. -/
def after (w : Walk) : List Side → Walk
  | [] => w
  | side :: rest => (w.ask side).2.after rest

/-- Each call brings the item of the slot that it visits. -/
theorem item_of_mem_answers {w : Walk} {calls : List Side} {a : Answer} (h : a ∈ w.answers calls) :
    a.item = a.place.bind (w.items[·]?) := by
  induction calls generalizing w with
  | nil => cases h
  | cons side rest ih =>
    rw [answers] at h
    rcases w.ask_cases side with ⟨-, hplace, hask⟩ | ⟨place, item, after, ht⟩
    · rw [hplace, hask] at h
      rcases List.mem_cons.mp h with rfl | h
      · rfl
      · exact ih h
    · rw [ht.position, ht.answer] at h
      rcases List.mem_cons.mp h with rfl | h
      · exact ht.shown.symm
      · rw [← ht.items]
        exact ih h

theorem items_eq_filterMap_places {w : Walk} {calls : List Side} {answers : List Answer}
    (h : answers ⊆ w.answers calls) : Answer.items answers = (Answer.places answers).filterMap (w.items[·]?) := by
  rw [Answer.places, List.filterMap_filterMap]
  exact List.filterMap_congr fun a ha => item_of_mem_answers (h ha)

/-- The slots not visited before calls in a row are, from the bottom up, those that the calls from the bottom visit,
those left, and those that the calls from the top visit, the last of these first. -/
theorem unvisited_eq (w : Walk) (calls : List Side) :
    w.unvisited = Answer.places (Answer.ofSide .bottom (w.answers calls)) ++ (w.after calls).unvisited ++
      (Answer.places (Answer.ofSide .top (w.answers calls))).reverse := by
  induction calls generalizing w with
  | nil => exact (List.append_nil _).symm
  | cons side rest ih =>
    rcases w.ask_cases side with ⟨-, hplace, hask⟩ | ⟨place, item, after, ht⟩
    · rw [answers, Walk.after, hplace, hask]
      cases side with
      | bottom => exact ih w
      | top => exact ih w
    · rw [answers, Walk.after, ht.position, ht.answer, ht.row, ih after]
      cases side with
      | bottom => rfl
      | top =>
        rw [Side.put, List.append_assoc, ← List.reverse_cons]
        rfl

/-- The items not visited before calls in a row, told apart in the same way. -/
theorem filterMap_unvisited_eq (w : Walk) (calls : List Side) :
    w.unvisited.filterMap (w.items[·]?) = Answer.items (Answer.ofSide .bottom (w.answers calls)) ++
      (w.after calls).unvisited.filterMap (w.items[·]?) ++
      (Answer.items (Answer.ofSide .top (w.answers calls))).reverse := by
  rw [items_eq_filterMap_places (Answer.ofSide_subset .bottom _),
    items_eq_filterMap_places (Answer.ofSide_subset .top _), ← List.filterMap_reverse, ← List.filterMap_append,
    ← List.filterMap_append, ← unvisited_eq]

/-- A slot is visited once or left, and never both. -/
theorem unvisited_perm (w : Walk) (calls : List Side) :
    w.unvisited.Perm (Answer.places (w.answers calls) ++ (w.after calls).unvisited) := by
  induction calls generalizing w with
  | nil => exact List.Perm.refl _
  | cons side rest ih =>
    rcases w.ask_cases side with ⟨-, hplace, hask⟩ | ⟨place, item, after, ht⟩
    · rw [answers, Walk.after, hplace, hask]
      exact ih w
    · rw [answers, Walk.after, ht.position, ht.answer, ht.row]
      exact (side.put_perm place _).trans ((ih after).cons place)

theorem nodup_places (w : Walk) (calls : List Side) : (Answer.places (w.answers calls)).Nodup := by
  have hnodup : w.unvisited.Nodup := List.nodup_range'
  have hparts := (w.unvisited_perm calls).nodup_iff.mp hnodup
  exact (List.nodup_append.mp hparts).1

/-- The items that are left after calls in a row and those that came are together as many as were left before. -/
theorem remaining_after (w : Walk) (calls : List Side) :
    (w.after calls).remaining + (Answer.items (w.answers calls)).length = w.remaining := by
  induction calls generalizing w with
  | nil => rfl
  | cons side rest ih =>
    rcases w.ask_cases side with ⟨-, -, hask⟩ | ⟨place, item, after, ht⟩
    · rw [answers, Walk.after, hask]
      exact ih w
    · rw [answers, Walk.after, ht.answer, ht.remaining, ← ih after]
      rfl

/-! ## Calls from one end -/

/-- The items that calls from one end bring until nothing is left. -/
def drain (w : Walk) (side : Side) : List Item :=
  match h : w.ask side with
  | (none, _) => []
  | (some item, after) =>
    have := remaining_lt_of_ask h
    item :: after.drain side
termination_by w.remaining

/-- Calls from one end bring the items not visited in the order from that end. -/
theorem drain_eq (w : Walk) (side : Side) : w.drain side = (side.order w.unvisited).filterMap (w.items[·]?) := by
  fun_induction drain w side with
  | case1 w last h =>
    have hrow : w.unvisited = [] := unvisited_eq_nil_iff.mpr (ask_fst_eq_none_iff.mp (congrArg Prod.fst h))
    cases side with
    | bottom => simp [hrow, Side.order]
    | top => simp [hrow, Side.order]
  | case2 w item after h _ ih =>
    obtain ⟨place, ht⟩ := takes_of_ask h
    rw [ih, ht.items, ht.row, Side.order_put, List.filterMap_cons_some ht.shown]

end Walk

/-! ## Walks over stacks -/

/-- The items at all positions of a list are the list. -/
theorem filterMap_getElem?_range {α : Type} (xs : List α) : (List.range xs.length).filterMap (xs[·]?) = xs := by
  induction xs with
  | nil => rfl
  | cons x xs ih =>
    rw [List.length_cons, List.range_succ_eq_map, List.filterMap_cons_some List.getElem?_cons_zero, List.filterMap_map]
    exact congrArg (x :: ·) ih

namespace Stack

/-- What calls in a row on a walk over a stack bring, and what they leave. -/
structure VisitedOnce (s : Stack) (calls : List Side) : Prop where
  /-- The items from the bottom are the lowest ones, from the bottom up, those from the top the highest ones, from the
  top down, and the items between them have not come. -/
  parted : ∃ between, s.items = Walk.Answer.items (Walk.Answer.ofSide .bottom (s.walk.answers calls)) ++ between ++
    (Walk.Answer.items (Walk.Answer.ofSide .top (s.walk.answers calls))).reverse
  /-- Each call brings the item of the slot that it visits. -/
  shown : ∀ a ∈ s.walk.answers calls, a.item = (a.place.bind (s.slots[·]?)).map Slot.item
  /-- No slot is visited twice. -/
  once : (Walk.Answer.places (s.walk.answers calls)).Nodup
  /-- The items that are left and those that came are together as many as the slots. -/
  left : (s.walk.after calls).remaining + (Walk.Answer.items (s.walk.answers calls)).length = s.depth
  /-- One more call, from either end, brings nothing exactly when as many items came as there are slots. -/
  spent : ∀ side, ((s.walk.after calls).ask side).1 = none ↔
    (Walk.Answer.items (s.walk.answers calls)).length = s.depth
  /-- From then on no further calls bring anything. -/
  ended : ∀ more, (Walk.Answer.items (s.walk.answers calls)).length = s.depth →
    Walk.Answer.items ((s.walk.after calls).answers more) = []

theorem remaining_walk (s : Stack) : s.walk.remaining = s.depth :=
  List.length_map _

/-- A walk that has not begun has all items before it. -/
theorem filterMap_unvisited_walk (s : Stack) : s.walk.unvisited.filterMap (s.items[·]?) = s.items := by
  have hrow : s.walk.unvisited = List.range s.items.length := List.range_eq_range'.symm
  rw [hrow, filterMap_getElem?_range]

theorem drain_walk (s : Stack) (side : Side) : s.walk.drain side = side.order s.items := by
  have hall := s.filterMap_unvisited_walk
  rw [Walk.drain_eq]
  cases side with
  | bottom => exact hall
  | top =>
    rw [Side.order, List.filterMap_reverse]
    exact congrArg List.reverse hall

theorem visitedOnce_walk (s : Stack) (calls : List Side) : s.VisitedOnce calls := by
  have hleft := s.walk.remaining_after calls
  rw [remaining_walk] at hleft
  refine ⟨?_, ?_, s.walk.nodup_places calls, hleft, ?_, ?_⟩
  · exact ⟨_, s.filterMap_unvisited_walk.symm.trans (s.walk.filterMap_unvisited_eq calls)⟩
  · intro a ha
    rw [Walk.item_of_mem_answers ha]
    cases a.place with
    | none => rfl
    | some place => exact List.getElem?_map
  · intro side
    rw [Walk.ask_fst_eq_none_iff]
    omega
  · intro more hdepth
    have hmore := (s.walk.after calls).remaining_after more
    exact List.length_eq_zero_iff.mp (by omega)

end Stack

/-- A walk over a stack visits each slot once, whichever end each call is made from. From the bottom alone it brings the
items from the bottom up, from the top alone in the order in which stacks and reports are shown. -/
theorem slots_visited_once (s : Stack) :
    (∀ calls, s.VisitedOnce calls) ∧
      s.walk.drain .bottom = s.items ∧
      s.walk.drain .top = s.fromTop ∧
      s.text = Text.bracketed ((s.walk.drain .top).map Item.text) ∧
      s.detail = "EvaluationStack \x7b items: ".toList ++ Text.bracketed ((s.walk.drain .top).map Item.text) ++
        ", shared: ".toList ++ Decimal.ofNat s.sharedCount ++
        ", journal: ".toList ++ Decimal.ofNat s.journal.records.length ++ " \x7d".toList ∧
      ∀ e : Ending, e.report.stack = e.machine.main.walk.drain .top ∧
        e.report.target = e.machine.target.walk.drain .top := by
  have htop : ∀ s : Stack, s.walk.drain .top = s.fromTop := fun s => s.drain_walk .top
  refine ⟨s.visitedOnce_walk, s.drain_walk .bottom, htop s, ?_, ?_, ?_⟩
  · rw [htop]
    rfl
  · rw [htop]
    rfl
  · intro e
    rw [htop, htop]
    exact ⟨rfl, rfl⟩

/-- Where the two ends meet, both have nothing more to bring. -/
example (a b c : Item) :
    (Walk.answers { items := [a, b, c] } [.top, .bottom, .top, .bottom, .top]).map Walk.Answer.item =
      [some c, some a, some b, none, none] := by
  cbv

end OperandStack
