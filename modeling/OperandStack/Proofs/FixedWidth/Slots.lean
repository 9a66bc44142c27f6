import OperandStack.Proofs.FixedWidth.Arithmetic
import OperandStack.Stack.Call
import OperandStack.Stack.Copy

/-!
# Slots in words of 64 bits

What calls and copies do to slots, with each sum, difference, cast and position as a machine evaluates it, in the order
of the comparisons that guard it. An index is any signed word and a count any unsigned one. On a stack no deeper than
the largest signed word nothing traps, and each call and each copy does what the exact one does (`FixedWidth.effect_eq`,
`FixedWidth.copyOnto_eq`).
-/

namespace OperandStack

namespace FixedWidth

/-! ## Positions -/

/-- How far from the top an index reaches into a stack. -/
def reach (depth : UInt64) (index : Int64) : Except Trap Int64 :=
  if index < 0 then do
    let size ← signed depth
    addSigned index size
  else .ok index

/-- Whether an index is not negative and at or beyond the depth. -/
def beyond (depth : UInt64) (index : Int64) : Except Trap Bool :=
  if 0 ≤ index then do
    let n ← unsigned index
    .ok (depth ≤ n)
  else .ok false

/-- Whether an index or a count is negative or above the depth. -/
def outside (depth : UInt64) (index : Int64) : Except Trap Bool :=
  if index < 0 then .ok true
  else do
    let n ← unsigned index
    .ok (depth < n)

/-- The position that is so far from the top. -/
def fromTop (depth : UInt64) (distance : Int64) : Except Trap UInt64 := do
  let n ← unsigned distance
  let above ← sub depth n
  sub above 1

/-- The position that a read names. -/
def readPosition (depth : UInt64) (index : Int64) : Except Trap (Except Fault UInt64) := do
  let distance ← reach depth index
  if distance < 0 then .ok (.error (.outOfRange index depth.toNat))
  else
    let out ← beyond depth distance
    if out then .ok (.error (.outOfRange index depth.toNat))
    else
      let position ← fromTop depth distance
      .ok (.ok position)

/-- The position that a removal names. -/
def removalPosition (depth : UInt64) (index : Int64) : Except Trap (Except Fault UInt64) := do
  let out ← beyond depth index
  if out then .ok (.error (.underflow index depth.toNat))
  else
    let distance ← reach depth index
    if distance < 0 then .ok (.error (.outOfRange index depth.toNat))
    else
      let position ← fromTop depth distance
      .ok (.ok position)

/-- The position at which an inserted item stands. -/
def insertionPosition (depth : UInt64) (index : Int64) : Except Trap (Except Fault UInt64) := do
  let out ← outside depth index
  if out then .ok (.error (.outOfRange index depth.toNat))
  else
    let n ← unsigned index
    let position ← sub depth n
    .ok (.ok position)

/-- The same fault, or a word and the position that it stands for. -/
inductive Stands {α : Type} (value : α → Nat) : Except Fault UInt64 → Except Fault α → Prop where
  | fault (f : Fault) : Stands value (.error f) (.error f)
  | position {w : UInt64} {p : α} (h : w.toNat = value p) : Stands value (.ok w) (.ok p)

theorem lt_zero_iff (i : Int64) : i < 0 ↔ i.toInt < 0 := by
  rw [Int64.lt_iff_toInt_lt, Int64.toInt_zero]

theorem zero_le_iff (i : Int64) : 0 ≤ i ↔ 0 ≤ i.toInt := by
  rw [Int64.le_iff_toInt_le, Int64.toInt_zero]

theorem beyond_eq (depth : UInt64) (index : Int64) :
    beyond depth index = .ok (decide ((depth.toNat : Int) ≤ index.toInt)) := by
  by_cases hnonneg : 0 ≤ index
  · have hint := (zero_le_iff index).mp hnonneg
    obtain ⟨n, hn, hvalue⟩ := unsigned_eq hint
    have hiff : depth ≤ n ↔ (depth.toNat : Int) ≤ index.toInt := by
      rw [UInt64.le_iff_toNat_le, hvalue]
      omega
    rw [beyond, if_pos hnonneg, hn]
    simp only [bind, Except.bind, hiff]
  · have hint : ¬0 ≤ index.toInt := by rwa [zero_le_iff] at hnonneg
    rw [beyond, if_neg hnonneg, decide_eq_false (by omega)]

theorem outside_eq (depth : UInt64) (index : Int64) :
    outside depth index = .ok (decide (index.toInt < 0 ∨ (depth.toNat : Int) < index.toInt)) := by
  by_cases hneg : index < 0
  · have hint := (lt_zero_iff index).mp hneg
    rw [outside, if_pos hneg, decide_eq_true (Or.inl hint)]
  · have hint : ¬index.toInt < 0 := by rwa [lt_zero_iff] at hneg
    obtain ⟨n, hn, hvalue⟩ := unsigned_eq (i := index) (by omega)
    have hiff : depth < n ↔ index.toInt < 0 ∨ (depth.toNat : Int) < index.toInt := by
      rw [UInt64.lt_iff_toNat_lt, hvalue]
      omega
    rw [outside, if_neg hneg, hn]
    simp only [bind, Except.bind, hiff]

theorem fromTop_eq {depth : UInt64} {distance : Int64} (hnonneg : 0 ≤ distance.toInt)
    (hlt : distance.toInt < depth.toNat) : ∃ position, fromTop depth distance = .ok position ∧
      position.toNat = depth.toNat - distance.toInt.toNat - 1 := by
  obtain ⟨n, hn, hvalue⟩ := unsigned_eq hnonneg
  obtain ⟨above, habove, hdiff⟩ := sub_eq (a := depth) (b := n) (by omega)
  obtain ⟨position, hposition, hexact⟩ := sub_one_eq (a := above) (by omega)
  refine ⟨position, ?_, ?_⟩
  · rw [fromTop, hn]
    simp only [bind, Except.bind, habove, hposition]
  · rw [hexact, hdiff, hvalue]

/-- Below the depth, an index or a count that is not outside leaves a difference. -/
theorem sub_unsigned_eq {depth : UInt64} {index : Int64}
    (h : ¬(index.toInt < 0 ∨ (depth.toNat : Int) < index.toInt)) :
    ∃ n position, unsigned index = .ok n ∧ sub depth n = .ok position ∧
      position.toNat = depth.toNat - index.toInt.toNat := by
  obtain ⟨n, hn, hvalue⟩ := unsigned_eq (i := index) (by omega)
  obtain ⟨position, hposition, hexact⟩ := sub_eq (a := depth) (b := n) (by omega)
  exact ⟨n, position, hn, hposition, by rw [hexact, hvalue]⟩

theorem insertionPosition_eq (depth : UInt64) (index : Int64) : ∃ result,
    insertionPosition depth index = .ok result ∧ Stands id result (Position.insertion depth.toNat index) := by
  rw [insertionPosition, outside_eq, Position.insertion]
  simp only [bind, Except.bind, decide_eq_true_eq]
  by_cases hout : index.toInt < 0 ∨ (depth.toNat : Int) < index.toInt
  · simp only [if_pos hout]
    exact ⟨_, rfl, .fault _⟩
  · obtain ⟨n, position, hn, hposition, hexact⟩ := sub_unsigned_eq hout
    simp only [if_neg hout, hn, hposition]
    exact ⟨_, rfl, .position hexact⟩

section

variable {depth : UInt64} (hdepth : depth.toNat ≤ signedMax)
include hdepth

/-- A negative index and a depth have a sum, as the depth is a signed word. -/
theorem reach_eq (index : Int64) :
    ∃ distance, reach depth index = .ok distance ∧ distance.toInt = Position.reach depth.toNat index := by
  by_cases hneg : index < 0
  · have hint := (lt_zero_iff index).mp hneg
    have hmin := index.le_toInt
    obtain ⟨size, hsize, hvalue⟩ := signed_eq hdepth
    rw [signedMax] at hdepth
    obtain ⟨distance, hsum, hexact⟩ := addSigned_eq (a := index) (b := size) (by omega) (by omega)
    refine ⟨distance, ?_, ?_⟩
    · rw [reach, if_pos hneg, hsize]
      exact hsum
    · rw [hexact, Position.reach, if_pos hint, hvalue]
  · refine ⟨index, if_neg hneg, ?_⟩
    rw [Position.reach, if_neg (by rwa [lt_zero_iff] at hneg)]

theorem readPosition_eq (index : Int64) : ∃ result,
    readPosition depth index = .ok result ∧ Stands Fin.val result (Position.read depth.toNat index) := by
  obtain ⟨distance, hreach, hdistance⟩ := reach_eq hdepth index
  rw [readPosition, hreach, Position.read]
  simp only [bind, Except.bind, lt_zero_iff, beyond_eq, decide_eq_true_eq]
  by_cases hneg : distance.toInt < 0
  · rw [if_pos hneg, dif_neg (by omega)]
    exact ⟨_, rfl, .fault _⟩
  · by_cases hbeyond : (depth.toNat : Int) ≤ distance.toInt
    · rw [if_neg hneg, if_pos hbeyond, dif_neg (by omega)]
      exact ⟨_, rfl, .fault _⟩
    · have hnonneg : 0 ≤ distance.toInt := by omega
      have hlt : distance.toInt < depth.toNat := by omega
      obtain ⟨position, hposition, hexact⟩ := fromTop_eq hnonneg hlt
      rw [hdistance] at hexact
      rw [if_neg hneg, if_neg hbeyond, dif_pos (by omega), hposition]
      exact ⟨_, rfl, .position hexact⟩

theorem removalPosition_eq (index : Int64) : ∃ result,
    removalPosition depth index = .ok result ∧ Stands Fin.val result (Position.removal depth.toNat index) := by
  obtain ⟨distance, hreach, hdistance⟩ := reach_eq hdepth index
  rw [removalPosition, hreach, Position.removal]
  simp only [bind, Except.bind, lt_zero_iff, beyond_eq, decide_eq_true_eq]
  by_cases hbeyond : (depth.toNat : Int) ≤ index.toInt
  · rw [if_pos hbeyond, dif_pos hbeyond]
    exact ⟨_, rfl, .fault _⟩
  · by_cases hneg : distance.toInt < 0
    · rw [if_neg hbeyond, if_pos hneg, dif_neg hbeyond, dif_pos (hdistance ▸ hneg)]
      exact ⟨_, rfl, .fault _⟩
    · have hnonneg : 0 ≤ distance.toInt := by omega
      have hlt : distance.toInt < depth.toNat := by
        rw [hdistance, Position.reach] at hneg ⊢
        split at hneg <;> split <;> omega
      obtain ⟨position, hposition, hexact⟩ := fromTop_eq hnonneg hlt
      rw [hdistance] at hexact
      rw [if_neg hbeyond, if_neg hneg, dif_neg hbeyond, dif_neg (hdistance ▸ hneg), hposition]
      exact ⟨_, rfl, .position hexact⟩

end

/-! ## The parts of calls that can fail -/

/-- The slot at an index and the slots without it, if the view accepts its item. -/
def take (view : View) (index : Int64) (slots : List Slot) : Except Trap (Except Fault (Slot × List Slot)) := do
  let depth ← word slots.length
  match ← removalPosition depth index with
  | .error fault => .ok (.error fault)
  | .ok position =>
    let slot ← get slots position
    if view.accepts slot.item.kind then
      let rest ← without slots position
      .ok (.ok (slot, rest))
    else .ok (.error (.mismatch view slot.item.kind))

/-- The item at an index. -/
def look (index : Int64) (slots : List Slot) : Except Trap (Except Fault Item) := do
  let depth ← word slots.length
  match ← readPosition depth index with
  | .error fault => .ok (.error fault)
  | .ok position =>
    let slot ← get slots position
    .ok (.ok slot.item)

/-- The slots with an owned slot for an item at an index. -/
def place (index : Int64) (item : Item) (slots : List Slot) : Except Trap (Except Fault (List Slot)) := do
  let depth ← word slots.length
  match ← insertionPosition depth index with
  | .error fault => .ok (.error fault)
  | .ok position =>
    let after ← insertAt slots position { item }
    .ok (.ok after)

/-- The slots with the top ones turned over; one or none is left as it is. -/
def turn (count : Int64) (slots : List Slot) : Except Trap (Except Fault (List Slot)) := do
  let depth ← word slots.length
  let out ← outside depth count
  if out then .ok (.error (.badReverse count depth.toNat))
  else if count ≤ 1 then .ok (.ok slots)
  else
    let n ← unsigned count
    let position ← sub depth n
    let (below, top) ← splitAt slots position
    .ok (.ok (below ++ top.reverse))

section

variable {slots : List Slot} (hdepth : slots.length ≤ signedMax)
include hdepth

theorem depth_eq : ∃ depth, word slots.length = .ok depth ∧ depth.toNat = slots.length := by
  rw [signedMax] at hdepth
  have hsize : UInt64.size = 2 ^ 64 := rfl
  exact word_eq (by omega)

theorem take_eq (view : View) (index : Int64) : take view index slots = .ok (Call.take view index slots) := by
  obtain ⟨depth, hword, hlength⟩ := depth_eq hdepth
  obtain ⟨result, hresult, hstands⟩ := removalPosition_eq (hlength ▸ hdepth) index
  rw [take, Call.take, hword]
  simp only [bind, Except.bind, hresult]
  rw [hlength] at hstands
  generalize Position.removal slots.length index = exact at hstands
  cases hstands with
  | fault f => rfl
  | @position w p h =>
    have hlt : w.toNat < slots.length := h ▸ p.isLt
    simp only [get_eq hlt, without_eq hlt, h, Fin.getElem_fin]
    split <;> rfl

theorem look_eq (index : Int64) : look index slots = .ok (Call.look index slots) := by
  obtain ⟨depth, hword, hlength⟩ := depth_eq hdepth
  obtain ⟨result, hresult, hstands⟩ := readPosition_eq (hlength ▸ hdepth) index
  rw [look, Call.look, hword]
  simp only [bind, Except.bind, hresult]
  rw [hlength] at hstands
  generalize Position.read slots.length index = exact at hstands
  cases hstands with
  | fault f => rfl
  | @position w p h =>
    have hlt : w.toNat < slots.length := h ▸ p.isLt
    simp only [get_eq hlt, h, Fin.getElem_fin]

theorem place_eq (index : Int64) (item : Item) : place index item slots = .ok (Call.place index item slots) := by
  obtain ⟨depth, hword, hlength⟩ := depth_eq hdepth
  obtain ⟨result, hresult, hstands⟩ := insertionPosition_eq depth index
  rw [place, Call.place, hword]
  simp only [bind, Except.bind, hresult]
  have hle : ∀ p, Position.insertion slots.length index = .ok p → p ≤ slots.length := by
    intro p hp
    rw [Position.insertion] at hp
    split at hp
    · cases hp
    · cases hp
      exact Nat.sub_le _ _
  rw [hlength] at hstands
  generalize Position.insertion slots.length index = exact at hstands hle
  cases hstands with
  | fault f => rfl
  | @position w p h =>
    have hw : w.toNat ≤ slots.length := h ▸ hle p rfl
    simp only [insertAt_eq hw, h, id]

omit hdepth in
/-- Turning over one slot or none changes nothing. -/
theorem reverse_eq_self {slots : List Slot} (h : slots.length ≤ 1) : slots.reverse = slots := by
  rcases slots with _ | ⟨slot, _ | ⟨other, rest⟩⟩
  · rfl
  · rfl
  · rw [List.length_cons, List.length_cons] at h
    omega

theorem turn_eq (count : Int64) : turn count slots = .ok (Call.turn count slots) := by
  obtain ⟨depth, hword, hlength⟩ := depth_eq hdepth
  rw [turn, Call.turn, Position.reversal, hword]
  simp only [bind, Except.bind, outside_eq, decide_eq_true_eq, hlength]
  by_cases hout : count.toInt < 0 ∨ (slots.length : Int) < count.toInt
  · simp only [if_pos hout]
  · simp only [if_neg hout]
    by_cases hone : count ≤ 1
    · have hint : count.toInt ≤ 1 := Int64.le_iff_toInt_le.mp hone
      have hfew : (slots.drop (slots.length - count.toInt.toNat)).length ≤ 1 := by
        rw [List.length_drop]
        omega
      rw [if_pos hone, reverse_eq_self hfew, List.take_append_drop]
    · have hout' : ¬(count.toInt < 0 ∨ (depth.toNat : Int) < count.toInt) := by rwa [hlength]
      obtain ⟨n, position, hn, hposition, hexact⟩ := sub_unsigned_eq hout'
      rw [hlength] at hexact
      have hle : position.toNat ≤ slots.length := by omega
      simp only [if_neg hone, hn, hposition, splitAt_eq hle, hexact]

end

/-! ## The effects of calls -/

/-- A removal that answers a failure with a fault. -/
def removal (op : Journal.Op) (view : View) (index : Int64) (slots : List Slot) : Except Trap Effect := do
  match ← take view index slots with
  | .ok (slot, rest) => .ok (Call.taken index slot rest)
  | .error fault => .ok (Call.refused op slots fault)

/-- A removal that answers a failure with the lack of an item. -/
def tryRemoval (view : View) (index : Int64) (slots : List Slot) : Except Trap Effect := do
  match ← take view index slots with
  | .ok (slot, rest) => .ok (Call.taken index slot rest)
  | .error _ => .ok (Call.declined .missing slots)

/-- A read that answers a failure with a fault and reports it. -/
def reading (index : Int64) (slots : List Slot) : Except Trap Effect := do
  match ← look index slots with
  | .ok item => .ok (Call.declined (.item item) slots)
  | .error fault => .ok { reply := .fault fault, slots, event := some (.failedPeek fault) }

/-- The number of slots after one more came. -/
def deeper (slots : List Slot) : Except Trap UInt64 := do
  let depth ← word slots.length
  add depth 1

/-- What a call does to the slots it finds. -/
def effect (slots : List Slot) : Call → Except Trap Effect
  | .push item => do
    let depth ← deeper slots
    .ok { reply := .done, slots := slots ++ [{ item }], notices := [.added item]
          event := some (.pushed item depth.toNat) }
  | .insert index item => do
    match ← place index item slots with
    | .ok after =>
      let depth ← deeper slots
      .ok { reply := .done, slots := after, notices := [.added item]
            event := some (.inserted item index depth.toNat) }
    | .error fault => .ok (Call.refused .insert slots fault)
  | .pop => removal .pop .any 0 slots
  | .popAs view => removal .pop view 0 slots
  | .tryPop => tryRemoval .any 0 slots
  | .tryPopAs view => tryRemoval view 0 slots
  | .remove index view => removal .remove view index slots
  | .tryRemove index view => tryRemoval view index slots
  | .peek index => reading index slots
  | .peekTop => reading 0 slots
  | .tryPeek index => do
    match ← look index slots with
    | .ok item => .ok (Call.declined (.item item) slots)
    | .error _ => .ok (Call.declined .missing slots)
  | .peekQuiet index => do
    match ← look index slots with
    | .ok item => .ok (Call.declined (.item item) slots)
    | .error fault => .ok (Call.declined (.fault fault) slots)
  | .reverse count => do
    match ← turn count slots with
    | .ok after => .ok { reply := .done, slots := after }
    | .error fault => .ok (Call.refused .reverse slots fault)
  | .tryReverse count => do
    match ← turn count slots with
    | .ok after => .ok { reply := .flag true, slots := after }
    | .error _ => .ok (Call.declined (.flag false) slots)
  | .clear =>
    .ok { reply := .done, slots := [], notices := slots.flatMap Slot.release, event := some (.cleared slots.length) }

section

variable {slots : List Slot} (hdepth : slots.length ≤ signedMax)
include hdepth

theorem removal_eq (op : Journal.Op) (view : View) (index : Int64) :
    removal op view index slots = .ok (Call.removal op view index slots) := by
  rw [removal, Call.removal, take_eq hdepth]
  cases Call.take view index slots <;> rfl

theorem tryRemoval_eq (view : View) (index : Int64) :
    tryRemoval view index slots = .ok (Call.tryRemoval view index slots) := by
  rw [tryRemoval, Call.tryRemoval, take_eq hdepth]
  cases Call.take view index slots <;> rfl

theorem reading_eq (index : Int64) : reading index slots = .ok (Call.reading index slots) := by
  rw [reading, Call.reading, look_eq hdepth]
  cases Call.look index slots <;> rfl

theorem deeper_eq : ∃ depth, deeper slots = .ok depth ∧ depth.toNat = slots.length + 1 := by
  have hsize : UInt64.size = 2 ^ 64 := rfl
  rw [signedMax] at hdepth
  obtain ⟨depth, next, hword, hadd, hexact⟩ := word_add_one_eq (n := slots.length) (by omega)
  refine ⟨next, ?_, hexact⟩
  rw [deeper, hword]
  exact hadd

/-- On a stack that is no deeper than the largest signed word no call traps, and each does what the exact one does. -/
theorem effect_eq (c : Call) : effect slots c = .ok (c.effect slots) := by
  cases c with
  | push item =>
    obtain ⟨depth, hdeeper, hlength⟩ := deeper_eq hdepth
    simp only [effect, Call.effect, hdeeper, hlength, bind, Except.bind]
  | insert index item =>
    obtain ⟨depth, hdeeper, hlength⟩ := deeper_eq hdepth
    simp only [effect, Call.effect, place_eq hdepth, hdeeper, hlength, bind, Except.bind]
    cases Call.place index item slots <;> rfl
  | pop => exact removal_eq hdepth _ _ _
  | popAs view => exact removal_eq hdepth _ _ _
  | tryPop => exact tryRemoval_eq hdepth _ _
  | tryPopAs view => exact tryRemoval_eq hdepth _ _
  | remove index view => exact removal_eq hdepth _ _ _
  | tryRemove index view => exact tryRemoval_eq hdepth _ _
  | peek index => exact reading_eq hdepth _
  | peekTop => exact reading_eq hdepth _
  | tryPeek index =>
    simp only [effect, Call.effect, look_eq hdepth, bind, Except.bind]
    cases Call.look index slots <;> rfl
  | peekQuiet index =>
    simp only [effect, Call.effect, look_eq hdepth, bind, Except.bind]
    cases Call.look index slots <;> rfl
  | reverse count =>
    simp only [effect, Call.effect, turn_eq hdepth, bind, Except.bind]
    cases Call.turn count slots <;> rfl
  | tryReverse count =>
    simp only [effect, Call.effect, turn_eq hdepth, bind, Except.bind]
    cases Call.turn count slots <;> rfl
  | clear => rfl

end

/-! ## Copies -/

/-- The number of items that a copy takes. -/
def copyCount (depth : UInt64) (count : Option UInt64) : UInt64 :=
  if count.getD depth ≤ depth then count.getD depth else depth

/-- A target after a copy from a source, with the event that reports it. -/
def copyOnto (source : Stack) (count : Option UInt64) (target : Stack) : Except Trap (Stack × Option Event) := do
  let depth ← word source.slots.length
  let n := copyCount depth count
  if n = 0 then .ok (target, none)
  else
    let start ← sub depth n
    let (_, top) ← splitAt source.slots start
    let slots := target.slots ++ top.map fun slot => { slot with owned := false }
    .ok ({ target with slots }, some (.copied n.toNat slots.length))

theorem copyCount_eq {depth : UInt64} {source : Stack} (hlength : depth.toNat = source.slots.length)
    (count : Option UInt64) : (copyCount depth count).toNat = source.copyCount count := by
  cases count with
  | none => rw [copyCount, Option.getD_none, ite_self, hlength, Stack.copyCount, Stack.depth]
  | some n =>
    rw [copyCount, Option.getD_some, Stack.copyCount, Stack.depth, ← hlength]
    by_cases hle : n ≤ depth
    · rw [if_pos hle, Nat.min_eq_left (UInt64.le_iff_toNat_le.mp hle)]
    · have hlt : ¬n.toNat ≤ depth.toNat := by rwa [UInt64.le_iff_toNat_le] at hle
      rw [if_neg hle, Nat.min_eq_right (Nat.le_of_not_le hlt)]

theorem copyOnto_eq {source : Stack} (hdepth : source.slots.length ≤ signedMax) (count : Option UInt64)
    (target : Stack) : copyOnto source count target = .ok (source.copyOnto count target) := by
  obtain ⟨depth, hword, hlength⟩ := depth_eq hdepth
  have hcount := copyCount_eq hlength count
  have hiff : copyCount depth count = 0 ↔ source.copyCount count = 0 := by
    rw [← hcount, ← UInt64.toNat_inj]
    rfl
  rw [copyOnto, Stack.copyOnto, hword]
  simp only [bind, Except.bind]
  by_cases hzero : source.copyCount count = 0
  · rw [if_pos (hiff.mpr hzero), if_pos hzero]
  · have hle : source.copyCount count ≤ source.slots.length := by
      cases count with
      | none => exact Nat.le_refl _
      | some n => exact Nat.min_le_right _ _
    obtain ⟨start, hstart, hexact⟩ := sub_eq (a := depth) (b := copyCount depth count) (by omega)
    rw [hcount, hlength] at hexact
    have hbound : start.toNat ≤ source.slots.length := by omega
    rw [if_neg (hiff.not.mpr hzero), if_neg hzero, hstart]
    simp only [splitAt_eq hbound, hexact, hcount]
    rfl

end FixedWidth

end OperandStack
