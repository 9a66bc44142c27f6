import OperandStack.Proofs.FixedWidth.World
import OperandStack.Proofs.Placement
import OperandStack.Proofs.Seam

/-!
# Scripts in words of 64 bits

Reading and running scripts with their arithmetic in words. A run adds at most one reference with each line, every slot
of the main stack is owned, and the tally counts just these: so the depth of the main stack, the additions and the
removals are all bounded by the number of lines, and as no list is longer than the largest signed word there is room for
them (`Machine.Room`). `FixedWidth.nothing_traps` puts this together with what holds of any stacks and counters.
-/

namespace OperandStack

namespace FixedWidth

/-! ## Reading -/

/-- The commands of lines of which as many as `i` came before. -/
def readFrom (i : UInt64) : List Text → Except Trap (Except ScriptError (List Line))
  | [] => .ok (.ok [])
  | t :: rest => do
    let number ← add i 1
    match Script.readLine t with
    | .error cause => .ok (.error { line := number.toNat, cause })
    | .ok none => readFrom number rest
    | .ok (some command) => do
      let lines ← readFrom number rest
      .ok (({ number := number.toNat, command } :: ·) <$> lines)

theorem readFrom_eq {i : UInt64} {ts : List Text} (h : i.toNat + ts.length < UInt64.size) :
    readFrom i ts = .ok (Script.readFrom (i.toNat + 1) ts) := by
  induction ts generalizing i with
  | nil => rfl
  | cons t rest ih =>
    rw [List.length_cons] at h
    obtain ⟨number, hadd, hexact⟩ := add_one_eq (a := i) (by omega)
    have hrest := ih (i := number) (by omega)
    rw [hexact] at hrest
    simp only [readFrom, Script.readFrom, hadd, hexact, bind, Except.bind]
    cases Script.readLine t with
    | error cause => rfl
    | ok content =>
      cases content with
      | none => exact hrest
      | some command => simp only [hrest]

/-! ## Lines -/

/-- A call on the main stack. -/
def callMain (m : Machine) (c : Call) : Except Trap (Reply × Machine) := do
  let step ← call m.main m.tally c
  .ok (step.reply, { m with main := step.stack, tally := step.listener, log := m.log ++ step.events })

/-- A call of which only the failure matters. -/
def change (m : Machine) (c : Call) : Except Trap (Except Fault Unit × Machine) := do
  match ← callMain m c with
  | (.fault f, m) => .ok (.error f, m)
  | (_, m) => .ok (.ok (), m)

/-- A call whose answer is observed. -/
def observe (m : Machine) (line : Line) (c : Call) : Except Trap (Except Fault Unit × Machine) := do
  match ← callMain m c with
  | (.fault f, m) => .ok (.error f, m)
  | (.item x, m) => .ok (.ok (), m.note line x.text)
  | (.missing, m) => .ok (.ok (), m.note line "none".toList)
  | (_, m) => .ok (.ok (), m)

/-- Pops in a row, none of which may fail. -/
def popMany (m : Machine) : Nat → Except Trap (List Item × Machine)
  | 0 => .ok ([], m)
  | n + 1 => do
    match ← callMain m .pop with
    | (.item x, m) =>
      let (below, m) ← popMany m n
      .ok (below ++ [x], m)
    | _ => .error .failedPop

/-- The index of the last of a number of items from the top, or the largest index where the number itself is larger. -/
def lastIndex (size : UInt64) : Except Trap Int64 :=
  if size.toNat ≤ signedMax then do
    let n ← signed size
    subSigned n 1
  else .ok Int64.maxValue

/-- A compound push. -/
def wrap (m : Machine) (supply : Nat → Nat) (size : UInt64) (compound : List Item → Value Item) :
    Except Trap (Except Fault Unit × Machine) := do
  let depth ← word m.main.slots.length
  if depth < size then
    let index ← lastIndex size
    .ok (.error (.underflow index depth.toNat), m)
  else
    let (items, m) ← popMany m size.toNat
    let (item, m) := m.create supply (compound items)
    change m (.push item)

/-- A copy from the main stack onto the target. -/
def copy (m : Machine) (count : Option UInt64) : Except Trap Machine := do
  let (target, event) ← copyOnto m.main count m.target
  .ok { m with target, log := m.log ++ event.toList }

/-- The command of a line, without the check that follows it. -/
def execute (m : Machine) (supply : Nat → Nat) (line : Line) : Except Trap (Except Fault Unit × Machine) :=
  match line.command with
  | .push literal =>
    let (item, m) := m.create supply literal.value
    change m (.push item)
  | .pushArray size => wrap m supply size .array
  | .pushStruct size => wrap m supply size .struct
  | .pop view => observe m line (.popAs view)
  | .tryPop view => observe m line (.tryPopAs view)
  | .peek index => observe m line (.peek index)
  | .peekQuiet index => observe m line (.peekQuiet index)
  | .insert index literal =>
    let (item, m) := m.create supply literal.value
    change m (.insert index item)
  | .remove index view => observe m line (.remove index view)
  | .reverse count => change m (.reverse count)
  | .clear => change m .clear
  | .copy count => do
    let m ← copy m count
    .ok (.ok (), m)

/-- A line and the check of the ceiling. -/
def step (m : Machine) (supply : Nat → Nat) (line : Line) : Except Trap (Except Fault Unit × Machine) := do
  match ← execute (m.announced line) supply line with
  | (.error f, m) => .ok (.error f, m.logged (.stopped line.number f))
  | (.ok (), m) =>
    match m.tally.check with
    | .error f => .ok (.error f, m.logged (.stopped line.number f))
    | .ok () => .ok (.ok (), m)

/-- The lines of a script in order, up to the first fault, where as many as `executed` have passed before. -/
def run (executed : UInt64) (m : Machine) (supply : Nat → Nat) : List Line → Except Trap Ending
  | [] => .ok { executed := executed.toNat, stop := none, machine := m }
  | line :: rest => do
    match ← step m supply line with
    | (.error f, m) => .ok { executed := executed.toNat, stop := some (line, f), machine := m }
    | (.ok (), m) =>
      let next ← add executed 1
      run next m supply rest

end FixedWidth

/-! ## Room -/

/-- A call has a counter hear of at most as many additions as it brings items. -/
theorem Call.countP_added_le (slots : List Slot) (c : Call) :
    ((c.effect slots).notices.countP fun n => !n.isRemoval) ≤ c.item?.toList.length := by
  rcases (c.effect_change slots).oneWay with ⟨x, hx⟩ | hremovals
  · rw [hx, item?_of_notices_eq hx]
    exact Nat.le_refl 1
  · have hnone : ((c.effect slots).notices.countP fun n => !n.isRemoval) = 0 :=
      List.countP_eq_zero.mpr fun n hn => by simp [hremovals n hn]
    rw [hnone]
    exact Nat.zero_le _

namespace Machine

theorem adds_call_le (m : Machine) (c : Call) :
    (m.call c).2.tally.adds ≤ m.tally.adds + c.item?.toList.length := by
  have hadds : (m.call c).2.tally.adds = m.tally.adds + _ :=
    Listener.adds_receiveAll m.tally (c.effect m.main.slots).notices
  rw [hadds]
  exact Nat.add_le_add_left (c.countP_added_le m.main.slots) _

theorem adds_change_le (m : Machine) (c : Call) :
    (m.change c).2.tally.adds ≤ m.tally.adds + c.item?.toList.length := by
  rw [change_eq]
  exact m.adds_call_le c

theorem adds_observe_le (m : Machine) (line : Line) (c : Call) :
    (m.observe line c).2.tally.adds ≤ m.tally.adds + c.item?.toList.length := by
  have hcall := m.adds_call_le c
  rw [observe_eq]
  cases (m.call c).1.shown? <;> exact hcall

theorem adds_popped_le (m : Machine) (n : Nat) : (m.popped n).tally.adds ≤ m.tally.adds := by
  induction n generalizing m with
  | zero => exact Nat.le_refl _
  | succ n ih => exact (ih _).trans (m.adds_call_le .pop)

theorem adds_wrap_le (m : Machine) (supply : Nat → Nat) (size : UInt64) (compound : List Item → Value Item) :
    (m.wrap supply size compound).2.tally.adds ≤ m.tally.adds + 1 := by
  by_cases h : m.main.depth < size.toNat
  · rw [wrap_of_lt h]
    exact Nat.le_succ _
  · rw [wrap_of_le (Nat.not_lt.mp h)]
    exact (adds_call_le _ _).trans (Nat.succ_le_succ (m.adds_popped_le _))

/-- A command adds at most one reference. -/
theorem adds_execute_le (m : Machine) (supply : Nat → Nat) (line : Line) :
    (m.execute supply line).2.tally.adds ≤ m.tally.adds + 1 := by
  obtain ⟨number, command⟩ := line
  cases command with
  | push literal => exact adds_change_le _ _
  | pushArray size => exact m.adds_wrap_le supply size _
  | pushStruct size => exact m.adds_wrap_le supply size _
  | insert index literal => exact adds_change_le _ (.insert index _)
  | pop view => exact (m.adds_observe_le _ _).trans (Nat.le_succ _)
  | tryPop view => exact (m.adds_observe_le _ _).trans (Nat.le_succ _)
  | peek index => exact (m.adds_observe_le _ _).trans (Nat.le_succ _)
  | peekQuiet index => exact (m.adds_observe_le _ _).trans (Nat.le_succ _)
  | remove index view => exact (m.adds_observe_le _ _).trans (Nat.le_succ _)
  | reverse count => exact (m.adds_change_le _).trans (Nat.le_succ _)
  | clear => exact (m.adds_change_le _).trans (Nat.le_succ _)
  | copy count => exact Nat.le_succ _

theorem adds_step_le (m : Machine) (supply : Nat → Nat) (line : Line) :
    (m.step supply line).2.tally.adds ≤ m.tally.adds + 1 :=
  step_keeps (P := fun after => after.tally.adds ≤ m.tally.adds + 1) (fun _ h => h)
    (adds_execute_le (m.announced line) supply line)

/-- A machine with room for so many more additions: its tally counts the items of the main stack, all of them owned, and
its additions stay within the largest signed word. -/
structure Room (m : Machine) (n : Nat) : Prop where
  held : Held m.main m.target m.tally
  adds_le : m.tally.adds + n ≤ FixedWidth.signedMax

namespace Room

variable {m : Machine} {n : Nat}

theorem mono {k : Nat} (h : m.Room n) (hk : k ≤ n) : m.Room k :=
  ⟨h.held, (Nat.add_le_add_left hk _).trans h.adds_le⟩

theorem sound (h : m.Room n) : m.tally.Sound where
  keeps := ⟨m.main.items.map Item.id, h.held.exact.counts, by rw [h.held.exact.references, List.length_map]⟩
  references_le := by
    rw [h.held.exact.adds]
    exact Nat.le_add_right _ _

theorem depth_le (h : m.Room n) : m.main.slots.length ≤ FixedWidth.signedMax := by
  have hreferences : m.tally.references = m.main.slots.length := h.held.references_eq
  have hadds := h.held.exact.adds
  have hroom := h.adds_le
  omega

/-- What a machine with room has heard of fits a word. -/
theorem heard_lt (h : m.Room n) : m.tally.adds + m.tally.removes < UInt64.size := by
  have hadds := h.held.exact.adds
  have hroom := h.adds_le
  have hsize : UInt64.size = 2 ^ 64 := rfl
  rw [FixedWidth.signedMax] at hroom
  omega

theorem call {c : Call} (h : m.Room (c.item?.toList.length + n)) : (m.call c).2.Room n := by
  refine ⟨h.held.call c, ?_⟩
  have hadds := m.adds_call_le c
  have hroom := h.adds_le
  omega

theorem step (h : m.Room (n + 1)) (supply : Nat → Nat) (line : Line) : (m.step supply line).2.Room n := by
  refine ⟨(step_moves m supply line).held h.held, ?_⟩
  have hadds := m.adds_step_le supply line
  have hroom := h.adds_le
  omega

end Room

end Machine

namespace FixedWidth

variable {m : Machine}

/-! ## Lines with room -/

theorem callMain_eq {c : Call} (h : m.Room c.item?.toList.length) : callMain m c = .ok (m.call c) := by
  have hheard : receiveAll m.tally (c.effect m.main.slots).notices = .ok (Listener.receiveAll m.tally _) :=
    receiveAll_tally h.sound (Machine.Room.call (n := 0) h).heard_lt
  rw [callMain, call_eq h.depth_le hheard]
  rfl

theorem change_eq {c : Call} (h : m.Room c.item?.toList.length) : change m c = .ok (m.change c) := by
  rw [change, Machine.change, callMain_eq h]
  rcases m.call c with ⟨reply, after⟩
  cases reply <;> rfl

theorem observe_eq (line : Line) {c : Call} (h : m.Room c.item?.toList.length) :
    observe m line c = .ok (m.observe line c) := by
  rw [observe, Machine.observe, callMain_eq h]
  rcases m.call c with ⟨reply, after⟩
  cases reply <;> rfl

/-- Pops in a row do not fail on a stack that is deep enough. -/
theorem popMany_eq {n : Nat} (h : m.Room 0) (hn : n ≤ m.main.depth) {items : List Item} {after : Machine}
    (hexact : m.popMany n = (.ok items, after)) : popMany m n = .ok (items, after) := by
  induction n generalizing m items after with
  | zero =>
    cases hexact
    rfl
  | succ n ih =>
    obtain ⟨below, top, hs, hb⟩ := Machine.exists_top hn
    obtain ⟨hreply, hslots⟩ := Machine.call_pop hs
    have hpop : m.call .pop = (.item top.item, (m.call .pop).2) := by rw [← hreply]
    have hdepth : n ≤ (m.call .pop).2.main.depth := by
      rw [Stack.depth, hslots]
      exact hb
    have hrest := Machine.popMany_of_le hdepth
    rw [Machine.popMany, hpop] at hexact
    simp only [hrest] at hexact
    cases hexact
    rw [popMany, callMain_eq (c := .pop) h, hpop]
    simp only [bind, Except.bind, ih (Machine.Room.call (c := .pop) (n := 0) h) hdepth hrest]

theorem lastIndex_eq (size : UInt64) : lastIndex size = .ok (Machine.lastIndex size) := by
  have hmax : Int64.maxValue.toInt = 2 ^ 63 - 1 := Int64.toInt_maxValue
  have hone : (1 : Int64).toInt = 1 := rfl
  have hsize : (Int64.size : Int) = 2 ^ 64 := rfl
  rw [lastIndex, Machine.lastIndex]
  by_cases h : size.toNat ≤ signedMax
  · have hbound := h
    rw [signedMax] at hbound
    obtain ⟨n, hn, hvalue⟩ := signed_eq h
    obtain ⟨index, hsub, hexact⟩ := subSigned_eq (a := n) (b := 1) (by omega) (by omega)
    have hindex : index = Int64.ofInt (size.toNat - 1) := by
      rw [← Int64.toInt_inj, hexact, hvalue, hone, Int64.toInt_ofInt]
      exact (Int.bmod_eq_of_le (by omega) (by omega)).symm
    rw [if_pos h, if_pos (by omega), hn, ← hindex]
    exact hsub
  · have hbound := h
    rw [signedMax] at hbound
    rw [if_neg h, if_neg (by omega)]

theorem wrap_eq (h : m.Room 1) (supply : Nat → Nat) (size : UInt64) (compound : List Item → Value Item) :
    wrap m supply size compound = .ok (m.wrap supply size compound) := by
  obtain ⟨depth, hword, hlength⟩ := depth_eq h.depth_le
  have hdepth : m.main.depth = depth.toNat := hlength.symm
  have hiff : depth < size ↔ m.main.depth < size.toNat := by rw [UInt64.lt_iff_toNat_lt, hdepth]
  rw [wrap, hword]
  simp only [bind, Except.bind, hiff, lastIndex_eq]
  by_cases hshort : m.main.depth < size.toNat
  · rw [if_pos hshort, Machine.wrap_of_lt hshort, hdepth]
  · have hpops := Machine.popMany_of_le (Nat.not_lt.mp hshort)
    have hroom : ((m.popped size.toNat).create supply
        (compound (m.main.items.drop (m.main.depth - size.toNat)))).2.Room 1 :=
      ⟨(Machine.popped_moves m _).held h.held,
        (Nat.add_le_add_right (m.adds_popped_le size.toNat) 1).trans h.adds_le⟩
    rw [if_neg hshort, Machine.wrap, if_neg hshort, hpops,
      popMany_eq (h.mono (Nat.zero_le 1)) (Nat.not_lt.mp hshort) hpops]
    exact change_eq hroom

theorem copy_eq (h : m.Room 0) (count : Option UInt64) : copy m count = .ok (m.copy count) := by
  rw [copy, Machine.copy, copyOnto_eq h.depth_le]
  rfl

theorem execute_eq (h : m.Room 1) (supply : Nat → Nat) (line : Line) :
    execute m supply line = .ok (m.execute supply line) := by
  have hnone : m.Room 0 := h.mono (Nat.zero_le 1)
  have hcreate : ∀ value, (m.create supply value).2.Room 1 := fun _ => ⟨h.held, h.adds_le⟩
  obtain ⟨number, command⟩ := line
  cases command with
  | push literal => exact change_eq (hcreate literal.value)
  | pushArray size => exact wrap_eq h supply size _
  | pushStruct size => exact wrap_eq h supply size _
  | insert index literal => exact change_eq (c := .insert index _) (hcreate literal.value)
  | pop view => exact observe_eq _ hnone
  | tryPop view => exact observe_eq _ hnone
  | peek index => exact observe_eq _ hnone
  | peekQuiet index => exact observe_eq _ hnone
  | remove index view => exact observe_eq _ hnone
  | reverse count => exact change_eq hnone
  | clear => exact change_eq hnone
  | copy count =>
    simp only [execute, Machine.execute, copy_eq hnone, bind, Except.bind]

theorem step_eq (h : m.Room 1) (supply : Nat → Nat) (line : Line) : step m supply line = .ok (m.step supply line) := by
  have hannounced : (m.announced line).Room 1 := ⟨h.held, h.adds_le⟩
  rw [step, Machine.step, execute_eq hannounced]
  simp only [bind, Except.bind, Machine.announced]
  rcases (m.logged (.executing line.number line.command.text)).execute supply line with ⟨result, after⟩
  cases result with
  | error f => rfl
  | ok _ =>
    simp only
    cases after.tally.check <;> rfl

/-- A run with room for an addition by each of its lines does not trap. -/
theorem run_eq {executed : UInt64} {lines : List Line} (h : m.Room lines.length)
    (hexecuted : executed.toNat + lines.length ≤ signedMax) (supply : Nat → Nat) :
    run executed m supply lines =
      .ok { m.run supply lines with executed := executed.toNat + (m.run supply lines).executed } := by
  have hsize : UInt64.size = 2 ^ 64 := rfl
  induction lines generalizing m executed with
  | nil => rfl
  | cons line rest ih =>
    rw [List.length_cons] at h hexecuted
    have hnext := h.step supply line
    rw [run, step_eq (h.mono (Nat.succ_le_succ (Nat.zero_le _)))]
    rcases hs : m.step supply line with ⟨result, after⟩
    rw [hs] at hnext
    cases result with
    | error f =>
      rw [Machine.run_cons_error rest hs]
      rfl
    | ok _ =>
      rw [signedMax] at hexecuted
      obtain ⟨next, hadd, hexact⟩ := add_one_eq (a := executed) (by omega)
      rw [Machine.run_cons_ok rest hs]
      simp only [bind, Except.bind, hadd]
      rw [ih hnext (by rw [signedMax]; omega)]
      simp only [hexact, Nat.add_assoc, Nat.add_comm 1]

/-! ## Views -/

/-- What a view shows of an item. -/
def access (v : View) (x : Item) : Except Trap Content :=
  match v.content x with
  | some content => .ok content
  | none => .error .wrongShape

/-- A view shows the content of each item that it accepts. -/
theorem access_eq {v : View} {x : Item} (h : v.accepts x.kind = true) : ∃ content, access v x = .ok content := by
  have hsome : (v.content x).isSome = true := (v.isSome_content x).trans h
  obtain ⟨content, hcontent⟩ := Option.isSome_iff_exists.mp hsome
  exact ⟨content, by rw [access, hcontent]⟩

/-! ## Nothing traps -/

/-- Evaluated in words of 64 bits nothing traps, and all is as with exact numbers: any action, whatever its index or
count, on any stacks and counters that a run leaves, as long as the stacks are no deeper than the largest signed word
and the notices, those of the action included, are fewer than a word can count; the reading of any text and the run of
any lines under any settings, no text and no list being longer than the largest signed word; and the access to any item
through a view that accepts it. -/
theorem nothing_traps :
    (∀ counters : List Counter, (∀ c ∈ counters, c.New) → ∀ actions h, (World.start counters).run actions = some h →
      h.world.Shallow → ∀ a, (∀ turn, h.world.act a = some turn → turn.world.Countable) →
        act h.world a = .ok (h.world.act a)) ∧
    (∀ source : Text, source.length ≤ signedMax → readFrom 0 source.lines = .ok (Script.read source)) ∧
    (∀ (s : Settings) (supply : Nat → Nat) (lines : List Line), lines.length ≤ signedMax →
      run 0 (Machine.start s) supply lines = .ok ((Machine.start s).run supply lines)) ∧
    ∀ (v : View) (x : Item), v.accepts x.kind = true → ∃ content, access v x = .ok content := by
  refine ⟨fun counters hnew actions h hr hshallow a hcountable => ?_, fun source hsource => ?_,
    fun s supply lines hlines => ?_, fun v x => access_eq⟩
  · exact act_eq (fun k t hk => World.run_sound hnew hr hk) hshallow hcountable
  · refine readFrom_eq ?_
    have hcount : source.count Text.newline ≤ source.length := List.count_le_length
    have hsize : UInt64.size = 2 ^ 64 := rfl
    have hzero : (0 : UInt64).toNat = 0 := rfl
    rw [signedMax] at hsource
    rw [Text.length_lines]
    omega
  · have hroom : (Machine.start s).Room lines.length := ⟨Machine.held_start s, (Nat.zero_add _).trans_le hlines⟩
    have hzero : (0 : UInt64).toNat = 0 := rfl
    rw [run_eq hroom (by omega), hzero]
    simp only [Nat.zero_add]

/-- One item on a stack. -/
def single : List Action :=
  [.create 0 true, .call 0 (.push ⟨0, .null⟩)]

/-- A script with a blank line, a comment, and a push of an array of the largest number of items. -/
def hugeArray : Text :=
  "\n# all there is\npush array 18446744073709551615".toList

/-- The smallest index of a removal from a stack with one item, and a script whose only command, behind two lines that
hold none, pushes an array of the largest number of items onto an empty stack. -/
theorem nothing_traps_extremes :
    ∃ h turn, (World.start [.tracking (.new 1)]).run single = some h ∧ h.world.Shallow ∧
      h.world.act (.call 0 (.remove Int64.minValue .any)) = some turn ∧ turn.world.Countable ∧
      act h.world (.call 0 (.remove Int64.minValue .any)) = .ok (some turn) ∧
      hugeArray.length ≤ signedMax ∧
      readFrom 0 hugeArray.lines = .ok (.ok [⟨3, .pushArray 18446744073709551615⟩]) ∧
      (∃ ending, run 0 (Machine.start {}) id [⟨3, .pushArray 18446744073709551615⟩] = .ok ending ∧
        ending.stop = some (⟨3, .pushArray 18446744073709551615⟩, .underflow Int64.maxValue 0)) ∧
      ∃ content, access (.only .null) ⟨0, .null⟩ = .ok content := by
  obtain ⟨hworlds, hreading, hscripts, hviews⟩ := nothing_traps
  have hnew : ∀ c ∈ [Counter.tracking (.new 1)], c.New := by simp [Counter.New, Tally.new]
  obtain ⟨h, hr⟩ : ∃ h, (World.start [.tracking (.new 1)]).run single = some h := ⟨_, rfl⟩
  have hshallow : h.world.Shallow := by
    cases hr
    intro seat hseat
    cases List.mem_singleton.mp hseat
    decide
  obtain ⟨turn, hturn⟩ : ∃ turn, h.world.act (.call 0 (.remove Int64.minValue .any)) = some turn := by
    cases hr
    exact ⟨_, rfl⟩
  have hcountable : turn.world.Countable := by
    cases hr
    cases hturn
    intro k t hk
    cases k with
    | zero =>
      cases hk
      decide
    | succ k => cases hk
  have hact := hworlds _ hnew single h hr hshallow (.call 0 (.remove Int64.minValue .any)) fun next hnext => by
    rw [hturn] at hnext
    cases hnext
    exact hcountable
  have hlength : hugeArray.length ≤ signedMax := by decide
  have hread : Script.read hugeArray = .ok [⟨3, .pushArray 18446744073709551615⟩] := rfl
  refine ⟨h, turn, hr, hshallow, hturn, hcountable, hact.trans (congrArg _ hturn), hlength,
    (hreading hugeArray hlength).trans (congrArg _ hread), ?_, hviews _ _ rfl⟩
  exact ⟨_, hscripts {} id [⟨3, .pushArray 18446744073709551615⟩] (by decide), rfl⟩

end FixedWidth

end OperandStack
