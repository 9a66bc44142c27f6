import OperandStack.Proofs.Line
import OperandStack.Proofs.Run

/-!
# What a failure changes

A call that fails gives no notice and keeps the slots (`Call.effect_of_failed`), so all that it may leave behind is its
record in the journal of the called stack (`World.act_of_failed`). A command fails by a failed call or, for a compound
push on too few items, before its first call; therefore a line with another fault than too many references leaves the
stacks, the tally and the observations of the machine as they were (`Machine.step_of_fault`).
-/

namespace OperandStack

/-- Whether a reply tells of a failure: by a fault, by the lack of an item, or by saying that it could not be done. -/
def Reply.Failed : Reply → Prop
  | .fault _ | .missing | .flag false => True
  | .done | .item _ | .flag true => False

/-- A reply that does not let a line pass tells of a failure. -/
theorem Reply.failed_of_outcome {reply : Reply} {f : Fault} (h : reply.outcome = .error f) : reply.Failed := by
  cases reply with
  | fault g => trivial
  | _ => cases h

/-! ## Calls -/

/-- An effect that changes no slot and gives no notice if it answers with a failure. -/
def Effect.Atomic (e : Effect) (slots : List Slot) : Prop :=
  e.reply.Failed → e.slots = slots ∧ e.notices = []

namespace Call

theorem removal_atomic (op : Journal.Op) (view : View) (index : Int64) (slots : List Slot) :
    (removal op view index slots).Atomic slots := by
  unfold removal
  split
  · intro hfailed
    exact hfailed.elim
  · intro _
    exact ⟨rfl, rfl⟩

theorem tryRemoval_atomic (view : View) (index : Int64) (slots : List Slot) :
    (tryRemoval view index slots).Atomic slots := by
  unfold tryRemoval
  split
  · intro hfailed
    exact hfailed.elim
  · intro _
    exact ⟨rfl, rfl⟩

theorem reading_atomic (index : Int64) (slots : List Slot) : (reading index slots).Atomic slots := by
  unfold reading
  split <;> exact fun _ => ⟨rfl, rfl⟩

/-- A call that fails keeps the slots and gives no notice. -/
theorem effect_of_failed (slots : List Slot) (c : Call) : (c.effect slots).Atomic slots := by
  cases c with
  | push item =>
    intro hfailed
    exact hfailed.elim
  | insert index item =>
    simp only [effect]
    split
    · intro hfailed
      exact hfailed.elim
    · intro _
      exact ⟨rfl, rfl⟩
  | pop => exact removal_atomic _ _ _ _
  | popAs view => exact removal_atomic _ _ _ _
  | tryPop => exact tryRemoval_atomic _ _ _
  | tryPopAs view => exact tryRemoval_atomic _ _ _
  | remove index view => exact removal_atomic _ _ _ _
  | tryRemove index view => exact tryRemoval_atomic _ _ _
  | peek index => exact reading_atomic _ _
  | peekTop => exact reading_atomic _ _
  | tryPeek index =>
    simp only [effect]
    split <;> exact fun _ => ⟨rfl, rfl⟩
  | peekQuiet index =>
    simp only [effect]
    split <;> exact fun _ => ⟨rfl, rfl⟩
  | reverse count =>
    simp only [effect]
    split
    · intro hfailed
      exact hfailed.elim
    · intro _
      exact ⟨rfl, rfl⟩
  | tryReverse count =>
    simp only [effect]
    split
    · intro hfailed
      exact hfailed.elim
    · intro _
      exact ⟨rfl, rfl⟩
  | clear =>
    intro hfailed
    exact hfailed.elim

/-- Only the quiet read leaves no record. -/
theorem record_eq_none_iff (c : Call) : c.record = none ↔ ∃ index, c = .peekQuiet index := by
  cases c <;> simp [record]

end Call

/-- A failed call on a stack leaves it with its slots and its listener as it was. -/
theorem Stack.call_of_failed {κ : Type} [Listener κ] {s : Stack} {k : κ} {c : Call} (h : (s.call k c).reply.Failed) :
    (s.call k c).stack = { s with journal := s.recorded c } ∧ (s.call k c).listener = k := by
  obtain ⟨hslots, hnotices⟩ := Call.effect_of_failed s.slots c h
  constructor
  · change ({ slots := (c.effect s.slots).slots, journal := s.recorded c } : Stack) = _
    rw [hslots]
  · rw [Stack.call_listener, hnotices]
    rfl

/-! ## Worlds -/

namespace World

/-- One world is the other but for a record at the end of the journal of one stack. -/
structure OnlyRecorded (w after : World) (i : Nat) (record : Journal.Record) : Prop where
  counters : after.counters = w.counters
  others : ∀ j, j ≠ i → after.seats[j]? = w.seats[j]?
  called : ∃ seat, w.seats[i]? = some seat ∧ after.seats[i]? = some { seat with
    stack := { seat.stack with
      journal := { seat.stack.journal with records := seat.stack.journal.records ++ [record] } } }

/-- A world whose counter is replaced by the same counter is the same. -/
theorem setCounter_self {w : World} {k : Nat} {c : Counter} (hk : w.counters[k]? = some c) : w.setCounter k c = w := by
  obtain ⟨hlt, rfl⟩ := List.getElem?_eq_some_iff.mp hk
  exact congrArg (World.mk · w.seats) (List.set_getElem_self hlt)

/-- A failed call changes at most the journal of the called stack, by the record of the call. -/
theorem act_of_failed {w : World} {i : Nat} {c : Call} {t : Turn} (h : w.act (.call i c) = some t)
    (hfailed : t.reply.Failed) :
    ∃ seat, w.seat? i = some seat ∧ t.world = w.setStack i { seat.stack with journal := seat.stack.recorded c } := by
  obtain ⟨seat, counter, hs, hk, rfl⟩ := act_call_iff.mp h
  obtain ⟨hstack, hlistener⟩ := Stack.call_of_failed (s := seat.stack) (k := counter) hfailed
  refine ⟨seat, hs, ?_⟩
  simp only [hstack, hlistener]
  exact setCounter_self (w := w.setStack i _) hk

/-- A journal that is on takes the record of a call that leaves one. -/
theorem onlyRecorded_setStack {w : World} {i : Nat} {seat : Seat} (hs : w.seats[i]? = some seat)
    (hon : seat.stack.journal.enabled = true) {c : Call} {record : Journal.Record} (hc : c.record = some record) :
    w.OnlyRecorded (w.setStack i { seat.stack with journal := seat.stack.recorded c }) i record := by
  refine ⟨rfl, ?_, seat, hs, ?_⟩
  · intro j hj
    rw [getElem?_seats_setStack, if_neg (Ne.symm hj)]
  · rw [getElem?_seats_setStack, if_pos rfl, hs]
    simp only [Stack.recorded_eq, hc, Option.toList_some, Journal.extended, hon, if_pos, Option.map_some]

/-- A journal that is off, and any journal at a call that leaves no record, stays as it is. -/
theorem recorded_eq_self {s : Stack} {c : Call} (h : s.journal.enabled = false ∨ c.record = none) :
    s.recorded c = s.journal := by
  rw [s.recorded_eq]
  rcases h with hoff | hnone
  · exact Journal.extended_of_disabled hoff _
  · rw [hnone, Option.toList_none, Journal.extended_nil]

end World

/-! ## Lines -/

namespace Machine

/-- One machine shows the same stacks, figures and observations as the other. -/
structure Unchanged (m after : Machine) : Prop where
  slots : after.main.slots = m.main.slots
  target : after.target = m.target
  tally : after.tally = m.tally
  observations : after.observations = m.observations

theorem unchanged_call {m : Machine} {c : Call} (h : (m.call c).1.Failed) : m.Unchanged (m.call c).2 := by
  obtain ⟨hstack, hlistener⟩ := Stack.call_of_failed (s := m.main) (k := m.tally) h
  refine ⟨?_, rfl, hlistener, rfl⟩
  change (m.main.call m.tally c).stack.slots = m.main.slots
  rw [hstack]

theorem unchanged_change {m after : Machine} {c : Call} {f : Fault} (h : m.change c = (.error f, after)) :
    m.Unchanged after := by
  rw [change_eq] at h
  obtain ⟨houtcome, rfl⟩ := Prod.mk.inj h
  exact unchanged_call (Reply.failed_of_outcome houtcome)

theorem unchanged_observe {m after : Machine} {line : Line} {c : Call} {f : Fault}
    (h : m.observe line c = (.error f, after)) : m.Unchanged after := by
  rw [observe_eq] at h
  obtain ⟨houtcome, hafter⟩ := Prod.mk.inj h
  have hfailed := unchanged_call (Reply.failed_of_outcome houtcome)
  -- A fault shows nothing, so there is no observation to take back.
  cases hreply : (m.call c).1 with
  | fault g =>
    rw [hreply] at hafter
    exact hafter ▸ hfailed
  | _ =>
    rw [hreply] at houtcome
    cases houtcome

/-- A compound push that fails has done nothing. -/
theorem wrap_eq_error {m after : Machine} {supply : Nat → Nat} {size : UInt64} {compound : List Item → Value Item}
    {f : Fault} (h : m.wrap supply size compound = (.error f, after)) : after = m := by
  by_cases hd : m.main.depth < size.toNat
  · rw [wrap_of_lt hd] at h
    exact (Prod.mk.inj h).2.symm
  · rw [wrap_of_le (Nat.not_lt.mp hd)] at h
    cases h

theorem unchanged_wrap {m after : Machine} {supply : Nat → Nat} {size : UInt64} {compound : List Item → Value Item}
    {f : Fault} (h : m.wrap supply size compound = (.error f, after)) : m.Unchanged after := by
  obtain rfl := wrap_eq_error h
  exact ⟨rfl, rfl, rfl, rfl⟩

/-- A command that fails leaves the machine unchanged. -/
theorem unchanged_execute {m after : Machine} {supply : Nat → Nat} {line : Line} {f : Fault}
    (h : m.execute supply line = (.error f, after)) : m.Unchanged after := by
  have hcreate : ∀ value {last : Machine}, (m.create supply value).2.Unchanged last → m.Unchanged last := by
    rintro value last ⟨hslots, htarget, htally, hobservations⟩
    exact ⟨hslots, htarget, htally, hobservations⟩
  obtain ⟨number, command⟩ := line
  cases command with
  | push literal => exact hcreate literal.value (unchanged_change (c := .push _) h)
  | pushArray size => exact unchanged_wrap h
  | pushStruct size => exact unchanged_wrap h
  | pop view => exact unchanged_observe h
  | tryPop view => exact unchanged_observe h
  | peek index => exact unchanged_observe h
  | peekQuiet index => exact unchanged_observe h
  | insert index literal => exact hcreate literal.value (unchanged_change (c := .insert index _) h)
  | remove index view => exact unchanged_observe h
  | reverse count => exact unchanged_change h
  | clear => exact unchanged_change (c := .clear) h
  | copy count => cases h

/-- A line with another fault than too many references leaves the machine unchanged. -/
theorem step_of_fault {m after : Machine} {supply : Nat → Nat} {line : Line} {f : Fault}
    (h : m.step supply line = (.error f, after)) (hf : ∀ n limit, f ≠ .overLimit n limit) : m.Unchanged after := by
  rcases he : (m.announced line).execute supply line with ⟨result, last⟩
  cases result with
  | error g =>
    rw [step_of_error he] at h
    obtain ⟨-, rfl⟩ := Prod.mk.inj h
    obtain ⟨hslots, htarget, htally, hobservations⟩ := unchanged_execute he
    exact ⟨hslots, htarget, htally, hobservations⟩
  | ok _ =>
    rw [step_of_ok he] at h
    split at h
    · cases h
      exact absurd rfl (hf _ _)
    · cases h

/-- A compound push of more items than there are fails before its first pop. -/
theorem step_wrap_of_lt {m : Machine} (supply : Nat → Nat) {line : Line} {size : UInt64}
    (hc : line.command = .pushArray size ∨ line.command = .pushStruct size) (hd : m.main.depth < size.toNat) :
    m.step supply line = (.error (.underflow (lastIndex size) m.main.depth),
      (m.announced line).logged (.stopped line.number (.underflow (lastIndex size) m.main.depth))) := by
  have he : (m.announced line).execute supply line =
      (.error (.underflow (lastIndex size) m.main.depth), m.announced line) := by
    rw [execute]
    rcases hc with hc | hc
    · rw [hc]
      exact wrap_of_lt (m := m.announced line) hd supply .array
    · rw [hc]
      exact wrap_of_lt (m := m.announced line) hd supply .struct
  exact step_of_error he

end Machine

/-! ## Reports -/

/-- Two reports show the same stacks, figures and observations. -/
structure Report.SameState (r r' : Report) : Prop where
  stack : r'.stack = r.stack
  target : r'.target = r.target
  references : r'.references = r.references
  observations : r'.observations = r.observations

/-- Reports of runs that end with unchanged machines show the same. -/
theorem Ending.sameState_report {e e' : Ending} (h : e.machine.Unchanged e'.machine) :
    e.report.SameState e'.report := by
  refine ⟨?_, congrArg Stack.fromTop h.target, congrArg Tally.stats h.tally, h.observations⟩
  simp only [Ending.report, Stack.fromTop, Stack.items, h.slots]

/-- A failed call leaves every slot and every counter of a world as it was, and of the journals it changes only that of
the called stack, which takes one record if it is on and the call is not the quiet read. A run of a script that a line
stops with another fault than too many references shows the stacks, the figures and the observations of the run of the
lines before it. A compound push of more items than there are always stops it, with nothing popped. -/
theorem failures_change_nothing :
    (∀ (w : World) (i : Nat) (c : Call) (t : Turn), w.act (.call i c) = some t → t.reply.Failed →
      ∃ seat, w.seat? i = some seat ∧
        (seat.stack.journal.enabled = true ∧ (∀ index, c ≠ .peekQuiet index) ∧
            (∃ record, c.record = some record ∧ w.OnlyRecorded t.world i record) ∨
          (seat.stack.journal.enabled = false ∨ ∃ index, c = .peekQuiet index) ∧ t.world = w)) ∧
    ∀ (s : Settings) (supply : Nat → Nat),
      (∀ (lines : List Line) (line : Line) (f : Fault), (runWith s supply lines).stop = some (line, f) →
        (∀ n limit, f ≠ .overLimit n limit) → ∃ before rest, lines = before ++ line :: rest ∧
          (runWith s supply lines).executed = before.length ∧ (runWith s supply before).stop = none ∧
          (runWith s supply before).report.SameState (runWith s supply lines).report) ∧
      ∀ (before rest : List Line) (line : Line) (size : UInt64),
        (line.command = .pushArray size ∨ line.command = .pushStruct size) → (runWith s supply before).stop = none →
        (runWith s supply before).machine.main.depth < size.toNat →
          (runWith s supply (before ++ line :: rest)).stop = some (line,
            .underflow (Machine.lastIndex size) (runWith s supply before).machine.main.depth) ∧
          (runWith s supply (before ++ line :: rest)).machine.main = (runWith s supply before).machine.main ∧
          (runWith s supply (before ++ line :: rest)).machine.target = (runWith s supply before).machine.target ∧
          (runWith s supply (before ++ line :: rest)).machine.tally = (runWith s supply before).machine.tally := by
  refine ⟨?_, fun s supply => ⟨?_, ?_⟩⟩
  · intro w i c t h hfailed
    obtain ⟨seat, hs, hw⟩ := World.act_of_failed h hfailed
    have hseat := (World.seat?_eq_some_iff.mp hs).1
    refine ⟨seat, hs, ?_⟩
    by_cases hkept : seat.stack.journal.enabled = false ∨ c.record = none
    · refine Or.inr ⟨hkept.imp_right (Call.record_eq_none_iff c).mp, ?_⟩
      rw [hw, World.recorded_eq_self hkept]
      exact World.setStack_self hseat
    · obtain ⟨hoff, hrecord⟩ := not_or.mp hkept
      have hon : seat.stack.journal.enabled = true := by simpa using hoff
      obtain ⟨record, hc⟩ := Option.ne_none_iff_exists'.mp hrecord
      refine Or.inl ⟨hon, ?_, record, hc, ?_⟩
      · intro index hquiet
        exact hrecord ((Call.record_eq_none_iff c).mpr ⟨index, hquiet⟩)
      · rw [hw]
        exact World.onlyRecorded_setStack hseat hon hc
  · intro lines line f hstop hf
    obtain ⟨before, rest, after, hl, hbefore, hstep, hrun⟩ := Machine.run_stopped_iff.mp hstop
    have hlines : runWith s supply lines = { executed := before.length, stop := some (line, f), machine := after } :=
      hrun
    refine ⟨before, rest, hl, ?_, hbefore, ?_⟩
    · rw [hlines]
    · rw [hlines]
      exact Ending.sameState_report (Machine.step_of_fault hstep hf)
  · intro before rest line size hc hbefore hd
    have hstep := Machine.step_wrap_of_lt supply hc hd
    have hrun : runWith s supply (before ++ line :: rest) = _ := Machine.run_append_error rest hbefore hstep
    rw [hrun]
    exact ⟨rfl, rfl, rfl, rfl⟩

/-- One item that is pushed on a stack and copied to another, both on one counter. -/
def copiedPair : World :=
  { counters := [.tracking ((Tally.new 1).add ⟨0, .null⟩).1]
    seats := [{ stack := { slots := [{ item := ⟨0, .null⟩ }], journal := { records := [{ op := .push }] } }, counter := 0 },
      { stack := { slots := [{ item := ⟨0, .null⟩, owned := false }] }, counter := 0 }] }

/-- A typed pop of the copy for a kind that it has not, and a script that wraps two items where there is one. -/
theorem failures_change_nothing_mismatch :
    (∃ h : History, (World.start [.tracking (.new 1)]).run
        [.create 0 true, .create 0 true, .call 0 (.push ⟨0, .null⟩), .copy 0 1 none] = some h ∧ h.world = copiedPair) ∧
      (∃ t : Turn, copiedPair.act (.call 1 (.popAs (.only .integer))) = some t ∧ t.reply.Failed ∧
        copiedPair.OnlyRecorded t.world 1 { op := .pop }) ∧
      (runWith {} id [⟨1, .push (.integer 1)⟩, ⟨2, .pushArray 2⟩]).stop = some (⟨2, .pushArray 2⟩, .underflow 1 1) ∧
      (runWith {} id [⟨1, .push (.integer 1)⟩, ⟨2, .pushArray 2⟩]).report.stack = [⟨0, .integer 1⟩] := by
  refine ⟨⟨_, rfl, rfl⟩, ?_, ?_⟩
  · obtain ⟨t, ht, hfailed⟩ :
        ∃ t : Turn, copiedPair.act (.call 1 (.popAs (.only .integer))) = some t ∧ t.reply.Failed := ⟨_, rfl, trivial⟩
    refine ⟨t, ht, hfailed, ?_⟩
    obtain ⟨seat, hs, ⟨-, -, record, hr, honly⟩ | ⟨hoff | ⟨index, hquiet⟩, -⟩⟩ :=
      failures_change_nothing.1 copiedPair 1 _ t ht hfailed
    · cases hr
      exact honly
    · cases hs
      cases hoff
    · cases hquiet
  · have hstop : (runWith {} id [⟨1, .push (.integer 1)⟩, ⟨2, .pushArray 2⟩]).stop =
        some (⟨2, .pushArray 2⟩, .underflow 1 1) := rfl
    obtain ⟨before, rest, hl, hexecuted, -, hsame⟩ :=
      (failures_change_nothing.2 {} id).1 _ _ _ hstop (by rintro n limit ⟨⟩)
    have hlength : before.length = 1 := hexecuted.symm
    have hbefore : List.take 1 (before ++ ⟨2, .pushArray 2⟩ :: rest) = before := List.take_left' hlength
    rw [← hl] at hbefore
    refine ⟨hstop, ?_⟩
    rw [hsame.stack, ← hbefore]
    rfl

end OperandStack
