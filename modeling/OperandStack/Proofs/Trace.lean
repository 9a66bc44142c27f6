import OperandStack.Proofs.Limits
import OperandStack.Proofs.LogReading

/-!
# What a run traces

Whatever a line does to the stacks and the log it does by calls on the main stack, by copies and by events of other
levels, so what all of these keep is kept by lines and by runs (`Machine.Lasting.run`). One such thing is that the log
tells the depths of the stacks and the figures of the tally (`Machine.lasting_told`), another that the log only grows. A
line that fails by its command, a reversal and a pop that declines log events, but none at the level of traces
(`Machine.silent_step`). `trace_accounts` puts this together for the log that a reader of all levels gets.
-/

namespace OperandStack

/-! ## Lines -/

namespace Machine

/-- Something that depends on the stacks, the tally and the log of a machine alone, and that every call on the main
stack, every copy and every event of another level keeps. -/
structure Lasting (I : Machine → Prop) : Prop where
  call : ∀ {m : Machine} (c : Call), I m → I (m.call c).2
  copy : ∀ {m : Machine} (count : Option UInt64), I m → I (m.copy count)
  logged : ∀ {m : Machine} {e : Event}, e.level ≠ .trace → I m → I (m.logged e)
  aside : ∀ {m after : Machine}, I m → after.main = m.main → after.target = m.target → after.tally = m.tally →
    after.log = m.log → I after

namespace Lasting

variable {I : Machine → Prop} (h : Lasting I) {m : Machine}
include h

theorem change (c : Call) (hm : I m) : I (m.change c).2 := by
  rw [change_eq]
  exact h.call c hm

theorem observe (line : Line) (c : Call) (hm : I m) : I (m.observe line c).2 := by
  rw [observe_eq]
  cases (m.call c).1.shown? with
  | none => exact h.call c hm
  | some result => exact h.aside (h.call c hm) rfl rfl rfl rfl

theorem popped (n : Nat) (hm : I m) : I (m.popped n) := by
  induction n generalizing m with
  | zero => exact hm
  | succ n ih => exact ih (h.call .pop hm)

theorem wrap (supply : Nat → Nat) (size : UInt64) (compound : List Item → Value Item) (hm : I m) :
    I (m.wrap supply size compound).2 := by
  by_cases hd : m.main.depth < size.toNat
  · rw [wrap_of_lt hd]
    exact hm
  · rw [wrap_of_le (Nat.not_lt.mp hd)]
    exact h.call _ (h.aside (h.popped size.toNat hm) rfl rfl rfl rfl)

theorem execute (supply : Nat → Nat) (line : Line) (hm : I m) : I (m.execute supply line).2 := by
  have hcreate : ∀ value, I (m.create supply value).2 := fun _ => h.aside hm rfl rfl rfl rfl
  obtain ⟨number, command⟩ := line
  cases command with
  | push literal => exact h.change _ (hcreate literal.value)
  | pushArray size => exact h.wrap supply size .array hm
  | pushStruct size => exact h.wrap supply size .struct hm
  | pop view => exact h.observe _ _ hm
  | tryPop view => exact h.observe _ _ hm
  | peek index => exact h.observe _ _ hm
  | peekQuiet index => exact h.observe _ _ hm
  | insert index literal => exact h.change _ (hcreate literal.value)
  | remove index view => exact h.observe _ _ hm
  | reverse count => exact h.change _ hm
  | clear => exact h.change _ hm
  | copy count => exact h.copy count hm

theorem step (supply : Nat → Nat) (line : Line) (hm : I m) : I (m.step supply line).2 := by
  have hannounced : I (m.announced line) := h.logged (by rintro ⟨⟩) hm
  exact step_keeps h.logged (h.execute supply line hannounced)

theorem run (supply : Nat → Nat) (lines : List Line) (hm : I m) : I (m.run supply lines).machine :=
  run_keeps (fun line _ _ hbetween => h.step supply line hbetween) hm

end Lasting

/-- The log of a machine tells its depths and figures, and its slots are held as a script holds them. -/
structure Told (m : Machine) : Prop where
  held : Held m.main m.target m.tally
  account : Event.Account m.log m.main.depth m.target.depth m.tally.adds m.tally.removes

theorem told_start (s : Settings) : (start s).Told :=
  ⟨held_start s, .nil⟩

theorem lasting_told : Lasting Told where
  call {m} c hm := by
    refine ⟨hm.held.call c, ?_⟩
    have hnotices : ∀ e ∈ (Listener.receiveAll m.tally (c.effect m.main.slots).notices).2, e.level ≠ .trace :=
      fun e he => Tally.level_ne_trace he
    have hlistener := hm.account.quiets hnotices
    have heffect := hlistener.effect hm.held.owned c
    rw [← Listener.adds_receiveAll, ← Listener.removes_receiveAll, List.append_assoc] at heffect
    exact heffect
  copy count hm := ⟨hm.held.copy count, hm.account.copyOnto count⟩
  logged he hm := ⟨hm.held, hm.account.quiet he⟩
  aside hm hmain htarget htally hlog := by
    constructor
    · rw [hmain, htarget, htally]
      exact hm.held
    · rw [hmain, htarget, htally, hlog]
      exact hm.account

theorem lasting_prefix (log : List Event) : Lasting fun m => log <+: m.log where
  call _ hm := hm.trans (List.prefix_append _ _)
  copy _ hm := hm.trans (List.prefix_append _ _)
  logged _ hm := hm.trans (List.prefix_append _ _)
  aside hm _ _ _ hlog := hlog ▸ hm

/-- One machine has logged more than the other, but nothing at the level of traces. -/
def Silent (m after : Machine) : Prop :=
  ∃ events, after.log = m.log ++ events ∧ ∀ e ∈ events, e.level ≠ .trace

theorem silent_of_log {m after : Machine} (h : after.log = m.log) : Silent m after :=
  ⟨[], h.trans (List.append_nil _).symm, by rintro _ ⟨⟩⟩

theorem Silent.trans {m between after : Machine} (h : m.Silent between) (h' : between.Silent after) :
    m.Silent after := by
  obtain ⟨events, hlog, he⟩ := h
  obtain ⟨events', hlog', he'⟩ := h'
  refine ⟨events ++ events', by rw [hlog', hlog, List.append_assoc], fun e hmem => ?_⟩
  rcases List.mem_append.mp hmem with hmem | hmem
  · exact he e hmem
  · exact he' e hmem

theorem silent_logged (m : Machine) {e : Event} (he : e.level ≠ .trace) : m.Silent (m.logged e) :=
  ⟨[e], rfl, fun _ hmem => List.mem_singleton.mp hmem ▸ he⟩

theorem silent_call {m : Machine} {c : Call}
    (h : (m.call c).1.Failed ∨ ∃ count, c = .reverse count ∨ c = .tryReverse count) : m.Silent (m.call c).2 :=
  ⟨_, rfl, Stack.events_of_failed (s := m.main) (k := m.tally) h⟩

theorem silent_change_of_error {m after : Machine} {c : Call} {f : Fault} (h : m.change c = (.error f, after)) :
    m.Silent after := by
  rw [change_eq] at h
  obtain ⟨houtcome, rfl⟩ := Prod.mk.inj h
  exact silent_call (.inl (Reply.failed_of_outcome houtcome))

theorem silent_observe {m : Machine} (line : Line) {c : Call} (h : (m.call c).1.Failed) :
    m.Silent (m.observe line c).2 := by
  have hcall : m.Silent (m.call c).2 := silent_call (.inl h)
  rw [observe_eq]
  cases (m.call c).1.shown? with
  | none => exact hcall
  | some result => exact hcall.trans (silent_of_log rfl)

theorem silent_observe_of_error {m after : Machine} {line : Line} {c : Call} {f : Fault}
    (h : m.observe line c = (.error f, after)) : m.Silent after := by
  have hsilent := silent_observe (m := m) line (c := c)
  rw [h] at hsilent
  rw [observe_eq] at h
  exact hsilent (Reply.failed_of_outcome (Prod.mk.inj h).1)

/-- A command that fails traces nothing. -/
theorem silent_execute_of_error {m after : Machine} {supply : Nat → Nat} {line : Line} {f : Fault}
    (h : m.execute supply line = (.error f, after)) : m.Silent after := by
  have hcreate : ∀ value {last : Machine}, (m.create supply value).2.Silent last → m.Silent last :=
    fun value _ hlast =>
      have hcreated : m.Silent (m.create supply value).2 := silent_of_log rfl
      hcreated.trans hlast
  obtain ⟨number, command⟩ := line
  cases command with
  | push literal => exact hcreate literal.value (silent_change_of_error (c := .push _) h)
  | pushArray size => exact wrap_eq_error h ▸ silent_of_log rfl
  | pushStruct size => exact wrap_eq_error h ▸ silent_of_log rfl
  | pop view => exact silent_observe_of_error (c := .popAs view) h
  | tryPop view => exact silent_observe_of_error (c := .tryPopAs view) h
  | peek index => exact silent_observe_of_error (c := .peek index) h
  | peekQuiet index => exact silent_observe_of_error (c := .peekQuiet index) h
  | insert index literal => exact hcreate literal.value (silent_change_of_error (c := .insert index _) h)
  | remove index view => exact silent_observe_of_error (c := .remove index view) h
  | reverse count => exact silent_change_of_error (c := .reverse count) h
  | clear => exact silent_change_of_error (c := .clear) h
  | copy count => cases h

/-- A pop that declines leaves the depth as it is, and one that takes an item does not. -/
theorem failed_of_depth {m : Machine} {view : View} (h : (m.call (.tryPopAs view)).2.main.depth = m.main.depth) :
    (m.call (.tryPopAs view)).1.Failed := by
  have hdepth : (Call.tryRemoval view 0 m.main.slots).slots.length = m.main.slots.length := h
  change (Call.tryRemoval view 0 m.main.slots).reply.Failed
  unfold Call.tryRemoval at hdepth ⊢
  split at hdepth
  · rename_i slot rest htake
    obtain ⟨n, hn, -, rfl⟩ := Call.take_eq_ok htake
    have hlength : (m.main.slots.eraseIdx n).length = m.main.slots.length := hdepth
    rw [List.length_eraseIdx_of_lt hn] at hlength
    omega
  · trivial

/-- What a line traces nothing of: a reversal, a pop that declines, and any command that fails. -/
theorem silent_execute {m : Machine} {supply : Nat → Nat} {line : Line}
    (h : line.command.operation = .reverse ∨ line.command.operation = .trypop ∧
      (m.execute supply line).2.main.depth = m.main.depth) : m.Silent (m.execute supply line).2 := by
  obtain ⟨number, command⟩ := line
  rcases h with hreverse | ⟨hpop, hdepth⟩
  · cases command with
    | reverse count =>
      change m.Silent (m.change (.reverse count)).2
      rw [change_eq]
      exact silent_call (.inr ⟨count, .inl rfl⟩)
    | _ => cases hreverse
  · cases command with
    | tryPop view =>
      have hobserved : (m.observe ⟨number, .tryPop view⟩ (.tryPopAs view)).2.main =
          (m.call (.tryPopAs view)).2.main := by
        rw [observe_eq]
        cases (m.call (.tryPopAs view)).1.shown? <;> rfl
      exact silent_observe _ (failed_of_depth (hobserved ▸ hdepth))
    | _ => cases hpop

/-- Such a line traces nothing, nor does a line that fails by its command. -/
theorem silent_step {m : Machine} {supply : Nat → Nat} {line : Line}
    (h : (∃ f, (m.step supply line).1 = .error f ∧ ∀ n limit, f ≠ .overLimit n limit) ∨
      line.command.operation = .reverse ∨
      line.command.operation = .trypop ∧ (m.step supply line).2.main.depth = m.main.depth) :
    m.Silent (m.step supply line).2 := by
  have hannounced : m.Silent (m.announced line) := silent_logged m (by rintro ⟨⟩)
  rcases he : (m.announced line).execute supply line with ⟨result, after⟩
  cases result with
  | error f =>
    rw [step_of_error he]
    exact (hannounced.trans (silent_execute_of_error he)).trans (silent_logged after (by rintro ⟨⟩))
  | ok _ =>
    have hstep := step_of_ok he
    have hchecked : after.Silent (m.step supply line).2 ∧ (m.step supply line).2.main = after.main := by
      rw [hstep]
      split
      · exact ⟨silent_logged after (by rintro ⟨⟩), rfl⟩
      · exact ⟨silent_of_log rfl, rfl⟩
    refine (hannounced.trans ?_).trans hchecked.1
    rcases h with ⟨f, hf, hne⟩ | h
    · rw [hstep] at hf
      split at hf
      · cases hf
        exact absurd rfl (hne _ _)
      · cases hf
    · have hexecute := @silent_execute (m.announced line) supply line
      rw [he] at hexecute
      rw [hchecked.2] at h
      exact hexecute h

end Machine

/-! ## Runs -/

/-- The events of a run that a log at a level shows. -/
def Ending.shown (e : Ending) (asked : Level) : List Event :=
  e.machine.log.filter fun event => asked.shows event.level

/-- A log at the level of traces shows every event. -/
theorem Ending.shown_trace (e : Ending) : e.shown .trace = e.machine.log :=
  List.filter_eq_self.mpr fun event _ => by cases event.level <;> rfl

/-- A line that stops a run which had not stopped fails there. -/
theorem step_of_stop_concat {s : Settings} {supply : Nat → Nat} {before : List Line} {line : Line} {f : Fault}
    (hbefore : (runWith s supply before).stop = none)
    (hstop : (runWith s supply (before ++ [line])).stop = some (line, f)) :
    ((runWith s supply before).machine.step supply line).1 = .error f := by
  rcases hs : (runWith s supply before).machine.step supply line with ⟨result, after⟩
  cases result with
  | error g =>
    rw [runWith, Machine.run_append_error [] hbefore hs] at hstop
    cases hstop
    rfl
  | ok _ =>
    rw [passed_concat hbefore (congrArg Prod.fst hs)] at hstop
    cases hstop

/-- A log at the level of traces accounts for the stacks and the tally of a run. It only ever grows; after every line it
tells the depth of the main stack and that of the target, the target's in two ways, and how many additions and removals
there were. A reversal, a pop that declines, a line that fails by its command, and on any stack with any listener a call
that fails or reverses add no trace to it. -/
theorem trace_accounts (s : Settings) (supply : Nat → Nat) :
    (∀ before rest, (runWith s supply before).shown .trace <+: (runWith s supply (before ++ rest)).shown .trace) ∧
      (∀ lines, Event.Account ((runWith s supply lines).shown .trace) (runWith s supply lines).machine.main.depth
        (runWith s supply lines).machine.target.depth (runWith s supply lines).report.references.adds
        (runWith s supply lines).report.references.removes) ∧
      (∀ before line,
        (∃ f, (runWith s supply (before ++ [line])).stop = some (line, f) ∧ ∀ n limit, f ≠ .overLimit n limit) ∨
            line.command.operation = .reverse ∨
            line.command.operation = .trypop ∧ (runWith s supply (before ++ [line])).machine.main.depth =
              (runWith s supply before).machine.main.depth →
          ∃ events, (runWith s supply (before ++ [line])).shown .trace =
            (runWith s supply before).shown .trace ++ events ∧ ∀ e ∈ events, e.level ≠ .trace) ∧
      ∀ (κ : Type) [Listener κ] (stack : Stack) (k : κ) (c : Call),
        (stack.call k c).reply.Failed ∨ (∃ count, c = .reverse count ∨ c = .tryReverse count) →
          ∀ e ∈ (stack.call k c).events, e.level ≠ .trace := by
  simp only [Ending.shown_trace]
  refine ⟨?_, ?_, ?_, fun κ _ stack k c => Stack.events_of_failed⟩
  · intro before rest
    rw [runWith_append]
    split
    · exact (Machine.lasting_prefix _).run supply rest (List.prefix_refl _)
    · exact List.prefix_refl _
  · intro lines
    exact (Machine.lasting_told.run supply lines (Machine.told_start s)).account
  · intro before line h
    change (runWith s supply before).machine.Silent (runWith s supply (before ++ [line])).machine
    have hconcat := runWith_concat s supply before line
    rw [hconcat]
    split
    · rename_i hbefore
      rw [if_pos hbefore] at hconcat
      refine Machine.silent_step ?_
      rcases h with ⟨f, hstop, hne⟩ | h
      · exact .inl ⟨f, step_of_stop_concat hbefore hstop, hne⟩
      · rw [hconcat] at h
        exact .inr h
    · exact Machine.silent_of_log rfl

/-- Lines that push two items, copy one, turn them over, find no bytes on top, and clear the stack. -/
def clearedLines : List Line :=
  [⟨1, .push (.integer 7)⟩, ⟨2, .push .null⟩, ⟨3, .copy (some 1)⟩, ⟨4, .reverse 2⟩, ⟨5, .tryPop (.only .byteString)⟩,
    ⟨6, .clear⟩]

/-- Their log tells an empty stack under a target of one item, and two additions and removals. A pop that follows fails
and is not traced, nor is a pop from an empty stack with a silent counter. -/
theorem trace_accounts_cleared :
    Event.Account ((runWith {} id clearedLines).shown .trace) 0 1 2 2 ∧
      (runWith {} id (clearedLines ++ [⟨7, .pop .any⟩])).stop = some (⟨7, .pop .any⟩, .underflow 0 0) ∧
      (∃ events, (runWith {} id (clearedLines ++ [⟨7, .pop .any⟩])).shown .trace =
        (runWith {} id clearedLines).shown .trace ++ events ∧ ∀ e ∈ events, e.level ≠ .trace) ∧
      ∀ e ∈ ((Stack.new true).call Counter.silent .pop).events, e.level ≠ .trace := by
  obtain ⟨-, haccount, hline, hcall⟩ := trace_accounts {} id
  have hstop : (runWith {} id (clearedLines ++ [⟨7, .pop .any⟩])).stop = some (⟨7, .pop .any⟩, .underflow 0 0) := rfl
  exact ⟨haccount clearedLines, hstop, hline clearedLines _ (.inl ⟨_, hstop, nofun⟩),
    hcall Counter _ _ .pop (.inl trivial)⟩

end OperandStack
