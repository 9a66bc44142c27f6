import OperandStack.Proofs.Ledger
import OperandStack.Proofs.Muting

/-!
# Forms of the same call

Removals, reads and reversals come in several forms: with or without a view or an index, with or without a record in the
journal, and answering a failure with a fault or with another reply. The plain form names index and view, is recorded
and answers with faults (`Call.plain`). A form does what its plain form does and tells of a failure in its own words
(`Call.worded`). So two runs whose actions have the same plain forms go through the same slots and counters, answer
alike, and enter the same number of records where neither reads quietly (`forms_interchangeable`).
-/

namespace OperandStack

/-- What a reply says of success: nothing where the call failed, and otherwise the item that was asked for, if one
was. -/
def Reply.success? : Reply → Option (Option Item)
  | .done | .flag true => some none
  | .item x => some (some x)
  | .fault _ | .missing | .flag false => none

/-- Whether an event reports a failed call. -/
def Event.isFailure : Event → Bool
  | failed .. | failedPeek _ => true
  | _ => false

/-- The report of a failed call is for finding errors. -/
theorem Event.level_of_isFailure {e : Event} (h : e.isFailure = true) : e.level = .debug := by
  cases e with
  | failed _ _ _ => rfl
  | failedPeek _ => rfl
  | _ => cases h

namespace Call

/-- The plain form of a call. -/
def plain : Call → Call
  | pop | tryPop => remove 0 .any
  | popAs view | tryPopAs view => remove 0 view
  | remove index view | tryRemove index view => remove index view
  | peekTop => peek 0
  | peek index | tryPeek index | peekQuiet index => peek index
  | reverse count | tryReverse count => reverse count
  | push item => push item
  | insert index item => insert index item
  | clear => clear

/-- What a form answers where its plain form answers with a fault. -/
def failure (f : Fault) : Call → Reply
  | tryPop | tryPopAs _ | tryRemove .. | tryPeek _ => .missing
  | tryReverse _ => .flag false
  | push _ | insert .. | pop | popAs _ | remove .. | peek _ | peekTop | peekQuiet _ | reverse _ | clear => .fault f

/-- One effect is another in the words of a form: it has the same slots, notices and success, and may differ in what it
answers to a failure and in whether and how it reports that. -/
structure Worded (c : Call) (plain e : Effect) : Prop where
  slots : e.slots = plain.slots
  notices : e.notices = plain.notices
  success : e.reply.success? = plain.reply.success?
  failure : plain.reply.success? = none → ∃ f, plain.reply = .fault f ∧ e.reply = c.failure f
  events : e.event.toList.filter (fun e => !e.isFailure) = plain.event.toList.filter fun e => !e.isFailure

variable {c : Call}

theorem worded_removal (hc : ∀ f, c.failure f = .fault f) (op : Journal.Op) (view : View) (index : Int64)
    (slots : List Slot) : Worded c (removal .remove view index slots) (removal op view index slots) := by
  unfold removal
  cases take view index slots with
  | ok r => exact ⟨rfl, rfl, rfl, fun h => (by cases h), rfl⟩
  | error f => exact ⟨rfl, rfl, rfl, fun _ => ⟨f, rfl, (hc f).symm⟩, rfl⟩

theorem worded_tryRemoval (hc : ∀ f, c.failure f = .missing) (view : View) (index : Int64) (slots : List Slot) :
    Worded c (removal .remove view index slots) (tryRemoval view index slots) := by
  unfold removal tryRemoval
  cases take view index slots with
  | ok r => exact ⟨rfl, rfl, rfl, fun h => (by cases h), rfl⟩
  | error f => exact ⟨rfl, rfl, rfl, fun _ => ⟨f, rfl, (hc f).symm⟩, rfl⟩

/-- The effect of a call is that of its plain form, in the words of the call. -/
theorem effect_worded (slots : List Slot) (c : Call) : Worded c (c.plain.effect slots) (c.effect slots) := by
  cases c with
  | push item => exact ⟨rfl, rfl, rfl, fun h => (by cases h), rfl⟩
  | insert index item =>
    simp only [plain, effect]
    cases place index item slots with
    | ok after => exact ⟨rfl, rfl, rfl, fun h => (by cases h), rfl⟩
    | error f => exact ⟨rfl, rfl, rfl, fun _ => ⟨f, rfl, rfl⟩, rfl⟩
  | pop => exact worded_removal (fun _ => rfl) _ _ _ _
  | popAs view => exact worded_removal (fun _ => rfl) _ _ _ _
  | tryPop => exact worded_tryRemoval (fun _ => rfl) _ _ _
  | tryPopAs view => exact worded_tryRemoval (fun _ => rfl) _ _ _
  | remove index view => exact worded_removal (fun _ => rfl) _ _ _ _
  | tryRemove index view => exact worded_tryRemoval (fun _ => rfl) _ _ _
  | peek index | tryPeek index | peekQuiet index =>
    simp only [plain, effect, reading]
    cases look index slots with
    | ok item => exact ⟨rfl, rfl, rfl, fun h => (by cases h), rfl⟩
    | error f => exact ⟨rfl, rfl, rfl, fun _ => ⟨f, rfl, rfl⟩, rfl⟩
  | peekTop =>
    simp only [plain, effect, reading]
    cases look 0 slots with
    | ok item => exact ⟨rfl, rfl, rfl, fun h => (by cases h), rfl⟩
    | error f => exact ⟨rfl, rfl, rfl, fun _ => ⟨f, rfl, rfl⟩, rfl⟩
  | reverse count | tryReverse count =>
    simp only [plain, effect]
    cases turn count slots with
    | ok after => exact ⟨rfl, rfl, rfl, fun h => (by cases h), rfl⟩
    | error f => exact ⟨rfl, rfl, rfl, fun _ => ⟨f, rfl, rfl⟩, rfl⟩
  | clear => exact ⟨rfl, rfl, rfl, fun h => (by cases h), rfl⟩

end Call

namespace Action

/-- An action with the plain form of its call. -/
def plain : Action → Action
  | call i c => call i c.plain
  | a => a

/-- What an action answers where its plain form answers with a fault. -/
def failure (f : Fault) : Action → Reply
  | call _ c => c.failure f
  | copy .. | clearJournal _ | create .. | discard _ | notify .. => .fault f

/-- Actions with the same plain form are calls on the same stack or the same action. -/
theorem cases_of_plain {a b : Action} (h : b.plain = a.plain) :
    (∃ i c c', a = call i c ∧ b = call i c' ∧ c'.plain = c.plain) ∨ (∀ i c, a ≠ call i c) ∧ b = a := by
  cases a with
  | call i c =>
    cases b with
    | call j c' =>
      obtain ⟨rfl, hc⟩ := call.inj h
      exact Or.inl ⟨j, c, c', rfl, rfl, hc⟩
    | _ => cases h
  | _ =>
    refine Or.inr ⟨nofun, ?_⟩
    cases b with
    | call j c' => cases h
    | _ => exact h

end Action

/-- The turns of two actions of the same plain form: they leave the same slots and counters, and report the same but for
failures. Either both succeed and return the same item, if any, or both tell of the same fault in their own words. -/
structure Turn.Matches (a b : Action) (t t' : Turn) : Prop where
  world : t'.world.muted = t.world.muted
  success : t'.reply.success? = t.reply.success?
  failure : t.reply.success? = none → ∃ f, t.reply = a.failure f ∧ t'.reply = b.failure f
  events : t'.events.filter (fun e => !e.isFailure) = t.events.filter fun e => !e.isFailure

namespace World

/-- Two forms of a call do the same in the same world. -/
theorem act_call_plain {w : World} {i : Nat} {c c' : Call} (hc : c'.plain = c.plain) {t : Turn}
    (h : w.act (.call i c) = some t) :
    ∃ t', w.act (.call i c') = some t' ∧ Turn.Matches (.call i c) (.call i c') t t' := by
  obtain ⟨seat, counter, hs, hk, rfl⟩ := act_call_iff.mp h
  have hworded := Call.effect_worded seat.stack.slots c
  have hworded' := Call.effect_worded seat.stack.slots c'
  rw [hc] at hworded'
  have hslots : (seat.stack.call counter c').stack.muted = (seat.stack.call counter c).stack.muted :=
    congrArg (Stack.mk · (.empty false)) (hworded'.slots.trans hworded.slots.symm)
  have hnotices := hworded'.notices.trans hworded.notices.symm
  refine ⟨_, act_call_iff.mpr ⟨seat, counter, hs, hk, rfl⟩, ?_, hworded'.success.trans hworded.success.symm, ?_, ?_⟩
  · rw [muted_setStack_setCounter, muted_setStack_setCounter, hslots, Stack.call_listener, Stack.call_listener,
      hnotices]
  · intro hfailed
    have hplain := hworded.success.symm.trans hfailed
    obtain ⟨f, hf, hreply⟩ := hworded.failure hplain
    obtain ⟨f', hf', hreply'⟩ := hworded'.failure hplain
    rw [hf] at hf'
    cases hf'
    exact ⟨f, hreply, hreply'⟩
  · rw [Stack.call_events, Stack.call_events, hnotices, List.filter_append, List.filter_append, hworded'.events,
      hworded.events]

/-- An action that is no call does not fail. -/
theorem reply_eq_done {w : World} {a : Action} (ha : ∀ i c, a ≠ .call i c) {t : Turn} (h : w.act a = some t) :
    t.reply = .done := by
  cases a with
  | call i c => exact absurd rfl (ha i c)
  | copy i j count =>
    obtain ⟨source, target, -, -, -, rfl⟩ := act_copy_iff.mp h
    rfl
  | clearJournal i =>
    obtain ⟨seat, -, rfl⟩ := act_clearJournal_iff.mp h
    rfl
  | create k on =>
    obtain ⟨-, rfl⟩ := act_create_iff.mp h
    rfl
  | discard i =>
    obtain ⟨-, rfl⟩ := act_discard_iff.mp h
    rfl
  | notify k n =>
    obtain ⟨counter, -, rfl⟩ := act_notify_iff.mp h
    rfl

/-- Actions of the same plain form do the same in worlds that differ in their journals only. -/
theorem act_plain {w w' : World} (hw : w'.muted = w.muted) {a b : Action} (hab : b.plain = a.plain) {t : Turn}
    (h : w.act a = some t) : ∃ t', w'.act b = some t' ∧ Turn.Matches a b t t' := by
  have hsame : ∃ t', w.act b = some t' ∧ Turn.Matches a b t t' := by
    rcases Action.cases_of_plain hab with ⟨i, c, c', rfl, rfl, hc⟩ | ⟨hne, rfl⟩
    · exact act_call_plain hc h
    · refine ⟨t, h, rfl, rfl, fun hfailed => ?_, rfl⟩
      rw [reply_eq_done hne h] at hfailed
      cases hfailed
  obtain ⟨t₁, ht₁, hmatches⟩ := hsame
  have hmuted : (w'.act b).map Turn.muted = some t₁.muted := by
    rw [← act_muted, hw, act_muted, ht₁, Option.map_some]
  obtain ⟨t', ht', he⟩ := Option.map_eq_some_iff.mp hmuted
  have hreply : t'.muted.reply = t₁.muted.reply := congrArg Turn.reply he
  have hworld : t'.muted.world = t₁.muted.world := congrArg Turn.world he
  have hevents : t'.muted.events = t₁.muted.events := congrArg Turn.events he
  refine ⟨t', ht', hworld.trans hmatches.world, (congrArg Reply.success? hreply).trans hmatches.success, ?_,
    (congrArg (List.filter _) hevents).trans hmatches.events⟩
  intro hfailed
  obtain ⟨f, hf, hf'⟩ := hmatches.failure hfailed
  exact ⟨f, hf, Eq.trans hreply hf'⟩

end World

/-! ## Journals -/

namespace Action

/-- Whether an action reads a stack quietly. -/
def isQuiet (i : Nat) : Action → Bool
  | call j (.peekQuiet _) => j == i
  | _ => false

/-- The number of quiet reads of a stack since its journal was last cleared. -/
def quietReads (i : Nat) (actions : List Action) : Nat :=
  (actions.rtakeWhile fun a => !a.clears i).countP (isQuiet i)

theorem quietReads_concat (i : Nat) (actions : List Action) (a : Action) :
    quietReads i (actions ++ [a]) =
      if a.clears i then 0 else quietReads i actions + if a.isQuiet i then 1 else 0 := by
  rw [quietReads, List.rtakeWhile_concat]
  cases a.clears i with
  | true => rfl
  | false => simp [quietReads]

@[simp]
theorem clears_plain (i : Nat) (a : Action) : a.plain.clears i = a.clears i := by
  cases a <;> rfl

/-- An action enters as many records as its plain form, unless it reads quietly. -/
theorem length_entries_plain (i : Nat) (a : Action) :
    (a.plain.entries i).length = (a.entries i).length + if a.isQuiet i then 1 else 0 := by
  cases a with
  | call j c =>
    by_cases hj : j = i
    · cases c <;> simp [plain, Call.plain, entries, Call.entries, isQuiet, hj]
    · cases c <;> simp [plain, entries, isQuiet, hj]
  | _ => rfl

/-- Of all that was done to a stack since its journal was cleared, the ledger leaves out the quiet reads. -/
theorem length_ledger_plain (i : Nat) (actions : List Action) :
    (ledger i (actions.map plain)).length = (ledger i actions).length + quietReads i actions := by
  induction actions using List.reverseRecOn with
  | nil => rfl
  | append_singleton actions a ih =>
    rw [List.map_append, List.map_singleton, ledger_concat, ledger_concat, quietReads_concat, clears_plain]
    split
    · rfl
    · rw [List.length_append, List.length_append, ih, length_entries_plain]
      omega

theorem switch?_plain (a : Action) : a.plain.switch? = a.switch? := by
  cases a <;> rfl

end Action

namespace World

/-- Two worlds have the same journals on, after two lists of actions that led to them, and a journal that is on has as
many records in both, if the quiet reads since it was cleared are counted too. -/
def SameLengths (xs ys : List Action) (w w' : World) : Prop :=
  ∀ (i : Nat) (j j' : Journal), w.journals[i]? = some j → w'.journals[i]? = some j' →
    j'.enabled = j.enabled ∧ j'.records.length + (if j.enabled then Action.quietReads i ys else 0) =
      j.records.length + if j.enabled then Action.quietReads i xs else 0

/-- Runs of the same plain forms lead to journals that differ in length by the quiet reads. -/
theorem sameLengths_of_plain {counters : List Counter} {xs ys : List Action}
    (hforms : ys.map Action.plain = xs.map Action.plain) {h h' : History} (hr : (start counters).run xs = some h)
    (hr' : (start counters).run ys = some h') : SameLengths xs ys h.world h'.world := by
  have hswitches : ys.filterMap Action.switch? = xs.filterMap Action.switch? := by
    have hplain := congrArg (List.filterMap Action.switch?) hforms
    simpa only [List.filterMap_map, Function.comp_def, Action.switch?_plain] using hplain
  intro i j j' hj hj'
  have hledgers := Action.length_ledger_plain i ys
  rw [hforms, Action.length_ledger_plain] at hledgers
  rw [(run_journals hr).1, List.getElem?_mapIdx, Option.map_eq_some_iff] at hj
  rw [(run_journals hr').1, hswitches, List.getElem?_mapIdx, Option.map_eq_some_iff] at hj'
  obtain ⟨on, hon, rfl⟩ := hj
  obtain ⟨on', hon', rfl⟩ := hj'
  rw [hon] at hon'
  cases hon'
  cases on with
  | true => exact ⟨rfl, hledgers.symm⟩
  | false => exact ⟨rfl, rfl⟩

/-! ## Runs -/

/-- A run leaves one turn for each action. -/
theorem length_turns {w : World} {actions : List Action} {h : History} (hr : w.run actions = some h) :
    h.turns.length = actions.length := by
  induction actions generalizing w h with
  | nil =>
    cases hr
    rfl
  | cons a rest ih =>
    obtain ⟨turn, history, -, hr', rfl⟩ := run_cons_iff.mp hr
    exact congrArg (· + 1) (ih hr')

/-- Two runs go together when after as many actions their turns match and their journals have the same lengths, but for
quiet reads. -/
def Together (xs ys : List Action) (turns turns' : List Turn) : Prop :=
  ∀ (n : Nat) (a b : Action) (t t' : Turn), xs[n]? = some a → ys[n]? = some b → turns[n]? = some t →
    turns'[n]? = some t' → Turn.Matches a b t t' ∧ SameLengths (xs.take (n + 1)) (ys.take (n + 1)) t.world t'.world

/-- Two runs that go together still do with one more action each, if these match. -/
theorem Together.concat {xs ys : List Action} {turns turns' : List Turn} (h : Together xs ys turns turns')
    (hys : ys.length = xs.length) (hturns : turns.length = xs.length) (hturns' : turns'.length = xs.length)
    {a b : Action} {t t' : Turn} (hmatches : Turn.Matches a b t t')
    (hlengths : SameLengths (xs ++ [a]) (ys ++ [b]) t.world t'.world) :
    Together (xs ++ [a]) (ys ++ [b]) (turns ++ [t]) (turns' ++ [t']) := by
  intro n c d s s' hc hd hs hs'
  by_cases hn : n < xs.length
  · rw [List.getElem?_append_left (by omega)] at hc hd hs hs'
    rw [List.take_append_of_le_length (by omega), List.take_append_of_le_length (by omega)]
    exact h n c d s s' hc hd hs hs'
  · have hle := (List.getElem?_eq_some_iff.mp hc).1
    rw [List.length_append, List.length_singleton] at hle
    obtain rfl : n = xs.length := by omega
    rw [List.getElem?_concat_length, Option.some.injEq] at hc
    rw [← hys, List.getElem?_concat_length, Option.some.injEq] at hd
    rw [← hturns, List.getElem?_concat_length, Option.some.injEq] at hs
    rw [← hturns', List.getElem?_concat_length, Option.some.injEq] at hs'
    subst hc hd hs hs'
    rw [List.take_of_length_le (by rw [List.length_append, List.length_singleton]),
      List.take_of_length_le (by rw [List.length_append, List.length_singleton, hys])]
    exact ⟨hmatches, hlengths⟩

/-- A run of actions of the same plain forms is possible too, and goes together with the run. -/
theorem run_plain {counters : List Counter} {xs ys : List Action} (hforms : ys.map Action.plain = xs.map Action.plain)
    {h : History} (hr : (start counters).run xs = some h) :
    ∃ h', (start counters).run ys = some h' ∧ h'.world.muted = h.world.muted ∧ Together xs ys h.turns h'.turns := by
  -- The last actions are taken off, since the journals are known at the ends of runs.
  induction xs using List.reverseRecOn generalizing ys h with
  | nil =>
    obtain rfl : ys = [] := List.map_eq_nil_iff.mp hforms
    exact ⟨h, hr, rfl, fun n a b t t' ha => nomatch ha⟩
  | append_singleton xs a ih =>
    have hsplit := hforms
    rw [List.map_append, List.map_singleton] at hsplit
    obtain ⟨ys, last, rfl, hys, hlast⟩ := List.map_eq_append_iff.mp hsplit
    obtain ⟨b, rfl, hab⟩ := List.map_eq_singleton_iff.mp hlast
    obtain ⟨before, after, hbefore, hafter, rfl⟩ := run_append_iff.mp hr
    obtain ⟨turn, _, hact, hnil, rfl⟩ := run_cons_iff.mp hafter
    cases hnil
    obtain ⟨before', hbefore', hmuted, htogether⟩ := ih hys hbefore
    obtain ⟨turn', hact', hmatches⟩ := act_plain hmuted hab hact
    have hr' : (start counters).run (ys ++ [b]) =
        some { turns := before'.turns ++ [turn'], world := turn'.world } :=
      run_append_iff.mpr ⟨before', _, hbefore', run_cons_iff.mpr ⟨turn', _, hact', rfl, rfl⟩, rfl⟩
    have hlength : ys.length = xs.length := by simpa using congrArg List.length hys
    refine ⟨_, hr', hmatches.world, ?_⟩
    exact htogether.concat hlength (length_turns hbefore) ((length_turns hbefore').trans hlength) hmatches
      (sameLengths_of_plain hforms hr hr')

end World

/-- The forms of a call are interchangeable. Take two lists of actions that differ only in which forms of the same plain
call they use. If one can be run the other can, and after every step both have left the same slots, owned or shared, and
the same counters; each call succeeds in both or in neither, with the same item, and a failure is the same fault in the
words of each form. Their events are the same but for reports of failures, which are for finding errors, and the lengths
of their journals but for the quiet reads. -/
theorem forms_interchangeable :
    (∀ e : Event, e.isFailure = true → e.level = .debug) ∧
      ∀ (counters : List Counter) (xs ys : List Action), ys.map Action.plain = xs.map Action.plain →
        ∀ h, (World.start counters).run xs = some h → ∃ h', (World.start counters).run ys = some h' ∧
          h.turns.length = xs.length ∧ h'.turns.length = xs.length ∧ World.Together xs ys h.turns h'.turns := by
  refine ⟨fun e => Event.level_of_isFailure, ?_⟩
  intro counters xs ys hforms h hr
  obtain ⟨h', hr', -, htogether⟩ := World.run_plain hforms hr
  have hlength : ys.length = xs.length := by simpa using congrArg List.length hforms
  exact ⟨h', hr', World.length_turns hr, (World.length_turns hr').trans hlength, htogether⟩

/-- A read below the bottom, a pop that asks for another kind, a pop, and a reversal of more items than there are. -/
def inFaults : List Action :=
  [.create 0 true, .call 0 (.push ⟨0, .null⟩), .call 0 (.peek 1), .call 0 (.popAs (.only .integer)), .call 0 .pop,
    .call 0 (.reverse 1)]

/-- The same in other forms. -/
def inReplies : List Action :=
  [.create 0 true, .call 0 (.push ⟨0, .null⟩), .call 0 (.peekQuiet 1), .call 0 (.tryRemove 0 (.only .integer)),
    .call 0 (.tryRemove 0 .any), .call 0 (.tryReverse 1)]

theorem forms_interchangeable_inReplies :
    inReplies.map Action.plain = inFaults.map Action.plain ∧
      ∃ h h' : History, (World.start [.recording []]).run inFaults = some h ∧
        (World.start [.recording []]).run inReplies = some h' ∧ World.Together inFaults inReplies h.turns h'.turns ∧
        h.turns.map Turn.reply = [.done, .done, .fault (.outOfRange 1 1), .fault (.mismatch (.only .integer) .null),
          .item ⟨0, .null⟩, .fault (.badReverse 1 0)] ∧
        h'.turns.map Turn.reply =
          [.done, .done, .fault (.outOfRange 1 1), .missing, .item ⟨0, .null⟩, .flag false] := by
  obtain ⟨h', hr', -, -, htogether⟩ := forms_interchangeable.2 [.recording []] inFaults inReplies rfl _ rfl
  cases hr'
  exact ⟨rfl, _, _, rfl, rfl, htogether, rfl, rfl⟩

end OperandStack
