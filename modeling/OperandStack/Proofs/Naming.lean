import OperandStack.Proofs.Ceiling
import OperandStack.Proofs.Interleaving
import OperandStack.Proofs.ItemMap

/-!
# Runs under other names

A line asks of an item only its kind and its text, so it does not matter which identities a supply gives out. Beside a
run that numbers its items in the order of their creation, a run with any other supply does the same with the items named
as the supply says (`Machine.Named`). Every line keeps it so, and it may even be that the limits or the switches of the
journals are not the same (`Machine.Named.step`): a limit acts in the check after a line only, and a journal on nothing
but itself. Where no check stops the one run before the other, whole runs correspond (`Machine.Named.run_of_passed`,
`Machine.Named.run_of_stopped`), and so do their reports (`Machine.Named.report`).
-/

namespace OperandStack

/-! ## Tallies -/

namespace Tally

/-- One tally comes after the other: it has the same limit, and its totals and its peak are not smaller. -/
structure Later (t after : Tally) : Prop where
  limit : after.limit = t.limit
  adds_le : t.adds ≤ after.adds
  removes_le : t.removes ≤ after.removes
  peak_le : t.peak ≤ after.peak

theorem Later.refl (t : Tally) : t.Later t :=
  ⟨rfl, Nat.le_refl _, Nat.le_refl _, Nat.le_refl _⟩

theorem Later.trans {t between after : Tally} (h : t.Later between) (h' : between.Later after) : t.Later after :=
  ⟨h'.limit.trans h.limit, h.adds_le.trans h'.adds_le, h.removes_le.trans h'.removes_le, h.peak_le.trans h'.peak_le⟩

theorem later_receive (t : Tally) (n : Notice) : t.Later (t.receive n).1 := by
  cases n with
  | added item => exact ⟨rfl, Nat.le_succ _, Nat.le_refl _, Nat.le_max_left _ _⟩
  | removed item =>
    simp only [receive, remove]
    split <;> exact ⟨rfl, Nat.le_refl _, Nat.le_succ _, Nat.le_refl _⟩

theorem later_receiveAll (t : Tally) (notices : List Notice) : t.Later (Listener.receiveAll t notices).1 := by
  induction notices generalizing t with
  | nil => exact Later.refl t
  | cons n rest ih =>
    rw [Listener.receiveAll_cons]
    exact (later_receive t n).trans (ih _)

/-- The check passes as long as there are no more references than the limit allows. -/
theorem check_eq_ok_iff (t : Tally) : t.check = .ok () ↔ t.references ≤ t.limit := by
  rw [check]
  by_cases hlimit : t.limit < t.references
  · rw [if_pos hlimit]
    constructor
    · intro h
      cases h
    · intro h
      exact absurd hlimit (Nat.not_lt.mpr h)
  · rw [if_neg hlimit]
    exact iff_of_true rfl (Nat.not_lt.mp hlimit)

theorem check_congr {t t' : Tally} (hreferences : t'.references = t.references) (hlimit : t'.limit = t.limit) :
    t'.check = t.check := by
  rw [check, check, hreferences, hlimit]

/-- The check fails for nothing but too many references. -/
theorem overLimit_of_check {t : Tally} {f : Fault} (h : t.check = .error f) :
    f = .overLimit t.references t.limit := by
  rw [check] at h
  split at h
  · cases h
    rfl
  · cases h

/-- Two tallies with the same references and the same peak have the same peak after notices of a change and notices of
its image. -/
theorem peak_receiveAll_map {slots after : List Slot} {notices : List Notice} (h : Change slots notices after)
    {t t' : Tally} (hreferences : t'.references = t.references) (hpeak : t'.peak = t.peak) (f : Item → Item) :
    (Listener.receiveAll t' (notices.map (Notice.map f))).1.peak = (Listener.receiveAll t notices).1.peak := by
  rcases h.owned_perm with ⟨item, rfl, -⟩ | ⟨items, rfl, -⟩
  · change max t'.peak (t'.references + 1) = max t.peak (t.references + 1)
    rw [hreferences, hpeak]
  · have himage : (items.map Notice.removed).map (Notice.map f) = (items.map f).map .removed := by
      rw [List.map_map, List.map_map]
      rfl
    rw [himage, (falls_receiveAll t' _).peak, (falls_receiveAll t _).peak, hpeak]

end Tally

@[simp]
theorem Notice.isRemoval_map (f : Item → Item) (n : Notice) : (n.map f).isRemoval = n.isRemoval := by
  cases n <;> rfl

/-! ## Created items -/

namespace Item

/-- A literal with another identity holds the same value. -/
theorem rename_literal (f : Nat → Nat) (id : Nat) (literal : Literal) :
    rename f ⟨id, literal.value⟩ = ⟨f id, literal.value⟩ := by
  cases literal <;> rfl

theorem rename_array (f : Nat → Nat) (id : Nat) (items : List Item) :
    rename f ⟨id, .array items⟩ = ⟨f id, .array (items.map (rename f))⟩ := by
  rw [rename, renameAll_eq_map]

theorem rename_struct (f : Nat → Nat) (id : Nat) (fields : List Item) :
    rename f ⟨id, .struct fields⟩ = ⟨f id, .struct (fields.map (rename f))⟩ := by
  rw [rename, renameAll_eq_map]

end Item

/-! ## Journals -/

/-- A record does not switch a journal on or off. -/
@[simp]
theorem Stack.recorded_enabled (s : Stack) (c : Call) : (s.recorded c).enabled = s.journal.enabled := by
  rw [s.recorded_eq]
  rfl

namespace Machine

/-! ## What moves do not change, or only raise -/

theorem Moves.later {m after : Machine} (h : m.Moves after) : m.tally.Later after.tally :=
  h.keeps (I := fun _ _ t => m.tally.Later t) (fun _ hi => hi.trans (Tally.later_receiveAll _ _)) (fun _ hi => hi)
    (Tally.Later.refl _)

theorem Moves.enabled {m after : Machine} (h : m.Moves after) :
    after.main.journal.enabled = m.main.journal.enabled :=
  h.keeps (I := fun main _ _ => main.journal.enabled = m.main.journal.enabled)
    (fun {main _ _} c hi => (main.recorded_enabled c).trans hi) (fun _ hi => hi) rfl

/-- A line fails by its command or else by the check, and leaves what its command leaves, the log apart. -/
theorem step_eq (m : Machine) (supply : Nat → Nat) (line : Line) : ∃ log, m.step supply line =
    (((m.announced line).execute supply line).1 >>= fun _ => ((m.announced line).execute supply line).2.tally.check,
      { ((m.announced line).execute supply line).2 with log }) := by
  rcases he : (m.announced line).execute supply line with ⟨result, after⟩
  cases result with
  | error f => exact ⟨_, step_of_error he⟩
  | ok _ =>
    rw [step_of_ok he]
    by_cases hlimit : after.tally.limit < after.tally.references
    · rw [if_pos hlimit]
      refine ⟨after.log ++ [.stopped line.number (.overLimit after.tally.references after.tally.limit)], ?_⟩
      simp [bind, Except.bind, Tally.check, if_pos hlimit, Machine.logged]
    · rw [if_neg hlimit]
      refine ⟨after.log, ?_⟩
      simp [bind, Except.bind, Tally.check, if_neg hlimit]

/-- A run passes when its first line does and the run of the others from there. -/
theorem passed_cons_iff {m : Machine} {supply : Nat → Nat} {line : Line} {rest : List Line} :
    (m.run supply (line :: rest)).stop = none ↔
      ∃ after, m.step supply line = (.ok (), after) ∧ (after.run supply rest).stop = none := by
  rcases hs : m.step supply line with ⟨result, after⟩
  cases result with
  | error f =>
    rw [run_cons_error rest hs]
    constructor
    · intro h
      cases h
    · rintro ⟨_, h, -⟩
      cases h
  | ok _ =>
    rw [run_cons_ok rest hs]
    constructor
    · intro h
      exact ⟨after, rfl, h⟩
    · rintro ⟨_, h, hrest⟩
      cases h
      exact hrest

/-- All lines of a run that passes are executed. -/
theorem executed_of_passed {m : Machine} {supply : Nat → Nat} {lines : List Line} (h : (m.run supply lines).stop = none) :
    (m.run supply lines).executed = lines.length := by
  induction lines generalizing m with
  | nil => rfl
  | cons line rest ih =>
    obtain ⟨after, hs, hrest⟩ := passed_cons_iff.mp h
    rw [run_cons_ok rest hs]
    exact congrArg (· + 1) (ih hrest)

/-! ## One machine under two supplies -/

/-- The items of one machine are numbered in the order of their creation, and the other is the same machine with the
items named as a supply says. Limits may differ, and so may journals unless both are on or both are off. -/
structure Named (supply : Nat → Nat) (m m' : Machine) : Prop where
  held : Held m.main m.target m.tally
  held' : Held m'.main m'.target m'.tally
  created : m'.created = m.created
  main : m'.main.slots = m.main.slots.map (Slot.map (Item.rename supply))
  target : m'.target.slots = m.target.slots.map (Slot.map (Item.rename supply))
  peak : m'.tally.peak = m.tally.peak
  removes : m'.tally.removes = m.tally.removes
  journal : m'.main.journal.enabled = m.main.journal.enabled → m'.main.journal = m.main.journal
  observations : m'.observations = m.observations

theorem named_start (supply : Nat → Nat) (s s' : Settings) : Named supply (start s) (start s') where
  held := held_start s
  held' := held_start s'
  created := rfl
  main := rfl
  target := rfl
  peak := rfl
  removes := rfl
  journal := congrArg Journal.empty
  observations := rfl

namespace Named

variable {supply : Nat → Nat} {m m' : Machine} (h : Named supply m m')
include h

theorem depth : m'.main.depth = m.main.depth := by
  rw [Stack.depth, h.main, List.length_map]
  rfl

theorem items : m'.main.items = m.main.items.map (Item.rename supply) := by
  rw [Stack.items, Stack.items, h.main, List.map_map, List.map_map]
  rfl

theorem items_target : m'.target.items = m.target.items.map (Item.rename supply) := by
  rw [Stack.items, Stack.items, h.target, List.map_map, List.map_map]
  rfl

/-- Both tallies count as many references, since both main stacks are as deep. -/
theorem references : m'.tally.references = m.tally.references := by
  rw [h.held'.references_eq, h.held.references_eq, h.depth]

/-! ### Calls and copies -/

/-- A call with its item named answers with the item that the call answers with, named. -/
theorem call (c : Call) : (m'.call (c.map (Item.rename supply))).1 = (m.call c).1.map (Item.rename supply) ∧
    Named supply (m.call c).2 (m'.call (c.map (Item.rename supply))).2 := by
  have heffect : (c.map (Item.rename supply)).effect m'.main.slots =
      (c.effect m.main.slots).map (Item.rename supply) := by
    rw [h.main]
    exact Call.effect_map (Item.kind_rename supply) m.main.slots c
  have hlistener : (m'.call (c.map (Item.rename supply))).2.tally = (Listener.receiveAll m'.tally
      ((c.effect m.main.slots).notices.map (Notice.map (Item.rename supply)))).1 :=
    congrArg (fun e : Effect => (Listener.receiveAll m'.tally e.notices).1) heffect
  refine ⟨congrArg Effect.reply heffect, ?_⟩
  constructor
  · exact h.held.call c
  · exact h.held'.call _
  · exact h.created
  · exact congrArg Effect.slots heffect
  · exact h.target
  -- Of the tallies only what all notices together do is compared; identities count for nothing in it.
  · rw [hlistener]
    exact Tally.peak_receiveAll_map (Call.effect_change _ c) h.references h.peak _
  · rw [hlistener, Listener.removes_receiveAll, List.countP_map, h.removes]
    have hcount : Notice.isRemoval ∘ Notice.map (Item.rename supply) = Notice.isRemoval :=
      funext (Notice.isRemoval_map _)
    rw [hcount]
    exact (Listener.removes_receiveAll m.tally _).symm
  -- A call does not switch a journal, so both were on or both were off before it.
  · intro henabled
    have hsame : m'.main.journal = m.main.journal := by
      refine h.journal ?_
      rw [← Stack.recorded_enabled m'.main (c.map (Item.rename supply)), ← Stack.recorded_enabled m.main c]
      exact henabled
    change m'.main.recorded _ = m.main.recorded c
    simp only [Stack.recorded, Call.record_map, hsame]
  · exact h.observations

/-- A copy copies the same slots, named. -/
theorem copy (count : Option UInt64) : Named supply (m.copy count) (m'.copy count) := by
  have hslots : (m'.main.copyOnto count m'.target).1.slots =
      (m.main.copyOnto count m.target).1.slots.map (Slot.map (Item.rename supply)) := by
    have hcount : m'.main.copyCount count = m.main.copyCount count := by
      cases count <;> simp only [Stack.copyCount, h.depth]
    have hcopies : ∀ n, m'.main.copies n = (m.main.copies n).map (Slot.map (Item.rename supply)) := by
      intro n
      rw [← Stack.copies_map]
      simp only [Stack.copies, Stack.depth, Stack.map, h.main]
    rw [Stack.copyOnto_slots, Stack.copyOnto_slots, List.map_append, h.target, hcount, hcopies]
  exact { h with held := h.held.copy count, held' := h.held'.copy count, target := hslots }

theorem change (c : Call) : (m'.change (c.map (Item.rename supply))).1 = (m.change c).1 ∧
    Named supply (m.change c).2 (m'.change (c.map (Item.rename supply))).2 := by
  obtain ⟨hreply, hafter⟩ := h.call c
  rw [change_eq, change_eq, hreply]
  refine ⟨?_, hafter⟩
  cases (m.call c).1 <;> rfl

/-- What is observed of an item is its text, which no name changes. -/
theorem observe (line : Line) (c : Call) :
    (m'.observe line (c.map (Item.rename supply))).1 = (m.observe line c).1 ∧
      Named supply (m.observe line c).2 (m'.observe line (c.map (Item.rename supply))).2 := by
  obtain ⟨hreply, hafter⟩ := h.call c
  have houtcome : (m'.call (c.map (Item.rename supply))).1.outcome = (m.call c).1.outcome := by
    rw [hreply]
    cases (m.call c).1 <;> rfl
  have hshown : (m'.call (c.map (Item.rename supply))).1.shown? = (m.call c).1.shown? := by
    rw [hreply]
    cases (m.call c).1 with
    | item x => exact congrArg some (Item.text_rename supply x)
    | _ => rfl
  rw [observe_eq, observe_eq, houtcome, hshown]
  refine ⟨rfl, ?_⟩
  cases (m.call c).1.shown? with
  | none => exact hafter
  | some result => exact { hafter with observations := congrArg (· ++ _) hafter.observations }

/-! ### Lines -/

theorem popped (n : Nat) : Named supply (m.popped n) (m'.popped n) := by
  induction n generalizing m m' with
  | zero => exact h
  | succ n ih => exact ih (h.call .pop).2

theorem counted : Named supply { m with created := m.created + 1 } { m' with created := m'.created + 1 } :=
  { h with created := congrArg (· + 1) h.created }

theorem announced (line : Line) : Named supply (m.announced line) (m'.announced line) :=
  { h with }

/-- A literal that is brought is named by the supply. -/
theorem literal (l : Literal) {c : Item → Call}
    (hc : ∀ x, (c x).map (Item.rename supply) = c (x.rename supply)) :
    ((m'.create supply l.value).2.change (c (m'.create supply l.value).1)).1 =
        ((m.create id l.value).2.change (c (m.create id l.value).1)).1 ∧
      Named supply ((m.create id l.value).2.change (c (m.create id l.value).1)).2
        ((m'.create supply l.value).2.change (c (m'.create supply l.value).1)).2 := by
  have hitem : (m'.create supply l.value).1 = (m.create id l.value).1.rename supply := by
    simp only [create, h.created, Item.rename_literal, id_eq]
  rw [hitem, ← hc]
  exact h.counted.change _

/-- A compound is named by the supply, and what it holds was named before. -/
theorem wrap (size : UInt64) {compound : List Item → Value Item}
    (hcompound : ∀ id items,
      Item.rename supply ⟨id, compound items⟩ = ⟨supply id, compound (items.map (Item.rename supply))⟩) :
    (m'.wrap supply size compound).1 = (m.wrap id size compound).1 ∧
      Named supply (m.wrap id size compound).2 (m'.wrap supply size compound).2 := by
  by_cases hd : m.main.depth < size.toNat
  · have hd' : m'.main.depth < size.toNat := h.depth ▸ hd
    rw [wrap_of_lt hd, wrap_of_lt hd', h.depth]
    exact ⟨rfl, h⟩
  · have hle := Nat.not_lt.mp hd
    have hle' : size.toNat ≤ m'.main.depth := h.depth ▸ hle
    rw [wrap_of_le hle, wrap_of_le hle']
    refine ⟨rfl, ?_⟩
    have hitem : (⟨supply m'.created, compound (m'.main.items.drop (m'.main.depth - size.toNat))⟩ : Item) =
        Item.rename supply ⟨m.created, compound (m.main.items.drop (m.main.depth - size.toNat))⟩ := by
      rw [hcompound, h.created, h.items, h.depth, List.map_drop]
    have hpopped : Named supply { m.popped size.toNat with created := m.created + 1 }
        { m'.popped size.toNat with created := m'.created + 1 } :=
      { h.popped size.toNat with created := congrArg (· + 1) h.created }
    rw [wrapped, wrapped, hitem]
    exact (hpopped.call (.push _)).2

/-- A command does the same to both machines. -/
theorem execute (line : Line) : (m'.execute supply line).1 = (m.execute id line).1 ∧
    Named supply (m.execute id line).2 (m'.execute supply line).2 := by
  obtain ⟨number, command⟩ := line
  cases command with
  | push l => exact h.literal l (c := .push) fun _ => rfl
  | pushArray size => exact h.wrap size (Item.rename_array supply)
  | pushStruct size => exact h.wrap size (Item.rename_struct supply)
  | pop view => exact h.observe _ (.popAs view)
  | tryPop view => exact h.observe _ (.tryPopAs view)
  | peek index => exact h.observe _ (.peek index)
  | peekQuiet index => exact h.observe _ (.peekQuiet index)
  | insert index l => exact h.literal l (c := .insert index) fun _ => rfl
  | remove index view => exact h.observe _ (.remove index view)
  | reverse count => exact h.change (.reverse count)
  | clear => exact h.change .clear
  | copy count => exact ⟨rfl, h.copy count⟩

/-- A line leaves the one machine with the items of the other named, whether it passes or fails. -/
theorem step (line : Line) : Named supply (m.step id line).2 (m'.step supply line).2 := by
  have hexecute := (h.announced line).execute line
  obtain ⟨log, hs⟩ := step_eq m id line
  obtain ⟨log', hs'⟩ := step_eq m' supply line
  rw [hs, hs']
  exact { hexecute.2 with }

/-- A line fails in both machines by one fault of its command, or in each it comes to what the check says of the tally
that it leaves. -/
theorem step_result (line : Line) :
    (∃ f, (∀ n limit, f ≠ .overLimit n limit) ∧ (m.step id line).1 = .error f ∧ (m'.step supply line).1 = .error f) ∨
      (m.step id line).1 = (m.step id line).2.tally.check ∧
        (m'.step supply line).1 = (m'.step supply line).2.tally.check := by
  have hresult := ((h.announced line).execute line).1
  have hne := fun n limit => execute_ne_overLimit n limit (m.announced line) id line
  obtain ⟨log, hs⟩ := step_eq m id line
  obtain ⟨log', hs'⟩ := step_eq m' supply line
  rw [hs, hs', hresult]
  cases hr : ((m.announced line).execute id line).1 with
  | error f =>
    refine Or.inl ⟨f, ?_, rfl, rfl⟩
    rintro n limit rfl
    exact hne n limit hr
  | ok _ => exact Or.inr ⟨rfl, rfl⟩

/-- A line that passes under a limit passes under another that is not lower. -/
theorem step_of_passed (hlimit : m.tally.limit ≤ m'.tally.limit) {line : Line} (hpassed : (m.step id line).1 = .ok ()) :
    (m'.step supply line).1 = .ok () := by
  rcases h.step_result line with ⟨f, -, hs, -⟩ | ⟨hs, hs'⟩
  · rw [hs] at hpassed
    cases hpassed
  · have hwithin := (Tally.check_eq_ok_iff _).mp (hs.symm.trans hpassed)
    rw [hs', Tally.check_eq_ok_iff, (h.step line).references, (step_moves m' supply line).later.limit]
    rw [(step_moves m id line).later.limit] at hwithin
    exact hwithin.trans hlimit

/-- A line that fails by its command fails under any limit, and one that the check fails fails under the same limit. -/
theorem step_of_failed {line : Line} {f : Fault} (hfailed : (m.step id line).1 = .error f)
    (hf : m'.tally.limit = m.tally.limit ∨ ∀ n limit, f ≠ .overLimit n limit) :
    (m'.step supply line).1 = .error f := by
  rcases h.step_result line with ⟨g, -, hs, hs'⟩ | ⟨hs, hs'⟩
  · exact hs'.trans (hs.symm.trans hfailed)
  · have hcheck := hs.symm.trans hfailed
    rcases hf with hlimit | hf
    · have hkept : (m'.step supply line).2.tally.limit = (m.step id line).2.tally.limit := by
        rw [(step_moves m' supply line).later.limit, (step_moves m id line).later.limit, hlimit]
      exact hs'.trans ((Tally.check_congr (h.step line).references hkept).trans hcheck)
    · exact absurd (Tally.overLimit_of_check hcheck) (hf _ _)

/-- A line that the check fails passes under a limit that has room for what the line leaves. -/
theorem step_of_exceeded {line : Line} {n limit : Nat} (hfailed : (m.step id line).1 = .error (.overLimit n limit))
    (hroom : (m.step id line).2.tally.references ≤ m'.tally.limit) : (m'.step supply line).1 = .ok () := by
  rcases h.step_result line with ⟨f, hf, hs, -⟩ | ⟨-, hs'⟩
  · exact absurd (Except.error.inj (hs.symm.trans hfailed)) (hf n limit)
  · rw [hs', Tally.check_eq_ok_iff, (h.step line).references, (step_moves m' supply line).later.limit]
    exact hroom

/-! ### Runs -/

/-- A run that passes also passes under a limit that is not lower. -/
theorem run_of_passed (hlimit : m.tally.limit ≤ m'.tally.limit) {lines : List Line}
    (hpassed : (m.run id lines).stop = none) : (m'.run supply lines).stop = none ∧
      Named supply (m.run id lines).machine (m'.run supply lines).machine := by
  -- Along the lines both limits stay as they are, so each line finds them in the order they had.
  induction lines generalizing m m' with
  | nil => exact ⟨rfl, h⟩
  | cons line rest ih =>
    obtain ⟨after, hs, hrest⟩ := passed_cons_iff.mp hpassed
    have hnext := h.step line
    have hresult := h.step_of_passed hlimit (congrArg Prod.fst hs)
    have hkept := (step_moves m id line).later.limit
    have hkept' := (step_moves m' supply line).later.limit
    rcases hs' : m'.step supply line with ⟨result', after'⟩
    rw [hs'] at hresult
    rw [hs, hs'] at hnext
    rw [hs] at hkept
    rw [hs'] at hkept'
    obtain rfl : result' = .ok () := hresult
    rw [run_cons_ok rest hs, run_cons_ok rest hs']
    exact ih hnext ((hkept.trans_le hlimit).trans_eq hkept'.symm) hrest

/-- A run that a line stops is stopped by the line under any limit that is not lower, unless the check stopped it; under
the same limit it is in any case. -/
theorem run_of_stopped {lines : List Line} {line : Line} {f : Fault} (hstop : (m.run id lines).stop = some (line, f))
    (hlimit : m.tally.limit ≤ m'.tally.limit)
    (hf : m'.tally.limit = m.tally.limit ∨ ∀ n limit, f ≠ .overLimit n limit) :
    (m'.run supply lines).stop = some (line, f) ∧ (m'.run supply lines).executed = (m.run id lines).executed ∧
      Named supply (m.run id lines).machine (m'.run supply lines).machine := by
  obtain ⟨before, rest, after, rfl, hbefore, hs, hrun⟩ := run_stopped_iff.mp hstop
  obtain ⟨hbefore', hnamed⟩ := h.run_of_passed hlimit hbefore
  have hkept := (run_moves m id before).later.limit
  have hkept' := (run_moves m' supply before).later.limit
  have hnext := hnamed.step line
  have hresult := hnamed.step_of_failed (congrArg Prod.fst hs) (hf.imp_left fun heq => hkept'.trans (heq.trans hkept.symm))
  rcases hs' : (m'.run supply before).machine.step supply line with ⟨result', after'⟩
  rw [hs, hs'] at hnext
  rw [hs'] at hresult
  obtain rfl : result' = .error f := hresult
  rw [hrun, run_append_error rest hbefore' hs']
  exact ⟨rfl, rfl, hnext⟩

/-- A run of the one is the run of the other with the items named: under the same limit, and under one that is not lower
if the check did not stop the run. -/
theorem run (hlimit : m.tally.limit ≤ m'.tally.limit) {lines : List Line}
    (hf : m'.tally.limit = m.tally.limit ∨ ∀ line n limit, (m.run id lines).stop ≠ some (line, .overLimit n limit)) :
    (m'.run supply lines).executed = (m.run id lines).executed ∧
      (m'.run supply lines).stop = (m.run id lines).stop ∧
      Named supply (m.run id lines).machine (m'.run supply lines).machine := by
  cases hstop : (m.run id lines).stop with
  | none =>
    obtain ⟨hstop', hnamed⟩ := h.run_of_passed hlimit hstop
    exact ⟨(executed_of_passed hstop').trans (executed_of_passed hstop).symm, hstop', hnamed⟩
  | some stop =>
    obtain ⟨line, f⟩ := stop
    have hf' : m'.tally.limit = m.tally.limit ∨ ∀ n limit, f ≠ .overLimit n limit := by
      refine hf.imp_right fun hne n limit he => hne line n limit ?_
      rw [hstop, he]
    obtain ⟨hstop', hexecuted, hnamed⟩ := h.run_of_stopped hstop hlimit hf'
    exact ⟨hexecuted, hstop', hnamed⟩

theorem adds : m'.tally.adds = m.tally.adds := by
  rw [h.held'.exact.adds, h.held.exact.adds, h.references, h.removes]

/-- With all identities apart both tallies show the same figures. -/
theorem stats (hn : m.main.identities.Nodup) (hn' : m'.main.identities.Nodup) : m'.tally.stats = m.tally.stats := by
  have htracked : m'.tally.counts.length = m.tally.counts.length :=
    (placed_of_held h.held' hn').trackedItems.trans (h.depth.trans (placed_of_held h.held hn).trackedItems.symm)
  simp only [Tally.stats, h.references, h.peak, htracked, h.adds, h.removes]

end Named

end Machine

/-! ## Reports -/

namespace Report

/-- A report with other identities for the items in it. -/
def rename (f : Nat → Nat) (r : Report) : Report :=
  { r with stack := r.stack.map (Item.rename f), target := r.target.map (Item.rename f) }

/-- Two reports are the same up to identities: one report with numbered items, under the names of two supplies. -/
def Same (supply supply' : Nat → Nat) (r r' : Report) : Prop :=
  ∃ numbered : Report, r = numbered.rename supply ∧ r' = numbered.rename supply'

variable (f : Nat → Nat) (r : Report)

/-- The text of a report shows no identity. -/
theorem text_rename : (r.rename f).text = r.text := by
  have hitems : ∀ items : List Item, itemsText (items.map (Item.rename f)) = itemsText items := by
    intro items
    rw [itemsText, itemsText, List.map_map]
    exact congrArg Text.bracketed (List.map_congr_left fun x _ => Item.text_rename f x)
  simp only [text, textLines, rename, journalLines, hitems, List.isEmpty_map]
  rfl

/-- The document of a report shows no identity. -/
theorem document_rename : (r.rename f).document = r.document := by
  simp only [document, rename, ← Item.renameAll_eq_map, Item.documents_renameAll]

variable {r} {r' : Report} {supply supply' : Nat → Nat}

/-- Reports that are the same up to identities have one text. -/
theorem Same.text_eq (h : Same supply supply' r r') : r'.text = r.text := by
  obtain ⟨numbered, rfl, rfl⟩ := h
  rw [text_rename, text_rename]

/-- They have one document. -/
theorem Same.document_eq (h : Same supply supply' r r') : r'.document = r.document := by
  obtain ⟨numbered, rfl, rfl⟩ := h
  rw [document_rename, document_rename]

end Report

namespace Machine.Named

variable {supply : Nat → Nat} {e e' : Ending} (h : Named supply e.machine e'.machine)
include h

/-- The report of the one machine is the report of the other with the items named, so far as it is about the machines and
not about journals. -/
theorem report (hn : e.machine.main.identities.Nodup) (hn' : e'.machine.main.identities.Nodup) :
    e'.report = { e.report.rename supply with
      executed := e'.executed
      journalEnabled := e'.machine.main.journal.enabled
      journal := e'.machine.main.journal.records
      fault := e'.report.fault } := by
  simp only [Ending.report, Report.rename, Stack.fromTop, h.items, h.items_target, List.map_reverse, h.stats hn hn',
    h.observations]

end Machine.Named

/-! ## Scripts -/

variable {s s' : Settings} {supply : Nat → Nat} {lines : List Line}

theorem nodup_runWith (hfresh : Fresh s supply lines) : (runWith s supply lines).machine.main.identities.Nodup :=
  identities_nodup hfresh (List.append_nil lines).symm

theorem nodup_runLines (s : Settings) (lines : List Line) : (runLines s lines).machine.main.identities.Nodup :=
  nodup_runWith (fresh_of_injective s Function.injective_id lines)

/-- No line switches the journal on or off. -/
theorem enabled_runWith (s : Settings) (supply : Nat → Nat) (lines : List Line) :
    (runWith s supply lines).machine.main.journal.enabled = s.journal :=
  (Machine.run_moves _ supply lines).enabled

/-- Under the same limit, journals on or off, the lines do the same to the items that any supply names. -/
theorem named_runWith (hlimit : s'.limit = s.limit) (supply : Nat → Nat) (lines : List Line) :
    (runWith s' supply lines).executed = (runLines s lines).executed ∧
      (runWith s' supply lines).stop = (runLines s lines).stop ∧
      Machine.Named supply (runLines s lines).machine (runWith s' supply lines).machine :=
  (Machine.named_start supply s s').run hlimit.ge (Or.inl hlimit)

/-- No record of the journal names an item. -/
theorem journal_runWith (s : Settings) (supply : Nat → Nat) (lines : List Line) :
    (runWith s supply lines).machine.main.journal = (runLines s lines).machine.main.journal := by
  obtain ⟨-, -, hnamed⟩ := named_runWith (s := s) rfl supply lines
  exact hnamed.journal ((enabled_runWith s supply lines).trans (enabled_runWith s id lines).symm)

/-- Where a run leaves the machine of a numbered run with the items named, and both have journals or neither has, its
report is that of the numbered run with the items named, but for what it says about the lines. -/
theorem report_of_named {lines' : List Line} (hjournal : s'.journal = s.journal)
    (hnamed : Machine.Named supply (runLines s lines).machine (runWith s' supply lines').machine)
    (hfresh : Fresh s' supply lines') :
    (runWith s' supply lines').report = { (runLines s lines).report.rename supply with
      executed := (runWith s' supply lines').executed
      fault := (runWith s' supply lines').report.fault } := by
  have henabled : (runWith s' supply lines').machine.main.journal.enabled =
      (runLines s lines).machine.main.journal.enabled :=
    (enabled_runWith s' supply lines').trans (hjournal.trans (enabled_runWith s id lines).symm)
  rw [hnamed.report (nodup_runLines s lines) (nodup_runWith hfresh), hnamed.journal henabled]
  rfl

/-- A report is that of the numbered run with the items named. -/
theorem report_of_fresh (hfresh : Fresh s supply lines) :
    (runWith s supply lines).report = (runLines s lines).report.rename supply := by
  obtain ⟨hexecuted, hstop, hnamed⟩ := named_runWith (s := s) rfl supply lines
  have hfault : (runWith s supply lines).report.fault = (runLines s lines).report.fault := by
    simp only [Ending.report, hstop]
  rw [report_of_named rfl hnamed hfresh, hexecuted, hfault]
  rfl

end OperandStack
