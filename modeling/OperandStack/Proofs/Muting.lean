import OperandStack.Proofs.Failure
import OperandStack.Proofs.Naming
import OperandStack.Proofs.Translation

/-!
# Journals are only looked at

A journal is written by every call and read by none. So worlds can be muted, which takes all journals away and switches
them off for stacks to come, and muting is a translation (`muting`): a muted world does what the world does, silently.
Sessions that also clear and read journals do the same, and between two calls such a visit leaves the muted world as it
was (`World.attend_muted`). Two sessions that differ only in their journals therefore have one muted session in common.
-/

namespace OperandStack

/-! ## Muted worlds -/

/-- A stack without a journal. -/
def Stack.muted (s : Stack) : Stack :=
  { s with journal := .empty false }

/-- A seat whose stack has no journal. -/
def Seat.muted (seat : Seat) : Seat :=
  { seat with stack := seat.stack.muted }

/-- A world whose stacks have no journals: their slots, owned or shared, and the counters. -/
def World.muted (w : World) : World :=
  { w with seats := w.seats.map Seat.muted }

/-- An action that creates no journal. -/
def Action.muted : Action → Action
  | .create k _ => .create k false
  | a => a

/-- A turn that says nothing of journals: the reply, the events, and the slots and the counters left behind. -/
def Turn.muted (t : Turn) : Turn :=
  { t with world := t.world.muted }

/-- A history that says nothing of journals. -/
def History.muted (h : History) : History :=
  { turns := h.turns.map Turn.muted, world := h.world.muted }

/-- A call on a stack without a journal does what it does on the stack. -/
theorem Stack.call_muted (s : Stack) (k : Counter) (c : Call) : s.muted.call k c =
    { s.call k c with stack := (s.call k c).stack.muted } := by
  have hrecorded : s.muted.recorded c = .empty false := World.recorded_eq_self (Or.inl rfl)
  simp only [Stack.call, hrecorded]
  rfl

/-- A copy does not look at journals. -/
theorem Stack.copyOnto_muted (source : Stack) (count : Option UInt64) (target : Stack) :
    source.muted.copyOnto count target.muted =
      ((source.copyOnto count target).1.muted, (source.copyOnto count target).2) := by
  have hcount : source.muted.copyCount count = source.copyCount count := rfl
  simp only [copyOnto, hcount]
  split <;> rfl

/-- To take the journals away changes nothing else that happens. -/
def muting : Translation where
  item := id
  stack := Stack.muted
  counter := id
  switch _ := false
  stack_new _ := rfl
  stack_clearJournal _ := rfl
  call s k c := by
    simp only [Call.map_id, id_eq, Stack.call_muted, Reply.map_id, funext Event.map_id, List.map_id']
  copyOnto source count target := by
    simp only [Stack.copyOnto_muted, funext Event.map_id, Option.map_id']
  receive k n := by
    simp only [Notice.map_id, id_eq, funext Event.map_id, Option.map_id']

theorem muting_world (w : World) : muting.world w = w.muted := by
  have hcounters : w.counters.map muting.counter = w.counters := List.map_id _
  simp only [Translation.world, hcounters]
  rfl

theorem muting_turn (t : Turn) : muting.turn t = t.muted := by
  have hreply : t.reply.map muting.item = t.reply := Reply.map_id t.reply
  have hevents : t.events.map (Event.map muting.item) = t.events := by
    rw [show Event.map muting.item = fun e => e from funext Event.map_id, List.map_id']
  simp only [Translation.turn, hreply, hevents, muting_world]
  rfl

theorem muting_action (a : Action) : muting.action a = a.muted := by
  cases a with
  | call i c => exact congrArg (Action.call i) (Call.map_id c)
  | notify k n => exact congrArg (Action.notify k) (Notice.map_id n)
  | _ => rfl

namespace World

/-- A muted action leaves in a muted world what the action leaves in the world, muted. -/
theorem act_muted (w : World) (a : Action) : w.muted.act a.muted = (w.act a).map Turn.muted := by
  rw [← muting_world, ← muting_action, muting.act_world, funext muting_turn]

/-- A world with another stack and another counter, its journals apart. -/
theorem muted_setStack_setCounter (w : World) (i k : Nat) (s : Stack) (c : Counter) :
    ((w.setStack i s).setCounter k c).muted = (w.muted.setStack i s.muted).setCounter k c := by
  rw [← muting_world, ← muting_world]
  exact (muting.setCounter_world _ k c).symm.trans (congrArg (·.setCounter k c) (muting.setStack_world w i s).symm)

/-- A run is possible with journals exactly where it is without, and leaves the same, muted. -/
theorem run_muted (w : World) (actions : List Action) :
    w.muted.run (actions.map Action.muted) = (w.run actions).map History.muted := by
  have hhistory : muting.history = History.muted := by
    funext h
    simp only [Translation.history, funext muting_turn, muting_world]
    rfl
  rw [← muting_world, ← hhistory, ← funext muting_action, muting.run_world]

/-- To clear a journal leaves the muted world as it was. -/
theorem muted_clearJournal {w : World} {i : Nat} {t : Turn} (h : w.act (.clearJournal i) = some t) :
    t.world.muted = w.muted := by
  obtain ⟨seat, hs, rfl⟩ := act_clearJournal_iff.mp h
  obtain ⟨hi, -⟩ := seat?_eq_some_iff.mp hs
  have hmuted : w.muted.seats[i]? = some seat.muted := by
    rw [muted, List.getElem?_map, hi]
    rfl
  have hset : (w.setStack i seat.stack.clearJournal).muted = w.muted.setStack i seat.muted.stack := by
    rw [← muting_world, ← muting_world, ← muting.setStack_world]
    rfl
  exact hset.trans (setStack_self hmuted)

end World

/-! ## Sessions -/

/-- What a session consists of: actions, and looks at the journals of stacks. -/
inductive Visit where
  | act (a : Action)
  | readJournal (seat : Nat)

/-- What a visit yields. -/
inductive Yield where
  | turn (t : Turn)
  | journal (j : Journal)

namespace Visit

/-- The action of a visit that is not about a journal; whether it creates one is left out. -/
def other? : Visit → Option Action
  | act (.clearJournal _) => none
  | act a => some a.muted
  | readJournal _ => none

/-- What a visit that is not about a journal yields, journals left out. -/
def answer? : Visit → Yield → Option Turn
  | act (.clearJournal _), _ => none
  | act _, .turn t => some t.muted
  | _, _ => none

/-- The actions of a session that are not about journals. -/
def others (visits : List Visit) : List Action :=
  visits.filterMap other?

/-- What they yield. -/
def answers (visits : List Visit) (yields : List Yield) : List Turn :=
  (visits.zip yields).filterMap fun p => p.1.answer? p.2

theorem other?_act {a : Action} (ha : ∀ i, a ≠ .clearJournal i) : (act a).other? = some a.muted := by
  cases a with
  | clearJournal i => exact absurd rfl (ha i)
  | _ => rfl

theorem answer?_act {a : Action} (ha : ∀ i, a ≠ .clearJournal i) (t : Turn) :
    (act a).answer? (.turn t) = some t.muted := by
  cases a with
  | clearJournal i => exact absurd rfl (ha i)
  | _ => rfl

theorem others_cons (v : Visit) (rest : List Visit) : others (v :: rest) = v.other?.toList ++ others rest := by
  rw [others, List.filterMap_cons]
  cases v.other? <;> rfl

theorem answers_cons (v : Visit) (rest : List Visit) (y : Yield) (yields : List Yield) :
    answers (v :: rest) (y :: yields) = (v.answer? y).toList ++ answers rest yields := by
  rw [answers, List.zip_cons_cons, List.filterMap_cons]
  cases v.answer? y <;> rfl

end Visit

namespace World

/-- A world after a visit; to look at a journal changes nothing. -/
def visit (w : World) : Visit → Option (Yield × World)
  | .act a => do
    let turn ← w.act a
    some (.turn turn, turn.world)
  | .readJournal i => do
    let seat ← w.seat? i
    some (.journal seat.stack.journal, w)

/-- The visits of a session in order. There is no such session where one of them is not possible. -/
def attend (w : World) : List Visit → Option (List Yield × World)
  | [] => some ([], w)
  | v :: rest => do
    let (yield, w) ← w.visit v
    let (yields, w) ← w.attend rest
    some (yield :: yields, w)

theorem attend_cons_iff {w : World} {v : Visit} {rest : List Visit} {yields : List Yield} {last : World} :
    w.attend (v :: rest) = some (yields, last) ↔ ∃ yield next yields', w.visit v = some (yield, next) ∧
      next.attend rest = some (yields', last) ∧ yields = yield :: yields' := by
  simp only [attend, Option.bind_eq_bind, Option.bind_eq_some_iff, Prod.exists, Option.some.injEq, Prod.mk.injEq]
  constructor
  · rintro ⟨yield, next, hv, yields', last', hr, rfl, rfl⟩
    exact ⟨yield, next, yields', hv, hr, rfl⟩
  · rintro ⟨yield, next, yields', hv, hr, rfl⟩
    exact ⟨yield, next, hv, yields', last, hr, rfl, rfl⟩

/-- A visit that is about a journal leaves the muted world as it was; any other does there what it does here. -/
theorem visit_muted {w next : World} {v : Visit} {yield : Yield} (h : w.visit v = some (yield, next)) :
    v.other? = none ∧ v.answer? yield = none ∧ next.muted = w.muted ∨
      ∃ a t, v.other? = some a ∧ v.answer? yield = some t ∧ w.muted.act a = some t ∧ t.world = next.muted := by
  cases v with
  | readJournal i =>
    obtain ⟨seat, -, hyield⟩ := Option.bind_eq_some_iff.mp h
    cases hyield
    exact Or.inl ⟨rfl, rfl, rfl⟩
  | act a =>
    obtain ⟨t, ht, hyield⟩ := Option.bind_eq_some_iff.mp h
    cases hyield
    by_cases ha : ∃ i, a = .clearJournal i
    · obtain ⟨i, rfl⟩ := ha
      exact Or.inl ⟨rfl, rfl, muted_clearJournal ht⟩
    · have hother : ∀ i, a ≠ .clearJournal i := fun i hi => ha ⟨i, hi⟩
      have hact : w.muted.act a.muted = some t.muted := by
        rw [act_muted, ht]
        rfl
      exact Or.inr ⟨_, _, Visit.other?_act hother, Visit.answer?_act hother t, hact, rfl⟩

/-- A session does what its actions do in the muted world, and leaves the world they leave there, muted. -/
theorem attend_muted {w last : World} {visits : List Visit} {yields : List Yield}
    (h : w.attend visits = some (yields, last)) : w.muted.run (Visit.others visits) =
      some { turns := Visit.answers visits yields, world := last.muted } := by
  -- A visit about a journal is no action of the muted run, and leaves the world that the rest of that run starts from.
  induction visits generalizing w yields with
  | nil =>
    cases h
    rfl
  | cons v rest ih =>
    obtain ⟨yield, next, yields', hv, hrest, rfl⟩ := attend_cons_iff.mp h
    have hrun := ih hrest
    rcases visit_muted hv with ⟨hother, hanswer, hnext⟩ | ⟨a, t, hother, hanswer, hact, hnext⟩
    · rw [Visit.others_cons, Visit.answers_cons, hother, hanswer, ← hnext]
      exact hrun
    · rw [Visit.others_cons, Visit.answers_cons, hother, hanswer]
      rw [← hnext] at hrun
      exact run_cons_iff.mpr ⟨t, _, hact, hrun, rfl⟩

end World

/-! ## Scripts -/

/-- A journal that is off stays empty. -/
theorem journal_withoutJournal (s : Settings) (supply : Nat → Nat) (lines : List Line) :
    (runWith s.withoutJournal supply lines).machine.main.journal = .empty false := by
  refine (Machine.run_moves _ supply lines).keeps (I := fun main _ _ => main.journal = .empty false) ?_ ?_ rfl
  · intro main target tally c hoff
    have hself : main.recorded c = main.journal := World.recorded_eq_self (Or.inl (congrArg Journal.enabled hoff))
    exact hself.trans hoff
  · intro main target tally count hoff
    exact hoff

/-! ## Non-interference -/

/-- Journals are only looked at. Actions are possible with journals exactly where they are without, and leave the same but
for journals. Take two sessions of one world, its journals apart, that differ only in which stacks they give journals
and in where they clear or read one: all their other actions leave the same replies, the same events and, step by step,
the same slots and counters. A script with journals off leaves the report that it leaves with the journals as they are
set, up to identities, but for the journal, which is off and empty. -/
theorem journals_immaterial :
    (∀ (w : World) (actions : List Action),
        w.muted.run (actions.map Action.muted) = (w.run actions).map History.muted) ∧
      (∀ (w w' : World), w.muted = w'.muted → ∀ (visits visits' : List Visit) (yields yields' : List Yield)
        (last last' : World), Visit.others visits = Visit.others visits' →
        w.attend visits = some (yields, last) → w'.attend visits' = some (yields', last') →
        Visit.answers visits yields = Visit.answers visits' yields' ∧ last.muted = last'.muted) ∧
      ∀ (s : Settings) (lines : List Line) (supply supply' : Nat → Nat), Fresh s supply lines →
        Fresh s.withoutJournal supply' lines →
        Report.Same supply supply' { (runWith s supply lines).report with journalEnabled := false, journal := [] }
            (runWith s.withoutJournal supply' lines).report ∧
          (runWith s.withoutJournal supply' lines).report.journalEnabled = false ∧
          (runWith s.withoutJournal supply' lines).report.journal = [] := by
  refine ⟨World.run_muted, ?_, ?_⟩
  · intro w w' hworld visits visits' yields yields' last last' hothers h h'
    have hrun := World.attend_muted h
    have hrun' := World.attend_muted h'
    rw [hworld, hothers, hrun'] at hrun
    obtain ⟨hanswers, hlast⟩ := History.mk.inj (Option.some.inj hrun)
    exact ⟨hanswers.symm, hlast.symm⟩
  · intro s lines supply supply' hfresh hfresh'
    have hlimit : s.withoutJournal.limit = s.limit := rfl
    obtain ⟨hexecuted, hstop, hnamed⟩ := named_runWith hlimit supply' lines
    have hfault : (runWith s.withoutJournal supply' lines).report.fault = (runLines s lines).report.fault := by
      simp only [Ending.report, hstop]
    have hjournal := journal_withoutJournal s supply' lines
    refine ⟨⟨{ (runLines s lines).report with journalEnabled := false, journal := [] }, ?_, ?_⟩, ?_, ?_⟩
    · rw [report_of_fresh hfresh]
      rfl
    · rw [hnamed.report (nodup_runLines s lines) (nodup_runWith hfresh'), hexecuted, hfault, hjournal]
      rfl
    · exact congrArg Journal.enabled hjournal
    · exact congrArg Journal.records hjournal

/-- An item that is pushed, looked for and popped, once with a journal that is read and cleared on the way. -/
def watched : List Visit :=
  [.act (.create 0 true), .act (.call 0 (.push ⟨0, .null⟩)), .readJournal 0, .act (.call 0 (.peek 1)),
    .act (.clearJournal 0), .act (.call 0 .pop), .readJournal 0]

/-- The same without a journal. -/
def unwatched : List Visit :=
  [.act (.create 0 false), .act (.call 0 (.push ⟨0, .null⟩)), .act (.call 0 (.peek 1)), .act (.call 0 .pop)]

theorem journals_immaterial_watched :
    (∃ yields yields' last last', (World.start [.tracking (.new 0)]).attend watched = some (yields, last) ∧
        (World.start [.tracking (.new 0)]).attend unwatched = some (yields', last') ∧ yields.length = 7 ∧
        Visit.answers watched yields = Visit.answers unwatched yields' ∧ last.muted = last'.muted ∧
        last.seats ≠ last'.seats) ∧
      (runWith {} id [⟨1, .push .null⟩]).report.journal = [{ op := .push }] ∧
      (runWith (Settings.withoutJournal {}) (· + 7) [⟨1, .push .null⟩]).report.journal = [] := by
  have hfresh : Fresh {} id [⟨1, .push .null⟩] := fresh_of_injective {} Function.injective_id _
  have hfresh' : Fresh (Settings.withoutJournal {}) (· + 7) [⟨1, .push .null⟩] :=
    fresh_of_injective _ (add_left_injective 7) _
  obtain ⟨hanswers, hlast⟩ := journals_immaterial.2.1 (.start [.tracking (.new 0)]) (.start [.tracking (.new 0)]) rfl
    watched unwatched _ _ _ _ rfl rfl rfl
  refine ⟨⟨_, _, _, _, rfl, rfl, rfl, hanswers, hlast, ?_⟩, rfl, ?_⟩
  · intro h
    cases h
  · exact (journals_immaterial.2.2 {} _ _ _ hfresh hfresh').2.2

end OperandStack
