import OperandStack.Proofs.FixedWidth.Tally
import OperandStack.Proofs.Warning

/-!
# Worlds in words of 64 bits

An action of a world with its arithmetic in words. The tallies of a world that came about by a run are sound, so that an
action traps at most where a stack is deeper than the largest signed word, or a tally has heard of more than a word can
say (`FixedWidth.act_eq`).
-/

namespace OperandStack

namespace World

/-- Every stack is no deeper than the largest signed word. -/
def Shallow (w : World) : Prop :=
  ∀ seat ∈ w.seats, seat.stack.depth ≤ FixedWidth.signedMax

/-- The notices that each tally has heard are fewer than a word can count. -/
def Countable (w : World) : Prop :=
  ∀ (k : Nat) (t : Tally), w.counters[k]? = some (.tracking t) → t.stats.adds + t.stats.removes < UInt64.size

/-- The tallies of a world that a run from new counters leaves are sound. -/
theorem run_sound {counters : List Counter} (hnew : ∀ c ∈ counters, c.New) {actions : List Action} {h : History}
    (hr : (start counters).run actions = some h) {k : Nat} {t : Tally}
    (hk : h.world.counters[k]? = some (.tracking t)) : t.Sound := by
  rw [run_eq_after hnew hr hk]
  exact Tally.sound_after _ _

end World

namespace FixedWidth

/-- A world after an action. Clearing a journal, creating a stack and discarding one are no arithmetic. -/
def act (w : World) : Action → Except Trap (Option Turn)
  | .call i c =>
    match w.seat? i with
    | none => .ok none
    | some seat =>
      match w.counters[seat.counter]? with
      | none => .ok none
      | some counter => do
        let step ← call seat.stack counter c
        .ok (some
          { reply := step.reply
            world := (w.setStack i step.stack).setCounter seat.counter step.listener
            events := step.events })
  | .copy i j count =>
    match w.seat? i, w.seat? j with
    | some source, some target =>
      if i = j then .ok none
      else do
        let (stack, event) ← copyOnto source.stack count target.stack
        .ok (some { reply := .done, world := w.setStack j stack, events := event.toList })
    | _, _ => .ok none
  | .notify k notice =>
    match w.counters[k]? with
    | none => .ok none
    | some counter => do
      let (counter, events) ← receiveAll counter [notice]
      .ok (some { reply := .done, world := w.setCounter k counter, events })
  | .clearJournal i => .ok (w.act (.clearJournal i))
  | .create k journal => .ok (w.act (.create k journal))
  | .discard i => .ok (w.act (.discard i))

/-- On shallow stacks no action traps that leaves tallies with countable notices, and each does what the exact one
does. -/
theorem act_eq {w : World} (hsound : ∀ (k : Nat) (t : Tally), w.counters[k]? = some (.tracking t) → t.Sound)
    (hdepth : w.Shallow) {a : Action} (hheard : ∀ turn, w.act a = some turn → turn.world.Countable) :
    act w a = .ok (w.act a) := by
  have hshallow : ∀ {i : Nat} {seat : Seat}, w.seat? i = some seat → seat.stack.slots.length ≤ signedMax := by
    intro i seat hs
    exact hdepth seat (List.mem_of_getElem? (World.seat?_eq_some_iff.mp hs).1)
  cases a with
  | call i c =>
    cases hs : w.seat? i with
    | none => simp [act, World.act, hs]
    | some seat =>
      cases hk : w.counters[seat.counter]? with
      | none => simp [act, World.act, hs, hk]
      | some counter =>
        have hact := (World.act_call_iff (c := c)).mpr ⟨seat, counter, hs, hk, rfl⟩
        have hcountable := hheard _ hact seat.counter
        rw [World.getElem?_counters_setCounter (w := w.setStack i (seat.stack.call counter c).stack) hk,
          if_pos rfl] at hcountable
        have hcounter := receiveAll_counter (fun t ht => hsound _ t (ht ▸ hk)) (c.effect seat.stack.slots).notices
          fun t ht => hcountable t (congrArg some ht)
        rw [hact]
        simp only [act, hs, hk, call_eq (hshallow hs) hcounter, bind, Except.bind]
  | copy i j count =>
    cases hs : w.seat? i with
    | none => simp [act, World.act, hs]
    | some source =>
      cases ht : w.seat? j with
      | none => simp [act, World.act, hs, ht]
      | some target =>
        simp only [act, World.act, hs, ht, copyOnto_eq (hshallow hs), bind, Except.bind, Option.bind_some]
        split <;> rfl
  | notify k notice =>
    cases hk : w.counters[k]? with
    | none => simp [act, World.act, hk]
    | some counter =>
      have hact : w.act (.notify k notice) = some _ := World.act_notify_iff.mpr ⟨counter, hk, rfl⟩
      have hcountable := hheard _ hact k
      rw [World.getElem?_counters_setCounter hk, if_pos rfl] at hcountable
      have hcounter := receiveAll_counter (fun t ht => hsound _ t (ht ▸ hk)) [notice]
        fun t ht => hcountable t (congrArg some ht)
      rw [Listener.receiveAll_cons, Listener.receiveAll_nil, List.append_nil] at hcounter
      rw [hact]
      simp only [act, hk, hcounter, bind, Except.bind]
      rfl
  | clearJournal i => rfl
  | create k journal => rfl
  | discard i => rfl

end FixedWidth

end OperandStack
