import OperandStack.Proofs.Standing

/-!
# Warnings on upward crossings

A tally warns when its references rise above the limit, and is quiet until they have come back. Its flag is tied to the
count: it is set exactly while there are more references than the limit allows (`Tally.overLimit_after`). So a notice is
answered by a warning exactly when it is an addition that finds the references at the limit (`Tally.warns_iff`), and
between two warnings lies a removal that brought them back (`Tally.exists_return`). For the stacks of a world,
`World.exists_warning_iff` says which actions are answered by a warning.
-/

namespace OperandStack

/-- What a stack reports by itself is no warning. -/
theorem Event.level_ne_warn {e : Event} (h : e.ofCounter = false) : e.level ≠ .warn := by
  cases e with
  | ceilingCrossed references limit => cases h
  | _ =>
    intro hwarn
    cases hwarn

namespace Tally

/-- Whether a tally reports a warning when it hears a notice. -/
def Warns (t : Tally) (n : Notice) : Prop :=
  ∃ e, (t.receive n).2 = some e ∧ e.level = .warn

/-! ## One notice -/

section

variable {t : Tally} (hflag : t.overLimit = decide (t.limit < t.references))
include hflag

/-- The only warning is about one reference more than the limit allows. -/
theorem eq_ceilingCrossed {n : Notice} {e : Event} (h : (t.receive n).2 = some e) (hwarn : e.level = .warn) :
    e = .ceilingCrossed (t.limit + 1) t.limit ∧ n.isRemoval = false ∧ t.references = t.limit := by
  cases n with
  | added item =>
    simp only [receive, add, hflag, Bool.and_eq_true, decide_eq_true_eq, Bool.not_eq_true',
      decide_eq_false_iff_not] at h
    split at h
    · rename_i hcrosses
      have hfull : t.references = t.limit := by omega
      rw [hfull] at h
      exact ⟨(Option.some.inj h).symm, rfl, hfull⟩
    · cases h
  | removed item =>
    simp only [receive, remove] at h
    split at h
    · cases h
      cases hwarn
    · cases h

/-- A tally warns of an addition that finds the references at the limit, and of nothing else. -/
theorem warns_iff (n : Notice) : t.Warns n ↔ n.isRemoval = false ∧ t.references = t.limit := by
  constructor
  · rintro ⟨e, he, hwarn⟩
    exact (eq_ceilingCrossed hflag he hwarn).2
  · rintro ⟨hn, hfull⟩
    cases n with
    | added item =>
      refine ⟨.ceilingCrossed (t.references + 1) t.limit, ?_, rfl⟩
      simp [receive, add, hflag, hfull]
    | removed item => cases hn

/-- The check of the ceiling fails exactly while the flag is set. -/
theorem check_eq_error_iff : (∃ f, t.check = .error f) ↔ t.overLimit = true := by
  rw [hflag, check]
  by_cases hover : t.limit < t.references
  · simp [hover]
  · simp [hover]

end

/-- A removal that is ignored changes nothing but the number of removals. -/
theorem receive_of_ignored {t : Tally} {x : Item} (h : (t.receive (.removed x)).2 = some (.strayRemoval x)) :
    (t.receive (.removed x)).1 = { t with removes := t.removes + 1 } := by
  have hlookup : t.counts.lookup x.id = none := (remove_event_eq_iff t x).mp h
  simp only [receive, remove, hlookup]

/-- A removal that leaves fewer references is not ignored. -/
theorem event_of_fewer {t : Tally} {x : Item} (h : (t.receive (.removed x)).1.references < t.references) :
    (t.receive (.removed x)).2 = none := by
  simp only [receive, remove] at h ⊢
  split at h
  · exact absurd h (Nat.lt_irrefl _)
  · rfl

/-! ## New tallies after notices -/

variable (limit : Nat) (notices : List Notice)

theorem limit_after : (after limit notices).limit = limit :=
  (Listener.overLimit_receiveAll (t := new limit) rfl notices).1

/-- The flag is set exactly while there are more references than the limit allows. -/
theorem overLimit_after : (after limit notices).overLimit =
    decide ((after limit notices).limit < (after limit notices).references) :=
  (Listener.overLimit_receiveAll (t := new limit) rfl notices).2

/-- References that have come back from above the limit were brought back by a removal. -/
theorem exists_return {limit : Nat} {notices between : List Notice} (habove : limit < (after limit notices).references)
    (hback : (after limit (notices ++ between)).references ≤ limit) :
    ∃ start x rest, between = start ++ .removed x :: rest ∧ limit < (after limit (notices ++ start)).references ∧
      ((after limit (notices ++ start)).receive (.removed x)).2 = none ∧
      (after limit (notices ++ start ++ [.removed x])).references ≤ limit := by
  induction between generalizing notices with
  | nil =>
    rw [List.append_nil] at hback
    omega
  | cons n between ih =>
    by_cases hnext : limit < (after limit (notices ++ [n])).references
    · rw [List.append_cons] at hback
      obtain ⟨start, x, rest, rfl, hstart, hheeded, hreturn⟩ := ih hnext hback
      exact ⟨n :: start, x, rest, rfl, by simpa using hstart, by simpa using hheeded, by simpa using hreturn⟩
    · -- This notice is the first that leaves no more references than the limit allows.
      cases n with
      | added item =>
        have hmore : (after limit (notices ++ [.added item])).references = (after limit notices).references + 1 := by
          rw [after_concat]
          rfl
        omega
      | removed x =>
        have hfewer := hnext
        rw [after_concat] at hfewer
        refine ⟨[], x, between, rfl, by simpa using habove, ?_, by simpa using Nat.le_of_not_lt hnext⟩
        rw [List.append_nil]
        exact event_of_fewer (by omega)

/-- What a tally does at its limit: its flag is set and its check fails exactly while there are more references, a
notice is answered by a warning exactly when it is an addition that finds as many references as the limit allows, and
what is ignored leaves the flag alone, like all else but the number of removals. -/
structure Watches (t : Tally) : Prop where
  flag : t.overLimit = true ↔ t.limit < t.stats.references
  check : (∃ f, t.check = .error f) ↔ t.overLimit = true
  warns : ∀ n, t.Warns n ↔ n.isRemoval = false ∧ t.stats.references = t.limit
  warning : ∀ n e, (t.receive n).2 = some e → e.level = .warn → e = .ceilingCrossed (t.limit + 1) t.limit
  ignored : ∀ x, (t.receive (.removed x)).2 = some (.strayRemoval x) →
    (t.receive (.removed x)).1 = { t with removes := t.removes + 1 }

theorem watches_of_flag {t : Tally} (hflag : t.overLimit = decide (t.limit < t.references)) : t.Watches where
  flag := by
    rw [hflag, decide_eq_true_eq]
    rfl
  check := check_eq_error_iff hflag
  warns := warns_iff hflag
  warning _ _ he hwarn := (eq_ceilingCrossed hflag he hwarn).1
  ignored _ := receive_of_ignored

end Tally

/-! ## Stacks and direct notices -/

/-- Notices as an action gives them: of one item that comes, or of items that leave. -/
def Notice.OneWay (notices : List Notice) : Prop :=
  (∃ x, notices = [.added x]) ∨ ∀ n ∈ notices, n.isRemoval = true

namespace Listener

/-- A tally that hears of removals only does not warn. -/
theorem level_ne_warn_of_removals {t : Tally} {notices : List Notice} (h : ∀ n ∈ notices, n.isRemoval = true)
    {e : Event} (he : e ∈ (receiveAll t notices).2) : e.level ≠ .warn := by
  induction notices generalizing t with
  | nil => cases he
  | cons n rest ih =>
    rw [receiveAll_cons] at he
    rcases List.mem_append.mp he with he | he
    · have hn := h n List.mem_cons_self
      cases n with
      | added item => cases hn
      | removed item =>
        have hevent : (t.remove item).2 = some e := Option.mem_toList.mp he
        rw [Tally.remove] at hevent
        split at hevent
        · cases hevent
          intro hwarn
          cases hwarn
        · cases hevent
    · exact ih (fun m hm => h m (List.mem_cons_of_mem n hm)) he

/-- A counter that is no tally reports nothing. -/
theorem receiveAll_events_of_not_tracking {c : Counter} (hc : ∀ t, c ≠ .tracking t) (notices : List Notice) :
    (receiveAll c notices).2 = [] := by
  induction notices generalizing c with
  | nil => rfl
  | cons n rest ih =>
    rw [receiveAll_cons]
    cases c with
    | tracking t => exact absurd rfl (hc t)
    | silent => exact ih (c := .silent) (by simp)
    | recording heard => exact ih (c := .recording (heard ++ [n])) (by simp)

/-- A counter warns of what an action has it hear exactly when it is a tally at its limit and hears of an addition. -/
theorem exists_warning_iff {c : Counter}
    (hflag : ∀ t, c = .tracking t → t.overLimit = decide (t.limit < t.references)) {notices : List Notice}
    (h : Notice.OneWay notices) :
    (∃ e ∈ (receiveAll c notices).2, e.level = .warn) ↔
      ∃ t x, c = .tracking t ∧ notices = [.added x] ∧ t.references = t.limit := by
  by_cases hc : ∃ t, c = .tracking t
  · obtain ⟨t, rfl⟩ := hc
    rw [receiveAll_tracking]
    rcases h with ⟨x, rfl⟩ | h
    · have hwarns : (∃ e ∈ (receiveAll t [.added x]).2, e.level = .warn) ↔ t.Warns (.added x) := by
        simp only [receiveAll_cons, receiveAll_nil, List.append_nil, Option.mem_toList]
        exact Iff.rfl
      rw [hwarns, Tally.warns_iff (hflag t rfl)]
      constructor
      · rintro ⟨-, hfull⟩
        exact ⟨t, x, rfl, rfl, hfull⟩
      · rintro ⟨t', x', ht, -, hfull⟩
        cases ht
        exact ⟨rfl, hfull⟩
    · constructor
      · rintro ⟨e, he, hwarn⟩
        exact absurd hwarn (level_ne_warn_of_removals h he)
      · rintro ⟨t', x, -, rfl, -⟩
        cases h _ List.mem_cons_self
  · have hnone := receiveAll_events_of_not_tracking (fun t ht => hc ⟨t, ht⟩) notices
    constructor
    · rintro ⟨e, he, -⟩
      rw [hnone] at he
      cases he
    · rintro ⟨t, x, ht, -⟩
      exact absurd ⟨t, ht⟩ hc

end Listener

/-- The notices of a change are of one item that comes or of items that leave. -/
theorem Change.oneWay {slots after : List Slot} {notices : List Notice} (h : Change slots notices after) :
    Notice.OneWay notices := by
  rcases h.owned_perm with ⟨item, rfl, -⟩ | ⟨items, rfl, -⟩
  · exact Or.inl ⟨item, rfl⟩
  · refine Or.inr fun n hn => ?_
    obtain ⟨item, -, rfl⟩ := List.mem_map.mp hn
    rfl

namespace World

/-- What is a tally at the end of a run was one at the start, with the same limit, and it watches the limit. -/
theorem run_watched {counters : List Counter} (hnew : ∀ c ∈ counters, c.New) {actions : List Action} {h : History}
    (hr : (start counters).run actions = some h) {k : Nat} {t : Tally}
    (hk : h.world.counters[k]? = some (.tracking t)) :
    counters[k]? = some (.tracking (.new t.limit)) ∧ t.overLimit = decide (t.limit < t.references) := by
  have hlength : h.world.counters.length = counters.length :=
    run_keeps (I := fun w => w.counters.length = counters.length)
      (fun hw ht => (length_counters_act ht).trans hw) hr rfl
  have hlt : k < counters.length := hlength ▸ (List.getElem?_eq_some_iff.mp hk).1
  have hc : counters[k]? = some counters[k] := List.getElem?_eq_getElem hlt
  by_cases htally : ∃ t₀, counters[k] = .tracking t₀
  · obtain ⟨t₀, ht₀⟩ := htally
    rw [ht₀] at hc
    obtain ⟨hlimit, hflag⟩ := run_overLimit hnew hr hc hk
    have hstart : t₀ = .new t₀.limit := hnew _ (List.mem_of_getElem? hc)
    refine ⟨?_, hflag⟩
    rw [hlimit, ← hstart]
    exact hc
  · -- A counter that is no tally does not become one.
    have hy : (Yard.bare counters.length : Yard Tagged).map Tagged.slot = (start counters).shelves := rfl
    obtain ⟨-, -, -, hheard⟩ := run_tagged hy hr
    have hend := hheard k _ hc
    rw [hk] at hend
    have hnone := Listener.not_tracking_of_not_tracking (fun t₀ ht₀ => htally ⟨t₀, ht₀⟩)
      ((Yard.bare counters.length : Yard Tagged).trace k actions)
    exact absurd (Option.some.inj hend).symm (hnone.1 t)

/-- What is a tally at the end of a run has come about by the notices that it heard. -/
theorem run_eq_after {counters : List Counter} (hnew : ∀ c ∈ counters, c.New) {actions : List Action} {h : History}
    (hr : (start counters).run actions = some h) {k : Nat} {t : Tally}
    (hk : h.world.counters[k]? = some (.tracking t)) :
    t = Tally.after t.limit ((Yard.bare counters.length : Yard Tagged).trace k actions) := by
  have hstart := (run_watched hnew hr hk).1
  have hy : (Yard.bare counters.length : Yard Tagged).map Tagged.slot = (start counters).shelves := rfl
  obtain ⟨-, -, -, hheard⟩ := run_tagged hy hr
  have hend := hheard k _ hstart
  rw [hk, Listener.receiveAll_tracking] at hend
  exact Counter.tracking.inj (Option.some.inj hend)

/-- Of an action either no counter hears, and no counter reports anything; or one counter hears of it, and what it
reports is all that counters report. -/
theorem act_reported {w : World} {y : Yard Tagged} (hy : y.map Tagged.slot = w.shelves) {a : Action} {t : Turn}
    (h : w.act a = some t) :
    ((∀ k, y.heard k a = []) ∧ ∀ e ∈ t.events, e.ofCounter = false) ∨
      ∃ k c own, w.counters[k]? = some c ∧ Notice.OneWay (y.heard k a) ∧ (∀ j, y.heard j a ≠ [] → j = k) ∧
        t.events = (Listener.receiveAll c (y.heard k a)).2 ++ own ∧ ∀ e ∈ own, e.ofCounter = false := by
  cases a with
  | call i call =>
    obtain ⟨seat, counter, hs, hc, rfl⟩ := act_call_iff.mp h
    obtain ⟨p, hp, hpk, hslots⟩ := pile?_of_seat? hy hs
    have hheard : y.heard seat.counter (.call i call) = (call.effect seat.stack.slots).notices := by
      simp only [Yard.heard, hp, hpk, if_true, hslots, Call.effect_notices]
    refine Or.inr ⟨seat.counter, counter, (call.effect seat.stack.slots).event.toList, hc, ?_, ?_, ?_, ?_⟩
    · rw [hheard]
      exact (call.effect_change seat.stack.slots).oneWay
    · intro j hj
      by_contra hne
      refine hj ?_
      simp only [Yard.heard, hp, hpk, if_neg (Ne.symm hne)]
    · rw [hheard]
      exact seat.stack.call_events counter call
    · intro e he
      exact Call.event_not_ofCounter (Option.mem_toList.mp he)
  | notify k n =>
    obtain ⟨counter, hc, rfl⟩ := act_notify_iff.mp h
    have hheard : y.heard k (.notify k n) = [n] := if_pos rfl
    refine Or.inr ⟨k, counter, [], hc, ?_, ?_, ?_, by simp⟩
    · rw [hheard]
      cases n with
      | added item => exact Or.inl ⟨item, rfl⟩
      | removed item => exact Or.inr (by simp [Notice.isRemoval])
    · intro j hj
      by_contra hne
      exact hj (if_neg (Ne.symm hne))
    · rw [hheard, Listener.receiveAll_cons, Listener.receiveAll_nil, List.append_nil, List.append_nil]
      rfl
  | copy i j count =>
    obtain ⟨source, target, -, -, -, rfl⟩ := act_copy_iff.mp h
    refine Or.inl ⟨fun _ => rfl, fun e he => ?_⟩
    simp only [Stack.copyOnto] at he
    split at he
    · cases he
    · cases List.mem_singleton.mp he
      rfl
  | clearJournal i =>
    obtain ⟨seat, -, rfl⟩ := act_clearJournal_iff.mp h
    exact Or.inl ⟨fun _ => rfl, by simp⟩
  | create k journal =>
    obtain ⟨-, rfl⟩ := act_create_iff.mp h
    exact Or.inl ⟨fun _ => rfl, by simp⟩
  | discard i =>
    obtain ⟨-, rfl⟩ := act_discard_iff.mp h
    exact Or.inl ⟨fun _ => rfl, by simp⟩

/-- An action is answered by a warning exactly when it has a tally at its limit hear of an addition. -/
theorem exists_warning_iff {w : World} {y : Yard Tagged} (hy : y.map Tagged.slot = w.shelves)
    (hflag : ∀ (k : Nat) (t : Tally), w.counters[k]? = some (.tracking t) →
      t.overLimit = decide (t.limit < t.references)) {a : Action} {t : Turn} (h : w.act a = some t) :
    (∃ e ∈ t.events, e.level = .warn) ↔ ∃ (k : Nat) (tally : Tally) (x : Item),
      w.counters[k]? = some (.tracking tally) ∧ y.heard k a = [.added x] ∧ tally.references = tally.limit := by
  rcases act_reported hy h with ⟨hnone, hown⟩ | ⟨k, c, own, hk, honeWay, honly, hevents, hown⟩
  · constructor
    · rintro ⟨e, he, hwarn⟩
      exact absurd hwarn (Event.level_ne_warn (hown e he))
    · rintro ⟨k, tally, x, -, hheard, -⟩
      rw [hnone] at hheard
      cases hheard
  · have hcounter := Listener.exists_warning_iff (c := c) (fun t ht => hflag k t (ht ▸ hk)) honeWay
    constructor
    · rintro ⟨e, he, hwarn⟩
      rw [hevents] at he
      rcases List.mem_append.mp he with he | he
      · obtain ⟨tally, x, rfl, hheard, hfull⟩ := hcounter.mp ⟨e, he, hwarn⟩
        exact ⟨k, tally, x, hk, hheard, hfull⟩
      · exact absurd hwarn (Event.level_ne_warn (hown e he))
    · rintro ⟨j, tally, x, hj, hheard, hfull⟩
      obtain rfl : j = k := honly j (by simp [hheard])
      rw [hk] at hj
      obtain ⟨e, he, hwarn⟩ := hcounter.mpr ⟨tally, x, Option.some.inj hj, hheard, hfull⟩
      exact ⟨e, hevents ▸ List.mem_append_left own he, hwarn⟩

end World

/-- A tally watches its limit, whatever notices it has heard: `Tally.Watches` says what this means. Between two warnings
lies a removal, not an ignored one, that finds more references than the limit allows and brings them back to it. So it
is for tallies of a world, which come about by the notices that their stacks and others give them: an action is answered
by a warning exactly when it has a tally at its limit hear of an addition. -/
theorem warnings_at_crossings :
    (∀ limit notices, (Tally.after limit notices).limit = limit ∧ (Tally.after limit notices).Watches) ∧
    (∀ (limit : Nat) (before : List Notice) (m : Notice) (between : List Notice) (n : Notice),
      (Tally.after limit before).Warns m → (Tally.after limit (before ++ m :: between)).Warns n →
      ∃ start x rest, between = start ++ .removed x :: rest ∧
        limit < (Tally.after limit (before ++ m :: start)).stats.references ∧
        ((Tally.after limit (before ++ m :: start)).receive (.removed x)).2 = none ∧
        (Tally.after limit (before ++ m :: start ++ [.removed x])).stats.references ≤ limit) ∧
    ∀ counters : List Counter, (∀ c ∈ counters, c.New) → ∀ actions h, (World.start counters).run actions = some h →
      ∃ last : Yard Tagged, (Yard.bare counters.length).run actions = some (h.turns.map Turn.reply, last) ∧
        (∀ (k limit : Nat), counters[k]? = some (.tracking (.new limit)) → h.world.counters[k]? =
          some (.tracking (Tally.after limit ((Yard.bare counters.length : Yard Tagged).trace k actions)))) ∧
        ∀ a t, h.world.act a = some t → ((∃ e ∈ t.events, e.level = .warn) ↔
          ∃ (k : Nat) (tally : Tally) (x : Item), h.world.counters[k]? = some (.tracking tally) ∧
            last.heard k a = [.added x] ∧ tally.stats.references = tally.limit) := by
  refine ⟨fun limit notices => ?_, fun limit before m between n hm hn => ?_, fun counters hnew actions h hr => ?_⟩
  · exact ⟨Tally.limit_after limit notices, Tally.watches_of_flag (Tally.overLimit_after limit notices)⟩
  · obtain ⟨hadded, hfull⟩ := (Tally.warns_iff (Tally.overLimit_after limit before) m).mp hm
    obtain ⟨-, hagain⟩ := (Tally.warns_iff (Tally.overLimit_after limit _) n).mp hn
    rw [Tally.limit_after] at hfull hagain
    have habove : limit < (Tally.after limit (before ++ [m])).references := by
      rw [Tally.after_concat]
      cases m with
      | added item => exact Nat.lt_succ_of_le hfull.ge
      | removed item => cases hadded
    rw [List.append_cons] at hagain
    obtain ⟨start, x, rest, hbetween, hstart, hheeded, hback⟩ := Tally.exists_return habove hagain.le
    rw [← List.append_cons] at hstart hheeded hback
    exact ⟨start, x, rest, hbetween, hstart, hheeded, hback⟩
  · have hy : (Yard.bare counters.length : Yard Tagged).map Tagged.slot = (World.start counters).shelves := rfl
    obtain ⟨last, hl, hlast, hheard⟩ := World.run_tagged hy hr
    refine ⟨last, hl, fun k limit hk => ?_, fun a t ht => ?_⟩
    · rw [hheard k _ hk, Listener.receiveAll_tracking]
      rfl
    · exact World.exists_warning_iff hlast (fun k tally hk => (World.run_watched hnew hr hk).2) ht

/-- A tally without room for any reference: one comes, an unknown one does not leave, it leaves, another one comes. -/
theorem warnings_at_crossings_rearmed :
    (Tally.after 0 []).Warns (.added ⟨0, .null⟩) ∧
      (Tally.after 0 [.added ⟨0, .null⟩, .removed ⟨1, .null⟩, .removed ⟨0, .null⟩]).Warns (.added ⟨1, .null⟩) ∧
      (∃ start x rest, [Notice.removed ⟨1, .null⟩, .removed ⟨0, .null⟩] = start ++ .removed x :: rest ∧
        ((Tally.after 0 ([] ++ .added ⟨0, .null⟩ :: start)).receive (.removed x)).2 = none) ∧
      ∃ h t, (World.start [.tracking (.new 0)]).run [.create 0 true] = some h ∧
        h.world.act (.call 0 (.push ⟨0, .null⟩)) = some t ∧ ∃ e ∈ t.events, e.level = .warn := by
  obtain ⟨hwatches, hbetween, hworlds⟩ := warnings_at_crossings
  have hfirst : (Tally.after 0 []).Warns (.added ⟨0, .null⟩) := ((hwatches 0 []).2.warns _).mpr ⟨rfl, rfl⟩
  have hsecond : (Tally.after 0 [.added ⟨0, .null⟩, .removed ⟨1, .null⟩, .removed ⟨0, .null⟩]).Warns
      (.added ⟨1, .null⟩) := ((hwatches 0 _).2.warns _).mpr ⟨rfl, rfl⟩
  obtain ⟨start, x, rest, hsplit, -, hheeded, -⟩ :=
    hbetween 0 [] _ [.removed ⟨1, .null⟩, .removed ⟨0, .null⟩] _ hfirst hsecond
  have hnew : ∀ c ∈ [Counter.tracking (.new 0)], c.New := by simp [Counter.New, Tally.new]
  obtain ⟨last, hlast, -, hact⟩ := hworlds _ hnew [.create 0 true] _ rfl
  cases hlast
  exact ⟨hfirst, hsecond, ⟨start, x, rest, hsplit, hheeded⟩, _, _, rfl, rfl,
    (hact (.call 0 (.push ⟨0, .null⟩)) _ rfl).mpr ⟨0, .new 0, ⟨0, .null⟩, rfl, rfl, rfl⟩⟩

end OperandStack
