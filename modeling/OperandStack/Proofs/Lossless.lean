import OperandStack.Proofs.Likeness
import OperandStack.Run.Report

/-!
# Documents of reports and journals

The compact form of a report determines every field of it, the items on its stacks up to their identities
(`Report.Alike`), and the compact form of a journal determines its records. Since a compact form belongs to one document
only, it is left to see that each part of a report can be read off its document: the figures, the records with an index
or with none, the observations, and the fault or the lack of one.
-/

namespace OperandStack

/-! ## Parts of documents -/

/-- Where a value may be missing, its document tells it and is not the one for the lack of a value. -/
theorem Json.optional_map_injective {α : Type} {f : α → Json} (hf : Function.Injective f) (hnull : ∀ x, f x ≠ .null) :
    Function.Injective fun o : Option α => optional (o.map f) := by
  intro o o' h
  cases o with
  | none =>
    cases o' with
    | none => rfl
    | some y => exact absurd h.symm (hnull y)
  | some x =>
    cases o' with
    | none => exact absurd h (hnull x)
    | some y => exact congrArg some (hf h)

theorem Stats.document_injective : Function.Injective Stats.document := by
  intro s s' h
  obtain ⟨references, peak, trackedItems, adds, removes⟩ := s
  obtain ⟨references', peak', trackedItems', adds', removes'⟩ := s'
  simp only [document, Json.object.injEq, List.cons.injEq, Prod.mk.injEq, Json.nat_injective.eq_iff, true_and,
    and_true] at h
  obtain ⟨rfl, rfl, rfl, rfl, rfl⟩ := h
  rfl

namespace Journal

theorem Op.name_injective : Function.Injective Op.name := by
  have hall : ∀ op : Op, op ∈ [none, clear, insert, peek, pop, push, remove, reverse, set] := by
    intro op
    cases op <;> decide
  exact injective_of_nodup_map hall (by decide)

theorem Record.document_injective : Function.Injective Record.document := by
  intro r r' h
  obtain ⟨op, index⟩ := r
  obtain ⟨op', index'⟩ := r'
  have hnumber : Function.Injective fun i : Int64 => Json.number i.toInt :=
    fun _ _ hi => Int64.toInt_inj.mp (Json.number.inj hi)
  have hnull : ∀ i : Int64, Json.number i.toInt ≠ .null := by
    intro i hi
    cases hi
  have hindex := Json.optional_map_injective hnumber hnull
  simp only [document, Json.object.injEq, List.cons.injEq, Prod.mk.injEq, Json.text.injEq, Op.name_injective.eq_iff,
    true_and, and_true] at h
  obtain ⟨rfl, hi⟩ := h
  rw [hindex hi]

/-- The document of a journal determines its records. -/
theorem records_eq_of_document_eq {j j' : Journal} (h : j.document = j'.document) : j.records = j'.records :=
  List.map_injective_iff.mpr Record.document_injective (Json.list.inj h)

end Journal

theorem Observation.document_injective : Function.Injective Observation.document := by
  intro o o' h
  obtain ⟨line, command, result⟩ := o
  obtain ⟨line', command', result'⟩ := o'
  simp only [document, Json.object.injEq, List.cons.injEq, Prod.mk.injEq, Json.nat_injective.eq_iff, Json.text.injEq,
    true_and, and_true] at h
  obtain ⟨rfl, rfl, rfl⟩ := h
  rfl

theorem Stop.document_injective : Function.Injective Stop.document := by
  intro s s' h
  obtain ⟨line, command, error⟩ := s
  obtain ⟨line', command', error'⟩ := s'
  simp only [document, Json.object.injEq, List.cons.injEq, Prod.mk.injEq, Json.nat_injective.eq_iff, Json.text.injEq,
    true_and, and_true] at h
  obtain ⟨rfl, rfl, rfl⟩ := h
  rfl

/-! ## Reports -/

namespace Report

/-- Two reports that say the same: equal in all fields, but for the identities of the items on the two stacks. -/
structure Alike (r r' : Report) : Prop where
  executed : r.executed = r'.executed
  stack : List.Forall₂ Item.Alike r.stack r'.stack
  target : List.Forall₂ Item.Alike r.target r'.target
  references : r.references = r'.references
  journalEnabled : r.journalEnabled = r'.journalEnabled
  journal : r.journal = r'.journal
  observations : r.observations = r'.observations
  fault : r.fault = r'.fault

/-- Reports with one document say the same. -/
theorem alike_of_document_eq {r r' : Report} (h : r.document = r'.document) : r.Alike r' := by
  simp only [document, Json.object.injEq, List.cons.injEq, Prod.mk.injEq, Json.list.injEq, Json.bool.injEq, true_and,
    and_true] at h
  obtain ⟨hexecuted, hstack, htarget, hreferences, henabled, hjournal, hobservations, hfault⟩ := h
  have hnull : ∀ s : Stop, s.document ≠ .null := by
    intro s hs
    cases hs
  have hstop := Json.optional_map_injective Stop.document_injective hnull
  exact
    { executed := Json.nat_injective hexecuted
      stack := Item.alike_of_documents_eq hstack
      target := Item.alike_of_documents_eq htarget
      references := Stats.document_injective hreferences
      journalEnabled := henabled
      journal := List.map_injective_iff.mpr Journal.Record.document_injective hjournal
      observations := List.map_injective_iff.mpr Observation.document_injective hobservations
      fault := hstop hfault }

/-- Reports that say the same have one document. -/
theorem Alike.document_eq {r r' : Report} (h : r.Alike r') : r.document = r'.document := by
  rw [document, document, h.executed, Item.documents_eq_of_alike h.stack, Item.documents_eq_of_alike h.target,
    h.references, h.journalEnabled, h.journal, h.observations, h.fault]

end Report

/-- The compact forms of two reports, whatever runs they are of, are equal exactly when the reports say the same, and
those of two journals exactly when the journals have the same records. -/
theorem compact_documents_lose_nothing :
    (∀ r r' : Report, r.document.compact = r'.document.compact ↔ r.Alike r') ∧
      ∀ j j' : Journal, j.document.compact = j'.document.compact ↔ j.records = j'.records := by
  constructor
  · intro r r'
    exact ⟨fun h => Report.alike_of_document_eq (Json.compact_injective h), fun h => by rw [h.document_eq]⟩
  · intro j j'
    exact ⟨fun h => Journal.records_eq_of_document_eq (Json.compact_injective h),
      fun h => by rw [Journal.document, Journal.document, h]⟩

end OperandStack
