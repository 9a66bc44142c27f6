import OperandStack.Item.Document
import OperandStack.Proofs.Effect

/-!
# Items under a map

A call asks of an item nothing but its kind. So a map of items that keeps the kinds goes through a call: the call with
mapped items on mapped slots has the mapped effect (`Call.effect_map`), and the same for a copy (`Stack.copies_map`).

Such a map gives items other identities, those that they hold included (`Item.rename`); what a report shows of an item,
its text and its document, stays the same.
-/

namespace OperandStack

/-! ## Other identities -/

namespace Item

mutual

/-- An item with other identities for itself and for all that it holds. -/
def rename (f : Nat → Nat) : Item → Item
  | ⟨id, .null⟩ => ⟨f id, .null⟩
  | ⟨id, .boolean flag⟩ => ⟨f id, .boolean flag⟩
  | ⟨id, .integer number⟩ => ⟨f id, .integer number⟩
  | ⟨id, .byteString bytes⟩ => ⟨f id, .byteString bytes⟩
  | ⟨id, .buffer bytes⟩ => ⟨f id, .buffer bytes⟩
  | ⟨id, .array items⟩ => ⟨f id, .array (renameAll f items)⟩
  | ⟨id, .struct fields⟩ => ⟨f id, .struct (renameAll f fields)⟩
  | ⟨id, .map entries⟩ => ⟨f id, .map (renameEntries f entries)⟩
  | ⟨id, .pointer position⟩ => ⟨f id, .pointer position⟩

/-- Items with other identities. -/
def renameAll (f : Nat → Nat) : List Item → List Item
  | [] => []
  | item :: rest => rename f item :: renameAll f rest

/-- The entries of a map with other identities for their keys and their values. -/
def renameEntries (f : Nat → Nat) : List (Item × Item) → List (Item × Item)
  | [] => []
  | (key, value) :: rest => (rename f key, rename f value) :: renameEntries f rest

end

theorem renameAll_eq_map (f : Nat → Nat) (items : List Item) : renameAll f items = items.map (rename f) := by
  induction items with
  | nil => rfl
  | cons item rest ih => rw [renameAll, ih, List.map_cons]

theorem length_renameEntries (f : Nat → Nat) (entries : List (Item × Item)) :
    (renameEntries f entries).length = entries.length := by
  induction entries with
  | nil => rfl
  | cons entry rest ih => rw [renameEntries, List.length_cons, List.length_cons, ih]

@[simp]
theorem id_rename (f : Nat → Nat) (x : Item) : (x.rename f).id = f x.id := by
  obtain ⟨id, value⟩ := x
  cases value <;> rfl

@[simp]
theorem kind_rename (f : Nat → Nat) (x : Item) : (x.rename f).kind = x.kind := by
  obtain ⟨id, value⟩ := x
  cases value <;> rfl

/-- The text of an item shows no identity. -/
@[simp]
theorem text_rename (f : Nat → Nat) (x : Item) : (x.rename f).text = x.text := by
  obtain ⟨id, value⟩ := x
  cases value with
  | array items =>
    simp only [rename, text, Value.text, Value.kind, Value.payload, renameAll_eq_map, List.length_map]
  | struct fields =>
    simp only [rename, text, Value.text, Value.kind, Value.payload, renameAll_eq_map, List.length_map]
  | map entries =>
    simp only [rename, text, Value.text, Value.kind, Value.payload, length_renameEntries]
  | _ => rfl

mutual

/-- The document of an item shows no identity, of no item inside either. -/
theorem document_rename (f : Nat → Nat) : ∀ x : Item, (x.rename f).document = x.document
  | ⟨_, .null⟩ | ⟨_, .boolean _⟩ | ⟨_, .integer _⟩ | ⟨_, .byteString _⟩ | ⟨_, .buffer _⟩ | ⟨_, .pointer _⟩ => rfl
  | ⟨_, .array items⟩ => by rw [rename, document, document, documents_renameAll f items]
  | ⟨_, .struct fields⟩ => by rw [rename, document, document, documents_renameAll f fields]
  | ⟨_, .map entries⟩ => by rw [rename, document, document, entryDocuments_renameEntries f entries]

theorem documents_renameAll (f : Nat → Nat) : ∀ items : List Item, documents (renameAll f items) = documents items
  | [] => rfl
  | item :: rest => by rw [renameAll, documents, documents, document_rename f item, documents_renameAll f rest]

theorem entryDocuments_renameEntries (f : Nat → Nat) :
    ∀ entries : List (Item × Item), entryDocuments (renameEntries f entries) = entryDocuments entries
  | [] => rfl
  | (key, value) :: rest => by
    rw [renameEntries, entryDocuments, entryDocuments, document_rename f key, document_rename f value,
      entryDocuments_renameEntries f rest]

end

end Item

/-! ## Slots, notices, replies, events and calls under a map -/

/-- A slot that holds the image of its item. -/
def Slot.map (f : Item → Item) (s : Slot) : Slot :=
  { s with item := f s.item }

/-- A notice of the image of its item. -/
def Notice.map (f : Item → Item) : Notice → Notice
  | added x => added (f x)
  | removed x => removed (f x)

/-- A reply with the image of its item, if it has one. -/
def Reply.map (f : Item → Item) : Reply → Reply
  | done => done
  | item x => item (f x)
  | missing => missing
  | flag b => flag b
  | fault e => fault e

/-- An event about the image of its item, if it is about one. -/
def Event.map (f : Item → Item) : Event → Event
  | pushed x depth => pushed (f x) depth
  | inserted x index depth => inserted (f x) index depth
  | removed x index depth => removed (f x) index depth
  | strayRemoval x => strayRemoval (f x)
  | e => e

/-- A call with the image of its item, if it has one. -/
def Call.map (f : Item → Item) : Call → Call
  | push x => push (f x)
  | insert index x => insert index (f x)
  | c => c

/-- The effect on the images of the items. -/
def Effect.map (f : Item → Item) (e : Effect) : Effect :=
  { reply := e.reply.map f
    slots := e.slots.map (Slot.map f)
    notices := e.notices.map (Notice.map f)
    event := e.event.map (Event.map f) }

theorem Reply.map_id (r : Reply) : r.map id = r := by
  cases r <;> rfl

theorem Event.map_id (e : Event) : e.map id = e := by
  cases e <;> rfl

theorem Notice.map_id (n : Notice) : n.map id = n := by
  cases n <;> rfl

theorem Call.map_id (c : Call) : c.map id = c := by
  cases c <;> rfl

/-- The record of a call does not say which item it is about. -/
@[simp]
theorem Call.record_map (f : Item → Item) (c : Call) : (c.map f).record = c.record := by
  cases c <;> rfl

/-- The images of slots are released as the images of their items. -/
theorem Slot.release_map (f : Item → Item) (s : Slot) : (s.map f).release = s.release.map (Notice.map f) := by
  obtain ⟨item, owned⟩ := s
  cases owned <;> rfl

/-! ## The effect of a call under a map -/

namespace Position

theorem read_cast {n m : Nat} (h : n = m) (index : Int64) : read n index = (read m index).map (Fin.cast h.symm) := by
  subst h
  cases read n index <;> rfl

theorem removal_cast {n m : Nat} (h : n = m) (index : Int64) :
    removal n index = (removal m index).map (Fin.cast h.symm) := by
  subst h
  cases removal n index <;> rfl

end Position

namespace Call

variable {f : Item → Item}

theorem look_map (f : Item → Item) (index : Int64) (slots : List Slot) :
    look index (slots.map (Slot.map f)) = (look index slots).map f := by
  unfold look
  rw [Position.read_cast (List.length_map _)]
  cases Position.read slots.length index with
  | error fault => rfl
  | ok position => simp [Except.map, bind, Except.bind, Slot.map]

theorem place_map (f : Item → Item) (index : Int64) (item : Item) (slots : List Slot) :
    place index (f item) (slots.map (Slot.map f)) = (place index item slots).map (List.map (Slot.map f)) := by
  unfold place
  rw [List.length_map]
  cases Position.insertion slots.length index with
  | error fault => rfl
  | ok position => simp [Except.map, bind, Except.bind, Slot.map, List.map_insertIdx]

theorem turn_map (f : Item → Item) (count : Int64) (slots : List Slot) :
    turn count (slots.map (Slot.map f)) = (turn count slots).map (List.map (Slot.map f)) := by
  unfold turn
  rw [List.length_map]
  cases Position.reversal slots.length count with
  | error fault => rfl
  | ok position => simp [Except.map, bind, Except.bind]

/-- A removal of the image of a slot is the image of its removal. -/
theorem taken_map (f : Item → Item) (index : Int64) (slot : Slot) (slots : List Slot) :
    taken index (slot.map f) (slots.map (Slot.map f)) = (taken index slot slots).map f := by
  simp only [taken, Effect.map, Reply.map, Event.map, Slot.release_map, List.length_map, Option.map_some]
  rfl

variable (hf : ∀ x, (f x).kind = x.kind)
include hf

theorem take_map (view : View) (index : Int64) (slots : List Slot) :
    take view index (slots.map (Slot.map f)) =
      (take view index slots).map (Prod.map (Slot.map f) (List.map (Slot.map f))) := by
  unfold take
  rw [Position.removal_cast (List.length_map _)]
  cases Position.removal slots.length index with
  | error fault => rfl
  | ok position =>
    simp only [Except.map, bind, Except.bind, Fin.getElem_fin, Fin.val_cast, List.getElem_map, List.eraseIdx_map,
      Slot.map, hf]
    split <;> rfl

theorem removal_map (op : Journal.Op) (view : View) (index : Int64) (slots : List Slot) :
    removal op view index (slots.map (Slot.map f)) = (removal op view index slots).map f := by
  unfold removal
  rw [take_map hf]
  cases take view index slots with
  | error fault => simp [Except.map, refused, Effect.map, Reply.map, Event.map]
  | ok r => exact taken_map f index r.1 r.2

theorem tryRemoval_map (view : View) (index : Int64) (slots : List Slot) :
    tryRemoval view index (slots.map (Slot.map f)) = (tryRemoval view index slots).map f := by
  unfold tryRemoval
  rw [take_map hf]
  cases take view index slots with
  | error fault => simp [Except.map, declined, Effect.map, Reply.map]
  | ok r => exact taken_map f index r.1 r.2

omit hf in
theorem reading_map (f : Item → Item) (index : Int64) (slots : List Slot) :
    reading index (slots.map (Slot.map f)) = (reading index slots).map f := by
  unfold reading
  rw [look_map]
  cases look index slots <;> simp [Except.map, declined, Effect.map, Reply.map, Event.map]

/-- A map that keeps the kinds of items goes through every call. -/
theorem effect_map (slots : List Slot) (c : Call) :
    (c.map f).effect (slots.map (Slot.map f)) = (c.effect slots).map f := by
  cases c with
  | push item => simp [Call.map, effect, Effect.map, Reply.map, Notice.map, Event.map, Slot.map]
  | insert index item =>
    simp only [Call.map, effect]
    rw [place_map]
    cases place index item slots <;>
      simp [Except.map, refused, Effect.map, Reply.map, Notice.map, Event.map]
  | pop => exact removal_map hf _ _ _ _
  | popAs view => exact removal_map hf _ _ _ _
  | tryPop => exact tryRemoval_map hf _ _ _
  | tryPopAs view => exact tryRemoval_map hf _ _ _
  | remove index view => exact removal_map hf _ _ _ _
  | tryRemove index view => exact tryRemoval_map hf _ _ _
  | peek index => exact reading_map f _ _
  | peekTop => exact reading_map f _ _
  | tryPeek index =>
    simp only [Call.map, effect]
    rw [look_map]
    cases look index slots <;> simp [Except.map, declined, Effect.map, Reply.map]
  | peekQuiet index =>
    simp only [Call.map, effect]
    rw [look_map]
    cases look index slots <;> simp [Except.map, declined, Effect.map, Reply.map]
  | reverse count =>
    simp only [Call.map, effect]
    rw [turn_map]
    cases turn count slots <;> simp [Except.map, refused, Effect.map, Reply.map, Event.map]
  | tryReverse count =>
    simp only [Call.map, effect]
    rw [turn_map]
    cases turn count slots <;> simp [Except.map, declined, Effect.map, Reply.map]
  | clear =>
    simp only [Call.map, effect, Effect.map, Reply.map, List.flatMap_map, List.map_flatMap, List.map_nil,
      List.length_map, Option.map_some, Event.map]
    congr 1
    exact congrArg (slots.flatMap ·) (funext (Slot.release_map f))

end Call

/-! ## Copies under a map -/

namespace Stack

variable (f : Item → Item)

/-- A stack that holds the images of its items. -/
def map (s : Stack) : Stack :=
  { s with slots := s.slots.map (Slot.map f) }

@[simp]
theorem depth_map (s : Stack) : (s.map f).depth = s.depth :=
  List.length_map _

@[simp]
theorem copyCount_map (s : Stack) (count : Option UInt64) : (s.map f).copyCount count = s.copyCount count := by
  cases count <;> simp [copyCount]

/-- The slots that a copy makes of images are images of those that it makes. -/
theorem copies_map (s : Stack) (n : Nat) : (s.map f).copies n = (s.copies n).map (Slot.map f) := by
  rw [copies, copies, depth_map]
  simp only [map, ← List.map_drop, List.map_map]
  rfl

/-- A copy from an image onto an image leaves the image of what the copy leaves. -/
theorem copyOnto_map (source : Stack) (count : Option UInt64) (target : Stack) :
    (source.map f).copyOnto count (target.map f) =
      ((source.copyOnto count target).1.map f, (source.copyOnto count target).2.map (Event.map f)) := by
  simp only [copyOnto, copyCount_map, copies_map]
  split
  · rfl
  · simp [map, Event.map]

end Stack

end OperandStack
