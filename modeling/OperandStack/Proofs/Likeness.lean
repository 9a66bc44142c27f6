import Mathlib.Data.List.Forall2
import Mathlib.Data.List.Nodup
import OperandStack.Item.Document
import OperandStack.Proofs.Readability

/-!
# Items and their documents

Two items are alike if they have one structure, whatever their identities and those of the items inside them
(`Item.Alike`). The document of an item says all that likeness asks and nothing else, so items have one compact form
exactly when they are alike (`Item.compact_document_eq_iff_alike`).
-/

namespace OperandStack

/-- A function that is given by its values on a list of everything is injective if these are all different. -/
theorem injective_of_nodup_map {α β : Type} {f : α → β} {all : List α} (hall : ∀ x, x ∈ all)
    (h : (all.map f).Nodup) : Function.Injective f :=
  fun x y hxy => List.inj_on_of_nodup_map h (hall x) (hall y) hxy

theorem Kind.name_injective : Function.Injective Kind.name := by
  have hall : ∀ k : Kind, k ∈ [null, boolean, integer, byteString, buffer, array, struct, map, pointer] := by
    intro k
    cases k <;> decide
  exact injective_of_nodup_map hall (by decide)

theorem Json.nat_injective : Function.Injective Json.nat :=
  fun _ _ h => Int.ofNat.inj (Json.number.inj h)

namespace Item

mutual

/-- Two items of one structure: of one kind, with the same flag, number, bytes or position, or with items inside that
are alike one by one and in the same order. Identities may differ everywhere. -/
inductive Alike : Item → Item → Prop where
  | null (i j : Nat) : Alike ⟨i, .null⟩ ⟨j, .null⟩
  | boolean (i j : Nat) (flag : Bool) : Alike ⟨i, .boolean flag⟩ ⟨j, .boolean flag⟩
  | integer (i j : Nat) (number : Int64) : Alike ⟨i, .integer number⟩ ⟨j, .integer number⟩
  | byteString (i j : Nat) (bytes : List UInt8) : Alike ⟨i, .byteString bytes⟩ ⟨j, .byteString bytes⟩
  | buffer (i j : Nat) (bytes : List UInt8) : Alike ⟨i, .buffer bytes⟩ ⟨j, .buffer bytes⟩
  | array (i j : Nat) {xs ys : List Item} : List.Forall₂ Alike xs ys → Alike ⟨i, .array xs⟩ ⟨j, .array ys⟩
  | struct (i j : Nat) {xs ys : List Item} : List.Forall₂ Alike xs ys → Alike ⟨i, .struct xs⟩ ⟨j, .struct ys⟩
  | map (i j : Nat) {es fs : List (Item × Item)} : List.Forall₂ EntryAlike es fs → Alike ⟨i, .map es⟩ ⟨j, .map fs⟩
  | pointer (i j : Nat) (position : UInt64) : Alike ⟨i, .pointer position⟩ ⟨j, .pointer position⟩

/-- Two entries of maps with keys that are alike and values that are alike. -/
inductive EntryAlike : Item × Item → Item × Item → Prop where
  | mk {key key' value value' : Item} : Alike key key' → Alike value value' → EntryAlike (key, value) (key', value')

end

/-! ## What a document says -/

/-- The name of the kind that a document gives first. -/
def namedKind? : Json → Option Text
  | .object ((_, .text name) :: _) => some name
  | _ => none

theorem namedKind?_document (x : Item) : namedKind? x.document = some x.kind.name := by
  obtain ⟨id, value⟩ := x
  cases value <;> rfl

/-- Items with one document are of one kind. -/
theorem kind_eq_of_document_eq {a b : Item} (h : a.document = b.document) : a.kind = b.kind := by
  have hname := congrArg namedKind? h
  rw [namedKind?_document, namedKind?_document] at hname
  exact Kind.name_injective (Option.some.inj hname)

/-- The content of a tagged object is one of its fields. -/
theorem content_eq_of_tagged_eq {k k' : Kind} {c c' : Json} (h : tagged k c = tagged k' c') : c = c' := by
  simp only [tagged, Json.object.injEq, List.cons.injEq, Prod.mk.injEq] at h
  exact h.2.1.2

theorem bytesDocument_injective : Function.Injective bytesDocument := by
  intro bs bs' h
  have hbyte : Function.Injective fun b : UInt8 => Json.nat b.toNat :=
    Json.nat_injective.comp fun _ _ => UInt8.toNat_inj.mp
  exact List.map_injective_iff.mpr hbyte (Json.list.inj h)

mutual

/-- Items with one document are alike. -/
theorem alike_of_document_eq : ∀ {a b : Item}, a.document = b.document → Alike a b
  | ⟨i, .null⟩, ⟨j, value⟩, h => by
    have hkind := kind_eq_of_document_eq h
    cases value with
    | null => exact .null i j
    | _ => cases hkind
  | ⟨i, .boolean flag⟩, ⟨j, value⟩, h => by
    have hkind := kind_eq_of_document_eq h
    cases value with
    | boolean flag' =>
      obtain rfl := Json.bool.inj (content_eq_of_tagged_eq h)
      exact .boolean i j flag
    | _ => cases hkind
  | ⟨i, .integer number⟩, ⟨j, value⟩, h => by
    have hkind := kind_eq_of_document_eq h
    cases value with
    | integer number' =>
      obtain rfl := Int64.toInt_inj.mp (Json.number.inj (content_eq_of_tagged_eq h))
      exact .integer i j number
    | _ => cases hkind
  | ⟨i, .byteString bytes⟩, ⟨j, value⟩, h => by
    have hkind := kind_eq_of_document_eq h
    cases value with
    | byteString bytes' =>
      obtain rfl := bytesDocument_injective (content_eq_of_tagged_eq h)
      exact .byteString i j bytes
    | _ => cases hkind
  | ⟨i, .buffer bytes⟩, ⟨j, value⟩, h => by
    have hkind := kind_eq_of_document_eq h
    cases value with
    | buffer bytes' =>
      obtain rfl := bytesDocument_injective (content_eq_of_tagged_eq h)
      exact .buffer i j bytes
    | _ => cases hkind
  | ⟨i, .array xs⟩, ⟨j, value⟩, h => by
    have hkind := kind_eq_of_document_eq h
    cases value with
    | array ys => exact .array i j (alike_of_documents_eq (Json.list.inj (content_eq_of_tagged_eq h)))
    | _ => cases hkind
  | ⟨i, .struct xs⟩, ⟨j, value⟩, h => by
    have hkind := kind_eq_of_document_eq h
    cases value with
    | struct ys => exact .struct i j (alike_of_documents_eq (Json.list.inj (content_eq_of_tagged_eq h)))
    | _ => cases hkind
  | ⟨i, .map es⟩, ⟨j, value⟩, h => by
    have hkind := kind_eq_of_document_eq h
    cases value with
    | map fs => exact .map i j (alike_of_entryDocuments_eq (Json.list.inj (content_eq_of_tagged_eq h)))
    | _ => cases hkind
  | ⟨i, .pointer position⟩, ⟨j, value⟩, h => by
    have hkind := kind_eq_of_document_eq h
    cases value with
    | pointer position' =>
      obtain rfl := UInt64.toNat_inj.mp (Json.nat_injective (content_eq_of_tagged_eq h))
      exact .pointer i j position
    | _ => cases hkind

theorem alike_of_documents_eq : ∀ {xs ys : List Item}, documents xs = documents ys → List.Forall₂ Alike xs ys
  | [], [], _ => .nil
  | [], _ :: _, h => nomatch h
  | _ :: _, [], h => nomatch h
  | _ :: _, _ :: _, h => .cons (alike_of_document_eq (List.cons.inj h).1) (alike_of_documents_eq (List.cons.inj h).2)

theorem alike_of_entryDocuments_eq : ∀ {es fs : List (Item × Item)}, entryDocuments es = entryDocuments fs →
    List.Forall₂ EntryAlike es fs
  | [], [], _ => .nil
  | [], _ :: _, h => nomatch h
  | _ :: _, [], h => nomatch h
  | (_, _) :: _, (_, _) :: _, h => by
    obtain ⟨hentry, hrest⟩ := List.cons.inj h
    obtain ⟨hkey, hvalue⟩ := List.cons.inj (Json.list.inj hentry)
    exact .cons (.mk (alike_of_document_eq hkey) (alike_of_document_eq (List.cons.inj hvalue).1))
      (alike_of_entryDocuments_eq hrest)

end

mutual

/-- Items that are alike have one document. -/
theorem document_eq_of_alike : ∀ {a b : Item}, Alike a b → a.document = b.document
  | ⟨_, .null⟩, _, .null _ _ => rfl
  | ⟨_, .boolean _⟩, _, .boolean _ _ _ => rfl
  | ⟨_, .integer _⟩, _, .integer _ _ _ => rfl
  | ⟨_, .byteString _⟩, _, .byteString _ _ _ => rfl
  | ⟨_, .buffer _⟩, _, .buffer _ _ _ => rfl
  | ⟨_, .array _⟩, _, .array _ _ h => by rw [document, document, documents_eq_of_alike h]
  | ⟨_, .struct _⟩, _, .struct _ _ h => by rw [document, document, documents_eq_of_alike h]
  | ⟨_, .map _⟩, _, .map _ _ h => by rw [document, document, entryDocuments_eq_of_alike h]
  | ⟨_, .pointer _⟩, _, .pointer _ _ _ => rfl

theorem documents_eq_of_alike : ∀ {xs ys : List Item}, List.Forall₂ Alike xs ys → documents xs = documents ys
  | [], _, .nil => rfl
  | _ :: _, _, .cons h hrest => by rw [documents, documents, document_eq_of_alike h, documents_eq_of_alike hrest]

theorem entryDocuments_eq_of_alike : ∀ {es fs : List (Item × Item)},
    List.Forall₂ EntryAlike es fs → entryDocuments es = entryDocuments fs
  | [], _, .nil => rfl
  | (_, _) :: _, _, .cons (.mk hkey hvalue) hrest => by
    rw [entryDocuments, entryDocuments, document_eq_of_alike hkey, document_eq_of_alike hvalue,
      entryDocuments_eq_of_alike hrest]

end

/-- The compact forms of two items are equal exactly when the items are alike. -/
theorem compact_document_eq_iff_alike (a b : Item) : a.document.compact = b.document.compact ↔ Alike a b := by
  constructor
  · intro h
    exact alike_of_document_eq (Json.compact_injective h)
  · intro h
    rw [document_eq_of_alike h]

end Item

end OperandStack
