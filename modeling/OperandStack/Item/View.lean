import OperandStack.Item

/-!
# Views of items

A view is what a typed removal asks of an item: any item, one kind, or one of two families of kinds. A view that accepts
an item's kind gives access to the content of its value; that the content is then there is `isSome_content`.
-/

namespace OperandStack

/-- A demand on the kind of an item. -/
inductive View where
  | any
  | only (kind : Kind)
  | primitive
  | compound
  deriving DecidableEq, Repr

namespace View

/-- Whether a view accepts items of a kind. -/
def accepts : View → Kind → Bool
  | any, _ => true
  | only k, k' => k == k'
  | primitive, k => k.isPrimitive
  | compound, k => k.isCompound

/-- The name of a view in a fault. -/
def name : View → Text
  | any => "StackItem".toList
  | only k => k.name
  | primitive => "PrimitiveType".toList
  | compound => "CompoundType".toList

end View

/-- What a view shows of an item. -/
inductive Content where
  | item (x : Item)
  | absence (x : Item)
  | flag (b : Bool)
  | number (n : Int64)
  | bytes (bs : List UInt8)
  | items (xs : List Item)
  | entries (es : List (Item × Item))
  | position (p : UInt64)
  | primitive (kind : Kind)
  | compound (kind : Kind) (size : Nat)

namespace View

/-- The content that a view of one kind reads off a value of that kind. -/
def contentOf (x : Item) : Kind → Value Item → Option Content
  | .null, .null => some (.absence x)
  | .boolean, .boolean flag => some (.flag flag)
  | .integer, .integer number => some (.number number)
  | .byteString, .byteString bytes => some (.bytes bytes)
  | .buffer, .buffer bytes => some (.bytes bytes)
  | .array, .array items => some (.items items)
  | .struct, .struct fields => some (.items fields)
  | .map, .map entries => some (.entries entries)
  | .pointer, .pointer position => some (.position position)
  | _, _ => none

/-- The number of parts of a compound value. -/
def size? {α : Type} : Value α → Option Nat
  | .array items => some items.length
  | .struct fields => some fields.length
  | .map entries => some entries.length
  | _ => none

/-- The content of an item through a view, or nothing where the item's value has another shape. -/
def content (v : View) (x : Item) : Option Content :=
  match v with
  | any => some (.item x)
  | only k => contentOf x k x.value
  | primitive => if x.kind.isPrimitive then some (.primitive x.kind) else none
  | compound => (size? x.value).map (.compound x.kind)

/-- A view reads the content of every item that it accepts, and of no other. -/
theorem isSome_content (v : View) (x : Item) : (v.content x).isSome = v.accepts x.kind := by
  obtain ⟨id, value⟩ := x
  cases v with
  | any => rfl
  | only k => cases k <;> cases value <;> rfl
  | primitive => cases value <;> rfl
  | compound => cases value <;> rfl

end View

end OperandStack
