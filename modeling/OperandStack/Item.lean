import OperandStack.Text.Decimal
import OperandStack.Text.Hex

/-!
# Items

What a stack holds. An item has an identity and a value; the value is one of nine kinds, three of which hold further
items. Items are told apart by identity alone: two items with equal values are different items unless their identities
agree.
-/

namespace OperandStack

/-- The kind of a value. -/
inductive Kind where
  | null
  | boolean
  | integer
  | byteString
  | buffer
  | array
  | struct
  | map
  | pointer
  deriving DecidableEq, Repr

namespace Kind

/-- The name of a kind, as items, faults and documents write it. -/
def name : Kind → Text
  | null => "Null".toList
  | boolean => "Boolean".toList
  | integer => "Integer".toList
  | byteString => "ByteString".toList
  | buffer => "Buffer".toList
  | array => "Array".toList
  | struct => "Struct".toList
  | map => "Map".toList
  | pointer => "Pointer".toList

/-- The kinds of a single immutable value. -/
def isPrimitive : Kind → Bool
  | boolean | integer | byteString => true
  | _ => false

/-- The kinds that hold further items. -/
def isCompound : Kind → Bool
  | array | struct | map => true
  | _ => false

end Kind

/-- A value whose parts, where it has any, are of type `α`. A map keeps its entries in order of insertion. -/
inductive Value (α : Type) where
  | null
  | boolean (flag : Bool)
  | integer (number : Int64)
  | byteString (bytes : List UInt8)
  | buffer (bytes : List UInt8)
  | array (items : List α)
  | struct (fields : List α)
  | map (entries : List (α × α))
  | pointer (position : UInt64)

namespace Value

variable {α : Type}

/-- The kind of a value. -/
def kind : Value α → Kind
  | null => .null
  | boolean _ => .boolean
  | integer _ => .integer
  | byteString _ => .byteString
  | buffer _ => .buffer
  | array _ => .array
  | struct _ => .struct
  | map _ => .map
  | pointer _ => .pointer

/-- What a value shows after the name of its kind: bytes in hexadecimal, and of a compound only its size. -/
def payload : Value α → Text
  | null => []
  | boolean flag => "(".toList ++ Text.ofBool flag ++ ")".toList
  | integer number => "(".toList ++ Decimal.ofInt number.toInt ++ ")".toList
  | byteString bytes => "(0x".toList ++ Hex.encode bytes ++ ")".toList
  | buffer bytes => "(0x".toList ++ Hex.encode bytes ++ ")".toList
  | array items => "[".toList ++ Decimal.ofNat items.length ++ "]".toList
  | struct fields => "[".toList ++ Decimal.ofNat fields.length ++ "]".toList
  | map entries => "\x7b".toList ++ Decimal.ofNat entries.length ++ "\x7d".toList
  | pointer position => "(".toList ++ Decimal.ofNat position.toNat ++ ")".toList

/-- A value in one line. -/
def text (v : Value α) : Text :=
  v.kind.name ++ v.payload

end Value

/-- An item: an identity and a value whose parts are items. -/
structure Item where
  id : Nat
  value : Value Item

namespace Item

/-- The kind of an item is that of its value. -/
def kind (x : Item) : Kind :=
  x.value.kind

/-- An item shows its value and not its identity. -/
def text (x : Item) : Text :=
  x.value.text

/-- Two items are the same when their identities agree. -/
def same (x y : Item) : Bool :=
  x.id == y.id

/-- The items of a list without those that are the same as an earlier one. -/
def distinct (items : List Item) : List Item :=
  items.foldl (fun seen x => if seen.any x.same then seen else seen ++ [x]) []

end Item

end OperandStack
