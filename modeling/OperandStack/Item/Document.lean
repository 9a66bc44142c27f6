import OperandStack.Item
import OperandStack.Json

/-!
# Items as documents

An item is written as an object with the name of its kind and, but for the absence of a value, its content: bytes as a
list of numbers, the entries of a map as a list of pairs. The identity is not written.
-/

namespace OperandStack

namespace Item

/-- The object of a kind and a content. -/
def tagged (kind : Kind) (content : Json) : Json :=
  .object [("type".toList, .text kind.name), ("value".toList, content)]

/-- A byte sequence as a list of numbers. -/
def bytesDocument (bytes : List UInt8) : Json :=
  .list (bytes.map fun b => .nat b.toNat)

mutual

/-- The document of an item. -/
def document : Item → Json
  | ⟨_, .null⟩ => .object [("type".toList, .text Kind.null.name)]
  | ⟨_, .boolean flag⟩ => tagged .boolean (.bool flag)
  | ⟨_, .integer number⟩ => tagged .integer (.number number.toInt)
  | ⟨_, .byteString bytes⟩ => tagged .byteString (bytesDocument bytes)
  | ⟨_, .buffer bytes⟩ => tagged .buffer (bytesDocument bytes)
  | ⟨_, .array items⟩ => tagged .array (.list (documents items))
  | ⟨_, .struct fields⟩ => tagged .struct (.list (documents fields))
  | ⟨_, .map entries⟩ => tagged .map (.list (entryDocuments entries))
  | ⟨_, .pointer position⟩ => tagged .pointer (.nat position.toNat)

/-- The documents of items in order. -/
def documents : List Item → List Json
  | [] => []
  | item :: rest => document item :: documents rest

/-- The entries of a map in order, each a list of its key and its value. -/
def entryDocuments : List (Item × Item) → List Json
  | [] => []
  | (key, value) :: rest => .list [document key, document value] :: entryDocuments rest

end

end Item

end OperandStack
