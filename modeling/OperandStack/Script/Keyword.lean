import OperandStack.Item.View

/-!
# The keywords of scripts

The words that open a line and the words that name a view. Each list gives every keyword once, so a word is looked up in
it.
-/

namespace OperandStack

/-- The operations that a line of a script can ask for. -/
inductive Operation where
  | push
  | pop
  | trypop
  | peek
  | peekq
  | insert
  | remove
  | reverse
  | clear
  | copy
  deriving DecidableEq, Repr

namespace Operation

/-- The word for an operation. -/
def word : Operation → Text
  | push => "push".toList
  | pop => "pop".toList
  | trypop => "trypop".toList
  | peek => "peek".toList
  | peekq => "peekq".toList
  | insert => "insert".toList
  | remove => "remove".toList
  | reverse => "reverse".toList
  | clear => "clear".toList
  | copy => "copy".toList

/-- Every operation, once. -/
def all : List Operation :=
  [push, pop, trypop, peek, peekq, insert, remove, reverse, clear, copy]

/-- The operation that a word names. -/
def ofWord? (w : Text) : Option Operation :=
  all.find? fun op => op.word == w

/-- A word names an operation exactly when it is the operation's own. -/
theorem ofWord?_eq_some_iff {w : Text} {op : Operation} : ofWord? w = some op ↔ w = op.word := by
  constructor
  · intro h
    have := List.find?_some h
    simpa using (beq_iff_eq.mp this).symm
  · rintro rfl
    cases op <;> decide

end Operation

namespace View

/-- The keyword for a view. -/
def keyword : View → Text
  | any => "any".toList
  | only .null => "null".toList
  | only .boolean => "bool".toList
  | only .integer => "int".toList
  | only .byteString => "bytes".toList
  | only .buffer => "buffer".toList
  | only .array => "array".toList
  | only .struct => "struct".toList
  | only .map => "map".toList
  | only .pointer => "pointer".toList
  | primitive => "primitive".toList
  | compound => "compound".toList

/-- Every view, once. -/
def all : List View :=
  [any, only .null, only .boolean, only .integer, only .byteString, only .buffer, only .array, only .struct, only .map,
    only .pointer, primitive, compound]

/-- The view that a word names. -/
def ofKeyword? (w : Text) : Option View :=
  all.find? fun v => v.keyword == w

/-- A word names a view exactly when it is the view's keyword. -/
theorem ofKeyword?_eq_some_iff {w : Text} {v : View} : ofKeyword? w = some v ↔ w = v.keyword := by
  constructor
  · intro h
    have := List.find?_some h
    simpa using (beq_iff_eq.mp this).symm
  · rintro rfl
    cases v with
    | only k => cases k <;> decide
    | _ => decide

end View

end OperandStack
