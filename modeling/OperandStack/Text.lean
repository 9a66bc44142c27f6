/-!
# Text

A text is the list of its characters, so that every reader and printer of the library is a recursion on lists. Strings
appear only where a program meets the outside.
-/

namespace OperandStack

/-- A text is the list of its characters, in reading order. -/
abbrev Text := List Char

namespace Text

/-- A line feed, which ends a line. -/
def newline : Char := '\n'

/-- The text of a byte sequence in UTF-8, or nothing where the bytes are not valid UTF-8. -/
def ofBytes? (bytes : ByteArray) : Option Text :=
  (String.fromUTF8? bytes).map String.toList

/-- The bytes that a text is read from are its form in UTF-8. -/
theorem ofBytes?_eq_some_iff {bytes : ByteArray} {t : Text} :
    ofBytes? bytes = some t ↔ bytes = (String.ofList t).toUTF8 := by
  unfold ofBytes? String.fromUTF8?
  constructor
  · intro h
    split at h
    · obtain rfl := Option.some.inj h
      rw [String.ofList_toList]
      rfl
    · cases h
  · rintro rfl
    rw [String.toUTF8_eq_toByteArray, dif_pos (String.ofList t).isValidUTF8]
    exact congrArg some String.toList_ofList

/-- The number of bytes a text takes in UTF-8. -/
def byteLength : Text → Nat
  | [] => 0
  | c :: rest => c.utf8Size + byteLength rest

/-- A text followed by the end of its line. -/
def line (t : Text) : Text :=
  t ++ [newline]

/-- Parts in order with a comma and a space between neighbours, inside square brackets. -/
def bracketed (parts : List Text) : Text :=
  "[".toList ++ List.intercalate ", ".toList parts ++ "]".toList

/-- A truth value is written `true` or `false`. -/
def ofBool (b : Bool) : Text :=
  if b then "true".toList else "false".toList

end Text

end OperandStack
