import OperandStack.Text.Decimal

/-!
# JSON documents

A document is a value of one inductive type, its objects with their fields in order. It has two written forms: the
compact one without any blank, and the indented one with two spaces for each level and one element or field on a line.
Both write an empty list as `[]` and an empty object as two braces.
-/

namespace OperandStack

/-- A JSON document with whole numbers. -/
inductive Json where
  | null
  | bool (b : Bool)
  | number (n : Int)
  | text (t : Text)
  | list (elements : List Json)
  | object (fields : List (Text × Json))

namespace Json

/-- A natural number as a document. -/
def nat (n : Nat) : Json :=
  .number n

/-- A document, or `null` where there is none. -/
def optional : Option Json → Json
  | none => .null
  | some j => j

/-- Two lower-case hexadecimal digits of a control character, behind the escape that leads them. -/
def controlEscape (code : Nat) : Text :=
  "\\u00".toList ++ [Nat.digitChar (code / 16), Nat.digitChar (code % 16)]

/-- A character inside a quoted text: the quote, the backslash and the control characters below the space are escaped,
the five usual ones by a letter. -/
def escapeChar (c : Char) : Text :=
  if c = '"' then "\\\"".toList
  else if c = '\\' then "\\\\".toList
  else if c = '\n' then "\\n".toList
  else if c = '\r' then "\\r".toList
  else if c = '\t' then "\\t".toList
  else if c = '\x08' then "\\b".toList
  else if c = '\x0c' then "\\f".toList
  else if c.toNat < 0x20 then controlEscape c.toNat
  else [c]

/-- A text between quotes. -/
def quote (t : Text) : Text :=
  "\"".toList ++ t.flatMap escapeChar ++ "\"".toList

/-! ## The compact form -/

mutual

/-- A document without any blank between its parts. -/
def compact : Json → Text
  | .null => "null".toList
  | .bool b => Text.ofBool b
  | .number n => Decimal.ofInt n
  | .text t => quote t
  | .list elements => "[".toList ++ List.intercalate ",".toList (compactElements elements) ++ "]".toList
  | .object fields => "\x7b".toList ++ List.intercalate ",".toList (compactFields fields) ++ "\x7d".toList

/-- The compact forms of the elements of a list. -/
def compactElements : List Json → List Text
  | [] => []
  | element :: rest => compact element :: compactElements rest

/-- The compact forms of the fields of an object, each a quoted name, a colon and a value. -/
def compactFields : List (Text × Json) → List Text
  | [] => []
  | (name, value) :: rest => (quote name ++ ":".toList ++ compact value) :: compactFields rest

end

/-! ## The indented form -/

/-- The start of a line that lies `level` levels deep. -/
def indent (level : Nat) : Text :=
  List.replicate (2 * level) ' '

/-- The parts of a list or object between its brackets, each on a line of its own, one level deeper than the brackets.
-/
def block (opening closing : Text) (level : Nat) : List Text → Text
  | [] => opening ++ closing
  | part :: rest =>
    opening ++ "\n".toList ++ List.intercalate ",\n".toList ((part :: rest).map (indent (level + 1) ++ ·)) ++ "\n".toList ++
      indent level ++ closing

mutual

/-- A document that starts on a line `level` levels deep. -/
def prettyAt (level : Nat) : Json → Text
  | .null => "null".toList
  | .bool b => Text.ofBool b
  | .number n => Decimal.ofInt n
  | .text t => quote t
  | .list elements => block "[".toList "]".toList level (prettyElements (level + 1) elements)
  | .object fields => block "\x7b".toList "\x7d".toList level (prettyFields (level + 1) fields)

/-- The indented forms of the elements of a list. -/
def prettyElements (level : Nat) : List Json → List Text
  | [] => []
  | element :: rest => prettyAt level element :: prettyElements level rest

/-- The indented forms of the fields of an object, each a quoted name, a colon, a space and a value. -/
def prettyFields (level : Nat) : List (Text × Json) → List Text
  | [] => []
  | (name, value) :: rest => (quote name ++ ": ".toList ++ prettyAt level value) :: prettyFields level rest

end

/-- The indented form of a whole document. -/
def pretty (j : Json) : Text :=
  prettyAt 0 j

end Json

end OperandStack
