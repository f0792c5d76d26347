/-
The one-line layout of diagnostic text: a name with one item in parentheses, a name with named fields
in braces, and a list in brackets.
-/

namespace Phrasebook.Text

/-- The texts in order, a comma and a space between neighbours. -/
def commaSeparated : List String → String
  | [] => ""
  | [s] => s
  | s :: t :: rest => s ++ ", " ++ commaSeparated (t :: rest)

/-- A name with one item: `Name(item)`. -/
def tuple (name item : String) : String :=
  name ++ "(" ++ item ++ ")"

/-- One field of a record: `field: value`. -/
def field (name value : String) : String :=
  name ++ ": " ++ value

/-- A name with fields in braces, separated by commas. -/
def record (name : String) (fields : List (String × String)) : String :=
  name ++ " \x7b " ++ commaSeparated (fields.map fun f => field f.1 f.2) ++ " \x7d"

/-- A list in brackets: `[a, b]`. -/
def bracketed (items : List String) : String :=
  "[" ++ commaSeparated items ++ "]"

end Phrasebook.Text
