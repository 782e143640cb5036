import LineTemplate.Number.Layout
import LineTemplate.Value.Basic

/-!
# The text of a value

Scalars are written as they stand, collections in square brackets and maps in braces. Strings are
never quoted, so the text does not tell a string from what it looks like.
-/

namespace LineTemplate

open Number

/-- The text of a scalar; a whole floating-point number keeps its `.0`. -/
def Scalar.display : Scalar → String
  | .bool b => if b then "true" else "false"
  | .int n => String.ofList (integerText n.toInt)
  | .float x => String.ofList (Layout.display.text x)
  | .char c => c.toString

namespace Value

/-- Texts side by side, with a comma and a space between them. -/
def joined (texts : List String) : String :=
  ", ".intercalate texts

mutual

/-- The text of a value. -/
def display : Value → String
  | .null => "null"
  | .bool b => (Scalar.bool b).display
  | .int n => (Scalar.int n).display
  | .float x => (Scalar.float x).display
  | .char c => (Scalar.char c).display
  | .string s => s
  | .list items => "[" ++ joined (displayItems items) ++ "]"
  | .array items => "[" ++ joined (items.scalars.map Scalar.display) ++ "]"
  | .map entries => "\x7b" ++ joined (displayEntries entries) ++ "\x7d"

/-- The texts of the items of a list. -/
def displayItems : List Value → List String
  | [] => []
  | item :: items => display item :: displayItems items

/-- The texts of the entries of a map. -/
def displayEntries : {low : Option String} → Entries Value low → List String
  | _, .nil => []
  | _, .cons name _ value entries => (name ++ "=" ++ display value) :: displayEntries entries

end

example : (Value.ofEntries [("b", .list [.null, .string "x"]), ("a", .int 1)]).display
    = "\x7ba=1, b=[null, x]\x7d" := by
  decide +kernel

end Value

end LineTemplate
