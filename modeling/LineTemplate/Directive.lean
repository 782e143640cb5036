import LineTemplate.Text.Blank
import LineTemplate.Text.Cut

/-!
# Directives and their headers

A line is a directive when its text, blanks aside, starts with one of four keywords; all other lines
are plain text. A keyword need not be followed by a blank, so `#endif` closes a block too.

The header of a condition is read up to the last closing parenthesis, the header of a loop up to the
first one.
-/

namespace LineTemplate

/-- What a directive line does. -/
inductive Directive where
  | conditional
  | otherwise
  | loop
  | close
deriving DecidableEq, Repr

namespace Directive

def keyword : Directive → String
  | .conditional => "#if"
  | .otherwise => "#else"
  | .loop => "#foreach"
  | .close => "#end"

/-- All directives, in the order in which keywords are tried. -/
def all : List Directive :=
  [.conditional, .otherwise, .loop, .close]

/-- The directive of a line, if it is one. -/
def ofText? (text : List Char) : Option Directive :=
  all.find? fun directive => directive.keyword.toList.isPrefixOf (Text.trim text)

/-- The count of open blocks behind a line with this directive, from the count in front of it. -/
def depthAfter : Directive → Nat → Nat
  | .conditional, depth => depth + 1
  | .loop, depth => depth + 1
  | .close, depth => depth - 1
  | .otherwise, depth => depth

end Directive

/-- A line of a template. -/
structure Line where
  text : List Char
  directive : Option Directive
deriving DecidableEq, Repr

/-- A line with the directive that its text spells. -/
def Line.ofText (text : List Char) : Line :=
  ⟨text, Directive.ofText? text⟩

namespace Header

/-- The path of a condition: the text between the first opening and the last closing parenthesis,
without the blanks around it and without one dollar sign in front. -/
def conditionPath? (text : List Char) : Option String := do
  let inner ← Text.beforeLast ')' (← Text.afterFirst '(' text)
  return String.ofList (Text.withoutFirst '$' (Text.trim inner))

/-- A loop over the items of a container. -/
structure Loop where
  item : String
  container : String
deriving DecidableEq, Repr

/-- The header of a loop: behind the first opening parenthesis, and before the next closing one,
stand the name of the item, the word `in`, the container, and words that do not matter. Name and
container lose one dollar sign in front. -/
def loop? (text : List Char) : Option Loop := do
  let inner ← Text.beforeFirst ')' (← Text.afterFirst '(' text)
  match Text.words inner with
  | item :: ['i', 'n'] :: container :: _ =>
    some ⟨String.ofList (Text.withoutFirst '$' item),
      String.ofList (Text.withoutFirst '$' container)⟩
  | _ => none

/-- A header as failures quote it: the line without the blanks around it. -/
def quoted (text : List Char) : String :=
  String.ofList (Text.trim text)

end Header

end LineTemplate
