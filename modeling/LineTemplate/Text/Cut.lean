/-!
# Cutting a text at a character

Each cut gives the text on one side of an occurrence of a character, or nothing when the character
does not occur.
-/

namespace LineTemplate.Text

/-- What follows the first `c`. -/
def afterFirst (c : Char) : List Char → Option (List Char)
  | [] => none
  | d :: ds => if d = c then some ds else afterFirst c ds

/-- What stands before the first `c`. -/
def beforeFirst (c : Char) : List Char → Option (List Char)
  | [] => none
  | d :: ds => if d = c then some [] else (beforeFirst c ds).map (d :: ·)

/-- What stands before the last `c`. -/
def beforeLast (c : Char) : List Char → Option (List Char)
  | [] => none
  | d :: ds =>
    match beforeLast c ds with
    | some front => some (d :: front)
    | none => if d = c then some [] else none

/-- The text without a `c` at its front, if there is one. -/
def withoutFirst (c : Char) : List Char → List Char
  | [] => []
  | d :: ds => if d = c then ds else d :: ds

end LineTemplate.Text
