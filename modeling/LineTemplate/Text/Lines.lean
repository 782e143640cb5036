/-!
# Lines of a text

A line feed ends a line, and one carriage return right before it belongs to the line break. What
stands after the last line feed is a line only if it is not empty, and keeps its carriage returns.
-/

namespace LineTemplate.Text

/-- Puts a character in front of the first line. -/
def onFirstLine (c : Char) : List (List Char) → List (List Char)
  | [] => [[c]]
  | line :: lines => (c :: line) :: lines

/-- The lines of a text, without their line breaks. -/
def lines : List Char → List (List Char)
  | [] => []
  | '\n' :: cs => [] :: lines cs
  | '\r' :: '\n' :: cs => [] :: lines cs
  | c :: cs => onFirstLine c (lines cs)

example : lines "a\r\nb\n\nc\r".toList = ["a".toList, "b".toList, [], "c\r".toList] := by decide

example : lines "a\r\r\n".toList = ["a\r".toList] := by decide

end LineTemplate.Text
