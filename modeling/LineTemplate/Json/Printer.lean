import LineTemplate.Json.Document
import LineTemplate.Number.Layout

/-!
# The text of a document

Documents are written without spaces. In strings, quotes, backslashes and control characters are
escaped and all other characters stand as they are.
-/

namespace LineTemplate.Json

open Number

/-- A character inside a string. -/
def escaped (c : Char) : List Char :=
  match c with
  | '"' => ['\\', '"']
  | '\\' => ['\\', '\\']
  | '\x08' => ['\\', 'b']
  | '\t' => ['\\', 't']
  | '\n' => ['\\', 'n']
  | '\x0c' => ['\\', 'f']
  | '\r' => ['\\', 'r']
  | c =>
    if c.toNat < 0x20 then
      ['\\', 'u', '0', '0', Nat.digitChar (c.toNat / 16), Nat.digitChar (c.toNat % 16)]
    else [c]

/-- A string in quotes. -/
def quoted (s : String) : List Char :=
  '"' :: (s.toList.flatMap escaped ++ ['"'])

def Quantity.text : Quantity → List Char
  | .natural n => Nat.toDigits 10 n.toNat
  | .negative n => integerText n.toInt
  | .float x => Layout.json.text x

/-- Texts side by side, with a comma between them. -/
def separated : List (List Char) → List Char
  | [] => []
  | [text] => text
  | text :: texts => text ++ ',' :: separated texts

namespace Document

mutual

/-- The text of a document. -/
def text : Document → List Char
  | .null => ['n', 'u', 'l', 'l']
  | .bool true => ['t', 'r', 'u', 'e']
  | .bool false => ['f', 'a', 'l', 's', 'e']
  | .number n => n.text
  | .string s => quoted s
  | .array items => '[' :: (separated (itemTexts items) ++ [']'])
  | .object members => '{' :: (separated (memberTexts members) ++ ['}'])

/-- The texts of the items of an array. -/
def itemTexts : List Document → List (List Char)
  | [] => []
  | item :: items => text item :: itemTexts items

/-- The texts of the members of an object. -/
def memberTexts : List (String × Document) → List (List Char)
  | [] => []
  | (name, content) :: members => (quoted name ++ ':' :: text content) :: memberTexts members

end

/-- The text of a document as a string. -/
def write (document : Document) : String :=
  String.ofList document.text

example : (Document.array [.int (-3), .string "a\n\"\x01", .object [("k", .null)]]).write
    = "[-3,\"a\\n\\\"\\u0001\",\x7b\"k\":null\x7d]" := by
  decide +kernel

end Document

end LineTemplate.Json
