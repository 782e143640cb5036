import LineTemplate.Json.Document
import LineTemplate.Value.Basic

/-!
# Values and JSON documents

A character becomes a string of one character, a packed array an array, and a floating-point number
that is not finite becomes `null`. Reading back gives strings, lists and `null` for these, and every
other value as it was.
-/

namespace LineTemplate

open Number Json

/-- A scalar as a document. -/
def Scalar.document : Scalar → Document
  | .bool b => .bool b
  | .int n => .int n
  | .float x => .float x
  | .char c => .string c.toString

namespace Value

mutual

/-- A value as a document. -/
def document : Value → Document
  | .null => .null
  | .bool b => (Scalar.bool b).document
  | .int n => (Scalar.int n).document
  | .float x => (Scalar.float x).document
  | .char c => (Scalar.char c).document
  | .string s => .string s
  | .list items => .array (itemDocuments items)
  | .array items => .array (items.scalars.map Scalar.document)
  | .map entries => .object (entryDocuments entries)

/-- The items of a list as documents. -/
def itemDocuments : List Value → List Document
  | [] => []
  | item :: items => document item :: itemDocuments items

/-- The entries of a map as documents. -/
def entryDocuments : {low : Option String} → Entries Value low → List (String × Document)
  | _, .nil => []
  | _, .cons name _ value entries => (name, document value) :: entryDocuments entries

end

/-- A number of a document as a value; whole numbers beyond the range of `int` are rounded. -/
def ofQuantity : Quantity → Value
  | .natural n =>
    if n.toNat < twoTo 63 then .int n.toInt64
    else .float (Binary.round .binary64 false n.toNat 1)
  | .negative n => .int n
  | .float x => .float x

mutual

/-- A document as a value. -/
def ofDocument : Document → Value
  | .null => .null
  | .bool b => .bool b
  | .number n => ofQuantity n
  | .string s => .string s
  | .array items => .list (ofItemDocuments items)
  | .object members => .map (Dict.ofList (ofMemberDocuments members))

/-- The items of an array as values. -/
def ofItemDocuments : List Document → List Value
  | [] => []
  | item :: items => ofDocument item :: ofItemDocuments items

/-- The members of an object as values. -/
def ofMemberDocuments : List (String × Document) → List (String × Value)
  | [] => []
  | (name, document) :: members => (name, ofDocument document) :: ofMemberDocuments members

end

end Value

end LineTemplate
