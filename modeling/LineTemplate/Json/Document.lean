import LineTemplate.Number.Binary

/-!
# JSON documents

The data of a JSON text. A number keeps the form in which it was given: a whole number that is not
negative, a negative whole number, or a floating-point number. The members of an object stand in the
order in which they are written: fields of records as they are declared, entries of maps by name.
-/

namespace LineTemplate.Json

open Number

/-- A number of a document. -/
inductive Quantity where
  | natural (n : UInt64)
  | negative (n : Int64)
  | float (x : Binary64)
deriving DecidableEq, Repr

inductive Document where
  | null
  | bool (b : Bool)
  | number (n : Quantity)
  | string (s : String)
  | array (items : List Document)
  | object (members : List (String × Document))
deriving Repr

/-- A whole number of 64 bits as a document. -/
def Document.int (n : Int64) : Document :=
  if n < 0 then .number (.negative n) else .number (.natural n.toUInt64)

/-- A floating-point number as a document; there is no form for an infinity or for `nan`. -/
def Document.float (x : Binary64) : Document :=
  if x.isFinite then .number (.float x) else .null

end LineTemplate.Json
