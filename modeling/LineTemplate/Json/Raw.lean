import LineTemplate.Dict
import LineTemplate.Json.Numeral

/-!
# JSON texts as they are written

A raw document keeps numerals, escapes and repeated names, and members in their order. Parts that
nobody asks for never have to make sense beyond that: a numeral out of range, an escaped half of a
surrogate pair and a nesting too deep are refused only where `document?` or `text?` reads them.
-/

namespace LineTemplate.Json

/-- A piece of a string: a character, or an escaped unit of 16 bits. -/
inductive Piece where
  | char (c : Char)
  | unit (n : Nat)
deriving DecidableEq, Repr

inductive Raw where
  | null
  | bool (b : Bool)
  | number (numeral : Numeral)
  | string (pieces : List Piece)
  | array (items : List Raw)
  | object (members : List (List Piece × Raw))
deriving Repr

/-- The units that begin a surrogate pair. -/
def isLeading (n : Nat) : Bool :=
  0xD800 ≤ n && n < 0xDC00

/-- The units that end a surrogate pair. -/
def isTrailing (n : Nat) : Bool :=
  0xDC00 ≤ n && n < 0xE000

/-- The characters of a string; a unit of a surrogate pair stands only beside the other one. -/
def characters : List Piece → Option (List Char)
  | [] => some []
  | .char c :: rest => (characters rest).map (c :: ·)
  | .unit n :: rest =>
    if isTrailing n then none
    else if isLeading n then
      match rest with
      | .unit m :: rest' =>
        if isTrailing m then
          (characters rest').map (Char.ofNat (0x10000 + (n - 0xD800) * 0x400 + (m - 0xDC00)) :: ·)
        else none
      | _ => none
    else (characters rest).map (Char.ofNat n :: ·)

/-- The string that pieces spell. -/
def spelled (pieces : List Piece) : Option String :=
  (characters pieces).map String.ofList

/-- The count of arrays and objects that may stand inside each other. -/
def nestingLimit : Nat := 127

namespace Raw

mutual

/-- The document, with at most `depth` arrays and objects inside each other. Of members with one
name the last one stays. -/
def document? : (depth : Nat) → Raw → Option Document
  | _, .null => some .null
  | _, .bool b => some (.bool b)
  | _, .number numeral => numeral.quantity?.map .number
  | _, .string pieces => (spelled pieces).map .string
  | 0, .array _ => none
  | depth + 1, .array items => (itemDocuments? depth items).map .array
  | 0, .object _ => none
  | depth + 1, .object members =>
    (memberDocuments? depth members).map fun entries => .object (Dict.ofList entries).toList

/-- The documents of the items of an array. -/
def itemDocuments? : (depth : Nat) → List Raw → Option (List Document)
  | _, [] => some []
  | depth, item :: items => do
    let first ← document? depth item
    let rest ← itemDocuments? depth items
    return first :: rest

/-- The documents of the members of an object. -/
def memberDocuments? : (depth : Nat) → List (List Piece × Raw) → Option (List (String × Document))
  | _, [] => some []
  | depth, (name, content) :: members => do
    let first ← spelled name
    let document ← document? depth content
    let rest ← memberDocuments? depth members
    return (first, document) :: rest

end

end Raw

end LineTemplate.Json
