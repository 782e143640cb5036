import LineTemplate.Dict
import LineTemplate.Number.Binary

/-!
# Values

The data of a render: scalars, texts, lists, packed arrays and maps. The renderer looks inside a
value only to ask whether it is `true` and to go through its items; properties and texts are the
business of the provider.
-/

namespace LineTemplate

open Number

/-- The coarse type of a value, as failures report it. -/
inductive Kind where
  | null
  | bool
  | int
  | float
  | char
  | string
  | list
  | array
  | map
deriving DecidableEq, Repr

/-- How a message names a kind. -/
def Kind.name : Kind → String
  | .null => "null"
  | .bool => "boolean"
  | .int => "integer"
  | .float => "float"
  | .char => "char"
  | .string => "string"
  | .list => "list"
  | .array => "array"
  | .map => "map"

/-- How stored data names a kind. -/
def Kind.tag : Kind → String
  | .null => "Null"
  | .bool => "Bool"
  | .int => "Int"
  | .float => "Float"
  | .char => "Char"
  | .string => "String"
  | .list => "List"
  | .array => "Array"
  | .map => "Map"

/-- One item of a packed array. -/
inductive Scalar where
  | bool (b : Bool)
  | int (n : Int64)
  | float (x : Binary64)
  | char (c : Char)
deriving DecidableEq, Repr

/-- A densely typed array. -/
inductive Packed where
  | bytes (items : List UInt8)
  | shorts (items : List Int16)
  | ints (items : List Int32)
  | longs (items : List Int64)
  | singles (items : List Binary32)
  | doubles (items : List Binary64)
  | chars (items : List Char)
  | bools (items : List Bool)
deriving DecidableEq, Repr

namespace Packed

/-- The items, each widened to the scalar type that holds it exactly. -/
def scalars : Packed → List Scalar
  | .bytes items => items.map fun n => .int n.toUInt64.toInt64
  | .shorts items => items.map fun n => .int n.toInt64
  | .ints items => items.map fun n => .int n.toInt64
  | .longs items => items.map .int
  | .singles items => items.map fun x => .float (Binary32.widen x)
  | .doubles items => items.map .float
  | .chars items => items.map .char
  | .bools items => items.map .bool

/-- The count of items. -/
def size (items : Packed) : Nat :=
  items.scalars.length

end Packed

/-- A piece of data. The entries of a map are those of a dictionary. -/
inductive Value where
  | null
  | bool (b : Bool)
  | int (n : Int64)
  | float (x : Binary64)
  | char (c : Char)
  | string (s : String)
  | list (items : List Value)
  | array (items : Packed)
  | map (entries : Entries Value none)
deriving Repr

namespace Value

/-- A scalar as a value. -/
def ofScalar : Scalar → Value
  | .bool b => .bool b
  | .int n => .int n
  | .float x => .float x
  | .char c => .char c

/-- A map of named values; of two entries with one name the later one stays. -/
def ofEntries (entries : List (String × Value)) : Value :=
  .map (Dict.ofList entries)

/-- The coarse type. -/
def kind : Value → Kind
  | .null => .null
  | .bool _ => .bool
  | .int _ => .int
  | .float _ => .float
  | .char _ => .char
  | .string _ => .string
  | .list _ => .list
  | .array _ => .array
  | .map _ => .map

/-- Nothing at all. -/
def isNull : Value → Bool
  | .null => true
  | _ => false

/-- Only the boolean `true` is true, whatever numbers, texts and collections hold. -/
def isTrue : Value → Bool
  | .bool true => true
  | _ => false

/-- The text of a string. -/
def text? : Value → Option String
  | .string s => some s
  | _ => none

/-- The entries of a map. -/
def entries? : Value → Option (Dict Value)
  | .map entries => some entries
  | _ => none

/-- The items of a list or of a packed array, in order. -/
def items? : Value → Option (List Value)
  | .list items => some items
  | .array items => some (items.scalars.map ofScalar)
  | _ => none

theorem isNull_iff {v : Value} : v.isNull = true ↔ v = .null := by
  cases v <;> simp [isNull]

theorem isTrue_iff {v : Value} : v.isTrue = true ↔ v = .bool true := by
  cases v with
  | bool b => cases b <;> simp [isTrue]
  | _ => simp [isTrue]

/-- Items are found exactly in the two collection kinds. -/
theorem items?_isSome_iff {v : Value} :
    v.items?.isSome = true ↔ v.kind = .list ∨ v.kind = .array := by
  cases v <;> simp [items?, kind]

end Value

end LineTemplate
