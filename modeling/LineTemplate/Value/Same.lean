import LineTemplate.Value.Basic

/-!
# Equality of values

Two values are the same when they are built alike from the same parts. Floating-point numbers
compare as numbers: one that is not a number differs from itself, and the two zeros are equal. A
packed array differs from the list of its items, and from every packed array of another item type.
-/

namespace LineTemplate

open Number

/-- Two lists agree item by item. -/
def allSame {α : Type} (same : α → α → Bool) : List α → List α → Bool
  | [], [] => true
  | a :: as, b :: bs => same a b && allSame same as bs
  | _, _ => false

/-- Two packed arrays have one item type and agree item by item. -/
def Packed.same : Packed → Packed → Bool
  | .bytes a, .bytes b => a == b
  | .shorts a, .shorts b => a == b
  | .ints a, .ints b => a == b
  | .longs a, .longs b => a == b
  | .singles a, .singles b => allSame Binary.same a b
  | .doubles a, .doubles b => allSame Binary.same a b
  | .chars a, .chars b => a == b
  | .bools a, .bools b => a == b
  | _, _ => false

namespace Value

mutual

/-- Two values are the same. -/
def same : Value → Value → Bool
  | .null, .null => true
  | .bool a, .bool b => a == b
  | .int a, .int b => a == b
  | .float a, .float b => Binary.same a b
  | .char a, .char b => a == b
  | .string a, .string b => a == b
  | .list a, .list b => sameItems a b
  | .array a, .array b => a.same b
  | .map a, .map b => sameEntries a b
  | _, _ => false

/-- Two lists of values agree item by item. -/
def sameItems : List Value → List Value → Bool
  | [], [] => true
  | a :: as, b :: bs => same a b && sameItems as bs
  | _, _ => false

/-- The entries of two maps agree in names and values. -/
def sameEntries : {low low' : Option String} → Entries Value low → Entries Value low' → Bool
  | _, _, .nil, .nil => true
  | _, _, .cons x _ a as, .cons y _ b bs => x == y && same a b && sameEntries as bs
  | _, _, _, _ => false

end

end Value

end LineTemplate
