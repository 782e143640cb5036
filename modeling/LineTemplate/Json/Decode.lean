import LineTemplate.Json.Reader

/-!
# Records and choices in JSON

A record is read from an object, where unknown members are ignored and known ones stand at most
once, or from an array of its fields in their order. A choice between named cases is an object with
one member, the name of the case and its content; a case without content may be a string instead.
-/

namespace LineTemplate.Json

/-- Whether a field may be missing. -/
inductive Presence where
  /-- The field has to be there. -/
  | needed
  /-- The field may be missing in an object, and not in an array. -/
  | optional
  /-- The field may be missing in both. -/
  | defaulted
deriving DecidableEq, Repr

/-- A field of a record. -/
structure Field where
  name : String
  presence : Presence
deriving DecidableEq, Repr

namespace Raw

/-- The string of a raw document. -/
def text? : Raw → Option String
  | .string pieces => spelled pieces
  | _ => none

/-- The whole number of a raw document, if it is not negative and fits 64 bits. -/
def natural? : Raw → Option Nat
  | .number numeral =>
    match numeral.quantity? with
    | some (.natural n) => some n.toNat
    | _ => none
  | _ => none

/-- The members of an object with their names. -/
def named? : List (List Piece × Raw) → Option (List (String × Raw))
  | [] => some []
  | (name, content) :: members => do
    let first ← spelled name
    let rest ← named? members
    return (first, content) :: rest

/-- The content of a field among the members of an object. -/
def member? (members : List (String × Raw)) (field : Field) : Option (Option Raw) :=
  match members.filter fun (name, _) => name == field.name with
  | [] => if field.presence = .needed then none else some none
  | [(_, content)] => some (some content)
  | _ => none

/-- The contents of the fields that are left, from the items of an array. -/
def positional? : List Field → List Raw → Option (List (Option Raw))
  | [], [] => some []
  | [], _ :: _ => none
  | field :: fields, [] =>
    if field.presence = .defaulted then (positional? fields []).map (none :: ·) else none
  | _ :: fields, item :: items => (positional? fields items).map (some item :: ·)

/-- The contents of the fields of a record, in the order of the fields. -/
def fields? (fields : List Field) : Raw → Option (List (Option Raw))
  | .object members => (named? members).bind fun members => fields.mapM (member? members)
  | .array items => positional? fields items
  | _ => none

/-- The case of a choice, with its content if there is one. -/
def choice? : Raw → Option (String × Option Raw)
  | .string pieces => (spelled pieces).map fun name => (name, none)
  | .object [(name, content)] => (spelled name).map fun name => (name, some content)
  | _ => none

/-- The case of a choice that has no content. -/
def bareChoice? (raw : Raw) : Option String :=
  match raw.choice? with
  | some (name, none) => some name
  | some (name, some .null) => some name
  | _ => none

/-- Something that may be `null`. -/
def nullable? {α : Type} (read : Raw → Option α) : Raw → Option (Option α)
  | .null => some none
  | raw => (read raw).map some

end Raw

end LineTemplate.Json
