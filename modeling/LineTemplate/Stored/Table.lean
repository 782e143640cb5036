import LineTemplate.Json.Decode
import LineTemplate.Json.Printer
import LineTemplate.Provider
import LineTemplate.Value.Json

/-!
# Stored values and tables

Values and tables as JSON texts. The record of a table and the object of its root values count
towards the nesting of the values in it.
-/

namespace LineTemplate

open Json

/-- The value that a JSON text describes. -/
def Value.ofJson? (text : String) : Option Value :=
  (Raw.ofText? text).bind fun raw => (raw.document? nestingLimit).map Value.ofDocument

namespace Table

def document (table : Table) : Document :=
  .object [("root", .object (Value.entryDocuments table.root))]

/-- The root values of an object. -/
def rootOfRaw? : Raw → Option (Dict Value)
  | .object members => do
    let entries ← Raw.memberDocuments? (nestingLimit - 2) members
    return Dict.ofList (Value.ofMemberDocuments entries)
  | _ => none

def ofRaw? (raw : Raw) : Option Table := do
  match ← raw.fields? [⟨"root", .needed⟩] with
  | [some root] => return ⟨← rootOfRaw? root⟩
  | _ => none

/-- The table that a JSON text describes. -/
def ofJson? (text : String) : Option Table :=
  (Raw.ofText? text).bind ofRaw?

end Table

end LineTemplate
