import LineTemplate.Json.Printer
import LineTemplate.Event
import LineTemplate.Failure
import LineTemplate.Provider
import LineTemplate.Value.Json

/-!
# Models

A model is structured data as its owner tells it, piece by piece. `document?` turns it into a
document: sequences and maps keep their shape, the names of a map are the texts of its keys, and
single-precision numbers are widened. It fails where the owner fails, and where a key has no text; a
key that is told as optional has none.
-/

namespace LineTemplate

open Number Json

/-- Structured data as its owner tells it. -/
inductive Model where
  | unit
  | bool (b : Bool)
  | int (n : Int64)
  | natural (n : UInt64)
  | single (x : Binary32)
  | double (x : Binary64)
  | char (c : Char)
  | string (s : String)
  | bytes (content : List UInt8)
  | absent
  | given (model : Model)
  /-- A case without content. -/
  | bareCase (name : String)
  /-- A case with its content. -/
  | fullCase (name : String) (content : Model)
  | sequence (items : List Model)
  | map (entries : List (Model × Model))
  /-- The owner gives up with a message. -/
  | failing (message : String)
deriving Repr

namespace Model

/-- The text of a number as a key; only finite numbers have one. -/
def numberKey (layout : Layout) {f : Format} (x : Binary f) : Except String String :=
  if x.isFinite then .ok (String.ofList (layout.text x))
  else .error "float key must be finite (got NaN or +/-inf)"

/-- The text of a key. -/
def key : Model → Except String String
  | .string s => .ok s
  | .char c => .ok c.toString
  | .bareCase name => .ok name
  | .bool b => .ok (if b then "true" else "false")
  | .int n => .ok (String.ofList (integerText n.toInt))
  | .natural n => .ok (String.ofList (Nat.toDigits 10 n.toNat))
  | .single x => numberKey .jsonSingle x
  | .double x => numberKey .json x
  | .failing message => .error message
  | _ => .error "key must be a string"

mutual

/-- The document of a model. -/
def document? : Model → Except String Document
  | .unit => .ok .null
  | .bool b => .ok (.bool b)
  | .int n => .ok (.int n)
  | .natural n => .ok (.number (.natural n))
  | .single x => .ok (.float (Binary32.widen x))
  | .double x => .ok (.float x)
  | .char c => .ok (.string c.toString)
  | .string s => .ok (.string s)
  | .bytes content => .ok (.array (content.map fun byte => .number (.natural byte.toUInt64)))
  | .absent => .ok .null
  | .given model => document? model
  | .bareCase name => .ok (.string name)
  | .fullCase name content => do return .object [(name, ← document? content)]
  | .sequence items => do return .array (← itemDocuments? items)
  | .map entries => do return .object (Dict.ofList (← entryDocuments? entries)).toList
  | .failing message => .error message

/-- The documents of the items of a sequence. -/
def itemDocuments? : List Model → Except String (List Document)
  | [] => .ok []
  | item :: items => do
    let first ← document? item
    let rest ← itemDocuments? items
    return first :: rest

/-- The documents of the entries of a map, with the texts of their keys. -/
def entryDocuments? : List (Model × Model) → Except String (List (String × Document))
  | [] => .ok []
  | (name, content) :: entries => do
    let first ← key name
    let document ← document? content
    let rest ← entryDocuments? entries
    return (first, document) :: rest

end

end Model

/-- A model as a value. -/
def Value.ofModel? (model : Model) : Except Failure Value :=
  match model.document? with
  | .ok document => .ok (.ofDocument document)
  | .error message => .error (Failure.serialization message)

/-- A scalar as a model. -/
def Scalar.model : Scalar → Model
  | .bool b => .bool b
  | .int n => .int n
  | .float x => .double x
  | .char c => .char c

namespace Value

mutual

/-- A value as a model. -/
def model : Value → Model
  | .null => .unit
  | .bool b => (Scalar.bool b).model
  | .int n => (Scalar.int n).model
  | .float x => (Scalar.float x).model
  | .char c => (Scalar.char c).model
  | .string s => .string s
  | .list items => .sequence (itemModels items)
  | .array items => .sequence (items.scalars.map Scalar.model)
  | .map entries => .map (entryModels entries)

/-- The items of a list as models. -/
def itemModels : List Value → List Model
  | [] => []
  | item :: items => model item :: itemModels items

/-- The entries of a map as models. -/
def entryModels : {low : Option String} → Entries Value low → List (Model × Model)
  | _, .nil => []
  | _, .cons name _ value entries => (.string name, model value) :: entryModels entries

end

end Value

/-- The table whose root values are the entries of a model; a model that is not a map has none. -/
def Table.ofModel? (model : Model) : Traced (Except Failure Table) :=
  match Value.ofModel? model with
  | .ok (.map entries) => ⟨.ok ⟨entries⟩, []⟩
  | .ok value => ⟨.ok .empty, [.modelNotMap value.kind]⟩
  | .error failure => ⟨.error failure, []⟩

end LineTemplate
