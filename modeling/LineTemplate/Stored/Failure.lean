import LineTemplate.Failure
import LineTemplate.Json.Decode
import LineTemplate.Json.Printer

/-!
# Stored failures

The JSON form of a failure: an object whose one member is the name of the case, with its details as
a record. The case of a fault stands inside that of its failure.
-/

namespace LineTemplate

open Json

namespace Kind

def all : List Kind :=
  [.null, .bool, .int, .float, .char, .string, .list, .array, .map]

/-- The kind with a tag. -/
def ofTag? (tag : String) : Option Kind :=
  all.find? fun kind => kind.tag == tag

def document (kind : Kind) : Document :=
  .string kind.tag

def ofRaw? (raw : Raw) : Option Kind :=
  raw.bareChoice?.bind ofTag?

theorem ofTag?_tag (kind : Kind) : ofTag? kind.tag = some kind := by
  cases kind <;> decide

end Kind

/-- A case of a choice with its record. -/
def storedCase (name : String) (fields : List (String × Document)) : Document :=
  .object [(name, .object fields)]

/-- The one field of a record. -/
def Json.Raw.onlyField? (name : String) (raw : Raw) : Option Raw :=
  match raw.fields? [⟨name, .needed⟩] with
  | some [some content] => some content
  | _ => none

namespace Fault

def document : Fault → Document
  | .unexpectedEnd expected => storedCase "UnexpectedEof" [("expected", .string expected)]
  | .malformedLoop header => storedCase "MalformedForeach" [("header", .string header)]
  | .malformedCondition header => storedCase "MalformedCondition" [("header", .string header)]
  | .strayDirective keyword => storedCase "StrayDirective" [("token", .string keyword)]

def ofRaw? (raw : Raw) : Option Fault := do
  match ← raw.choice? with
  | ("UnexpectedEof", some content) =>
    return .unexpectedEnd (← (← content.onlyField? "expected").text?)
  | ("MalformedForeach", some content) =>
    return .malformedLoop (← (← content.onlyField? "header").text?)
  | ("MalformedCondition", some content) =>
    return .malformedCondition (← (← content.onlyField? "header").text?)
  | ("StrayDirective", some content) =>
    return .strayDirective (← (← content.onlyField? "token").text?)
  | _ => none

end Fault

namespace ParseFailure

/-- The fields of a parse failure. -/
def fields : List Field :=
  [⟨"line", .needed⟩, ⟨"kind", .needed⟩]

def document (failure : ParseFailure) : Document :=
  .object [("line", .number (.natural (UInt64.ofNat failure.line))),
    ("kind", failure.fault.document)]

def ofRaw? (raw : Raw) : Option ParseFailure := do
  match ← raw.fields? fields with
  | [some line, some fault] => return ⟨← line.natural?, ← Fault.ofRaw? fault⟩
  | _ => none

end ParseFailure

namespace Failure

/-- The fields of a failure over a container without items. -/
def notIterableFields : List Field :=
  [⟨"line", .needed⟩, ⟨"path", .needed⟩, ⟨"found", .optional⟩]

def document : Failure → Document
  | .templateExists name => storedCase "TemplateExists" [("template_name", .string name)]
  | .missingTemplate name => storedCase "MissingTemplate" [("template_name", .string name)]
  | .notIterable line path found =>
    storedCase "NotIterable" [("line", .number (.natural (UInt64.ofNat line))),
      ("path", .string path), ("found", (found.map Kind.document).getD .null)]
  | .serialization message => storedCase "Serialization" [("message", .string message)]
  | .parse failure => .object [("Parse", failure.document)]

def ofRaw? (raw : Raw) : Option Failure := do
  match ← raw.choice? with
  | ("TemplateExists", some content) =>
    return .templateExists (← (← content.onlyField? "template_name").text?)
  | ("MissingTemplate", some content) =>
    return .missingTemplate (← (← content.onlyField? "template_name").text?)
  | ("NotIterable", some content) =>
    match ← content.fields? notIterableFields with
    | [some line, some path, found] =>
      return .notIterable (← line.natural?) (← path.text?)
        (← (found.map (Raw.nullable? Kind.ofRaw?)).getD (some none))
    | _ => none
  | ("Serialization", some content) =>
    return .serialization (← (← content.onlyField? "message").text?)
  | ("Parse", some content) => return .parse (← ParseFailure.ofRaw? content)
  | _ => none

/-- The failure that a JSON text describes. -/
def ofText? (text : String) : Option Failure :=
  (Raw.ofText? text).bind ofRaw?

end Failure

end LineTemplate
