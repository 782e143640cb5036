import LineTemplate.Json.Decode
import LineTemplate.Json.Printer
import LineTemplate.Registry

/-!
# Stored registries

The JSON forms of options, templates and registries. Of a template only the text and the name are
stored; its lines are read anew from the text.
-/

namespace LineTemplate

open Json

namespace Strays

def document : Strays → Document
  | .skip => .string "Skip"
  | .reject => .string "Reject"

def ofRaw? (raw : Raw) : Option Strays :=
  match raw.bareChoice? with
  | some "Skip" => some .skip
  | some "Reject" => some .reject
  | _ => none

end Strays

namespace Config

/-- The fields of options; those that are missing are the standard ones. -/
def fields : List Field :=
  [⟨"stray_directives", .defaulted⟩, ⟨"line_separator", .defaulted⟩]

def document (config : Config) : Document :=
  .object [("stray_directives", config.strays.document),
    ("line_separator", .string config.separator)]

def ofRaw? (raw : Raw) : Option Config := do
  match ← raw.fields? fields with
  | [strays, separator] =>
    return ⟨← (strays.map Strays.ofRaw?).getD (some standard.strays),
      ← (separator.map Raw.text?).getD (some standard.separator)⟩
  | _ => none

/-- The options that a JSON text describes. -/
def ofJson? (text : String) : Option Config :=
  (Raw.ofText? text).bind ofRaw?

end Config

namespace Template

/-- The fields of a template; it may have no name. -/
def fields : List Field :=
  [⟨"content", .needed⟩, ⟨"name", .defaulted⟩]

def document (template : Template) : Document :=
  .object [("content", .string template.content),
    ("name", (template.name.map Document.string).getD .null)]

def ofRaw? (raw : Raw) : Option Template := do
  match ← raw.fields? fields with
  | [some content, name] =>
    let template := Template.ofText (← content.text?)
    return template.withName (← (name.map (Raw.nullable? Raw.text?)).getD (some none))
  | _ => none

/-- The template that a JSON text describes. -/
def ofJson? (text : String) : Option Template :=
  (Raw.ofText? text).bind ofRaw?

end Template

namespace Registry

/-- The fields of a registry. -/
def fields : List Field :=
  [⟨"config", .needed⟩, ⟨"templates", .needed⟩]

/-- Templates as members of an object. -/
def templateDocuments : List (String × Template) → List (String × Document) :=
  List.map fun (name, template) => (name, template.document)

/-- The document of a registry with these templates, in this order. -/
def documentOf (config : Config) (templates : List (String × Template)) : Document :=
  .object [("config", config.document), ("templates", .object (templateDocuments templates))]

def document (registry : Registry) : Document :=
  documentOf registry.config registry.templates.toList

/-- The templates of an object; of two with one name the last one stays. -/
def templatesOfRaw? : Raw → Option (Dict Template)
  | .object members => do
    let named ← Raw.named? members
    let templates ← named.mapM fun (name, raw) => (Template.ofRaw? raw).map (name, ·)
    return Dict.ofList templates
  | _ => none

def ofRaw? (raw : Raw) : Option Registry := do
  match ← raw.fields? fields with
  | [some config, some templates] =>
    return ⟨← Config.ofRaw? config, ← templatesOfRaw? templates⟩
  | _ => none

/-- The registry that a JSON text describes. -/
def ofJson? (text : String) : Option Registry :=
  (Raw.ofText? text).bind ofRaw?

/-- The registry read back from its own JSON text. -/
def reload? (registry : Registry) : Option Registry :=
  ofJson? registry.document.write

end Registry

end LineTemplate
