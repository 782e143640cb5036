import LineTemplate.Render.Block
import LineTemplate.Text.Lines

/-!
# Templates

A template keeps its text and the lines of the text, which are cut and classified once, when the
template is made. Only these lines are rendered. A template comes with the proof that they are those
of its text, so whoever makes one, from a text or from stored data, has to read the lines anew.
-/

namespace LineTemplate

/-- The lines of a text, with their directives. -/
def Line.ofContent (content : String) : List Line :=
  (Text.lines content.toList).map Line.ofText

structure Template where
  content : String
  lines : List Line
  name : Option String
  lines_eq : lines = Line.ofContent content
deriving DecidableEq, Repr

namespace Template

/-- A template without a name. -/
def ofText (content : String) : Template :=
  ⟨content, Line.ofContent content, none, rfl⟩

/-- The template with this name, or without one. -/
def withName (name : Option String) (template : Template) : Template :=
  { template with name := name }

/-- The outcome of a render, line by line. -/
def outcome (template : Template) (provider : Provider) (config : Config) : Render.Outcome :=
  Render.run ⟨provider, config.strays⟩ template.lines

end Template

namespace Render

/-- The lines of output in a log. -/
def writtenLines (log : List Entry) : List (List Char) :=
  log.filterMap fun
    | .line text => some text
    | .event _ => none

/-- The events in a log. -/
def events (log : List Entry) : List Event :=
  log.filterMap fun
    | .line _ => none
    | .event event => some event

/-- Lines as one text, each followed by the separator. -/
def joinLines (separator : List Char) (texts : List (List Char)) : List Char :=
  texts.flatMap (· ++ separator)

/-- The text of an outcome, or its failure. -/
def Outcome.result (separator : String) (outcome : Outcome) : Except Failure String :=
  match outcome.failure with
  | some failure => .error failure
  | none => .ok (String.ofList (joinLines separator.toList (writtenLines outcome.log)))

end Render

namespace Template

/-- The text that a template renders to. -/
def render (template : Template) (provider : Provider) (config : Config) : Except Failure String :=
  (template.outcome provider config).result config.separator

/-- A render with the events on the way: its beginning, those of the lines, and its success. -/
def renderTraced (template : Template) (provider : Provider) (config : Config) :
    Traced (Except Failure String) :=
  let outcome := template.outcome provider config
  let result := outcome.result config.separator
  let success : List Event :=
    match result with
    | .ok text => [.rendered text.utf8ByteSize]
    | .error _ => []
  ⟨result, .rendering template.name template.lines.length ::
    (Render.events outcome.log ++ success)⟩

end Template

/-- Renders a text with the standard options. -/
def renderText (content : String) (provider : Provider) : Except Failure String :=
  (Template.ofText content).render provider .standard

end LineTemplate
