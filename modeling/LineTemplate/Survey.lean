import LineTemplate.Template

/-!
# The paths a template reads

A survey goes through the lines of a template once, without any data, and lists the paths that a
render may ask its provider for. It keeps a stack of the open blocks, with the name that each loop
binds: a path whose first segment is bound by an open loop is answered by the loop, and is left out.
A header that cannot be read opens a block all the same, and asks for nothing.
-/

namespace LineTemplate

/-- What a survey has found so far. -/
structure Survey where
  /-- The paths, each once, in the order in which they were met. -/
  paths : List String
  /-- The open blocks, innermost first, each with the name that it binds. -/
  blocks : List (Option String)
deriving DecidableEq, Repr

namespace Survey

def start : Survey := ⟨[], []⟩

/-- A loop that is open binds the first segment of the path. -/
def isBound (survey : Survey) (path : String) : Bool :=
  match pathSegments path with
  | [] => false
  | first :: _ => survey.blocks.contains (some first)

/-- Notes a path, unless an open loop answers it or it has been noted before. -/
def note (survey : Survey) (path : String) : Survey :=
  if survey.isBound path || survey.paths.contains path then survey
  else ⟨survey.paths ++ [path], survey.blocks⟩

/-- Opens a block that binds a name, or none. -/
def enter (name : Option String) (survey : Survey) : Survey :=
  ⟨survey.paths, name :: survey.blocks⟩

/-- Closes the innermost block. -/
def leave (survey : Survey) : Survey :=
  ⟨survey.paths, survey.blocks.tail⟩

/-- Goes on over one line. -/
def visit (survey : Survey) (line : Line) : Survey :=
  match line.directive with
  | none => (Reference.names line.text).foldl note survey
  | some .conditional =>
    match Header.conditionPath? line.text with
    | some path => (survey.note path).enter none
    | none => survey.enter none
  | some .loop =>
    match Header.loop? line.text with
    | some header => (survey.note header.container).enter (some header.item)
    | none => survey.enter none
  | some .close => survey.leave
  | some .otherwise => survey

/-- The survey of all lines. -/
def ofLines (lines : List Line) : Survey :=
  lines.foldl visit start

end Survey

/-- The paths that a template reads from its provider. -/
def Template.variables (template : Template) : List String :=
  (Survey.ofLines template.lines).paths

end LineTemplate
