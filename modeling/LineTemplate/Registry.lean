import LineTemplate.Survey

/-!
# Registries

A registry keeps templates by name, with the options for rendering them. A name is given once: a
second template under it is refused and the first one stays.
-/

namespace LineTemplate

structure Registry where
  config : Config
  templates : Dict Template
deriving Repr

namespace Registry

/-- A registry with these options and no templates. -/
def ofConfig (config : Config) : Registry :=
  ⟨config, .empty⟩

/-- A registry with the standard options and no templates. -/
def empty : Registry :=
  ofConfig .standard

def template? (registry : Registry) (name : String) : Option Template :=
  registry.templates.get? name

/-- The template that is kept under a name. -/
def entry (name content : String) : Template :=
  (Template.ofText content).withName (some name)

/-- Adds a template under a name that is still free. -/
def add (registry : Registry) (name content : String) : Except Failure Registry :=
  match registry.template? name with
  | some _ => .error (.templateExists name)
  | none => .ok ⟨registry.config, registry.templates.insert name (entry name content)⟩

/-- `add` with the event that reports it. -/
def addTraced (registry : Registry) (name content : String) : Traced (Except Failure Registry) :=
  match registry.add name content with
  | .error failure => ⟨.error failure, []⟩
  | .ok grown =>
    ⟨.ok grown, [.templateAdded name (entry name content).lines.length]⟩

/-- Renders the template of a name. -/
def render (registry : Registry) (name : String) (provider : Provider) :
    Traced (Except Failure String) :=
  match registry.template? name with
  | some template => template.renderTraced provider registry.config
  | none => ⟨.error (.missingTemplate name), []⟩

/-- Renders a text with the options of the registry. -/
def renderText (registry : Registry) (content : String) (provider : Provider) :
    Traced (Except Failure String) :=
  (Template.ofText content).renderTraced provider registry.config

end Registry

/-- The paths that the template of a name reads; there are none for a free name. -/
def Registry.variables (registry : Registry) (name : String) : List String :=
  ((registry.template? name).map Template.variables).getD []

end LineTemplate
