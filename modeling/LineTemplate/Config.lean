/-!
# Rendering options
-/

namespace LineTemplate

/-- What happens at a directive that closes no open block. -/
inductive Strays where
  /-- The line is dropped. -/
  | skip
  /-- The render fails. -/
  | reject
deriving DecidableEq, Repr

/-- Options of a render. -/
structure Config where
  strays : Strays
  /-- Written behind every line, whatever line breaks the template has. -/
  separator : String
deriving DecidableEq, Repr

/-- Stray directives are dropped, and lines end with a carriage return and a line feed. -/
def Config.standard : Config :=
  ⟨.skip, "\r\n"⟩

end LineTemplate
