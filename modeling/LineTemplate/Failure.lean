import LineTemplate.Value.Basic

/-!
# Failures

What can go wrong, as causes: the wording is in `message` alone. A failure that belongs to a line of
a template carries the number of that line, counted from 1.
-/

namespace LineTemplate

/-- What is wrong with the directives of a template. -/
inductive Fault where
  /-- The text ended before one of the directives that close a block. -/
  | unexpectedEnd (expected : String)
  /-- The header of a loop cannot be read. -/
  | malformedLoop (header : String)
  /-- The header of a condition cannot be read. -/
  | malformedCondition (header : String)
  /-- A directive closes no open block. -/
  | strayDirective (keyword : String)
deriving DecidableEq, Repr

/-- A fault and the line on which it was met. -/
structure ParseFailure where
  line : Nat
  fault : Fault
deriving DecidableEq, Repr

/-- Why a request was not answered. -/
inductive Failure where
  /-- The registry holds a template of that name already. -/
  | templateExists (name : String)
  /-- The registry holds no template of that name. -/
  | missingTemplate (name : String)
  /-- The container of a loop has no items; `found` is its kind, if it was found. -/
  | notIterable (line : Nat) (path : String) (found : Option Kind)
  /-- A model cannot be turned into data. -/
  | serialization (message : String)
  /-- The template itself is at fault. -/
  | parse (failure : ParseFailure)
deriving DecidableEq, Repr

def Fault.message : Fault → String
  | .unexpectedEnd expected => "expected token(s): " ++ expected ++ " but found EOF"
  | .malformedLoop header =>
    "foreach syntax is wrong, expected '#foreach ($var in $items)': " ++ header
  | .malformedCondition header => "if syntax is wrong, expected '#if ($condition)': " ++ header
  | .strayDirective keyword => "'" ++ keyword ++ "' does not close any open block"

def ParseFailure.message (failure : ParseFailure) : String :=
  "Parse error at line " ++ toString failure.line ++ ": " ++ failure.fault.message

namespace Failure

def message : Failure → String
  | .templateExists name => "Template already exists: " ++ name
  | .missingTemplate name => "Template not found: " ++ name
  | .notIterable line path found =>
    "The container '" ++ path ++ "' at line " ++ toString line
      ++ " is not a collection or an array ("
      ++ (match found with
        | some kind => "found " ++ kind.name
        | none => "not found")
      ++ ")"
  | .serialization message => "Serialization error: " ++ message
  | .parse failure => failure.message

/-- The messages of the causes behind a failure, outermost first. -/
def sources : Failure → List String
  | .parse failure => [failure.message, failure.fault.message]
  | _ => []

end Failure

end LineTemplate
