import LineTemplate.Directive
import LineTemplate.Value.Basic

/-!
# Events

What happens on the way is reported as a list of events, in order.
-/

namespace LineTemplate

/-- How much an event matters. -/
inductive Level where
  | trace
  | debug
  | warn
deriving DecidableEq, Repr

inductive Event where
  /-- A render begins; an unnamed template has no name to report. -/
  | rendering (template : Option String) (lines : Nat)
  /-- A render has succeeded with a text of so many bytes. -/
  | rendered (bytes : Nat)
  /-- A template has joined a registry. -/
  | templateAdded (template : String) (lines : Nat)
  /-- A model that is not a map has no root values. -/
  | modelNotMap (kind : Kind)
  /-- A condition has been decided. -/
  | condition (line : Nat) (path : String) (holds : Bool)
  /-- A loop begins, with so many items. -/
  | loop (line : Nat) (item : String) (container : String) (size : Nat)
  /-- A reference has no value and is left as it is. -/
  | unresolved (name : String)
  /-- A directive that closes no open block has been dropped. -/
  | straySkipped (line : Nat) (directive : Directive)
deriving DecidableEq, Repr

namespace Event

def level : Event → Level
  | .rendering .. | .rendered _ | .templateAdded .. | .modelNotMap _ => .debug
  | .condition .. | .loop .. | .unresolved _ => .trace
  | .straySkipped .. => .warn

def message : Event → String
  | .rendering .. => "rendering template"
  | .rendered _ => "rendered template"
  | .templateAdded .. => "template added"
  | .modelNotMap _ => "model is not a map, root is empty"
  | .condition .. => Directive.conditional.keyword
  | .loop .. => Directive.loop.keyword
  | .unresolved _ => "unresolved, left as is"
  | .straySkipped .. => "skipping stray directive"

end Event

/-- An answer with the events on the way to it. -/
structure Traced (α : Type) where
  value : α
  events : List Event
deriving Repr

end LineTemplate
