import LineTemplate.Config
import LineTemplate.Event
import LineTemplate.Failure
import LineTemplate.Reference

/-!
# Steps of a render

A render walks over lines with a cursor and a stack of scopes. A step takes this state to an
outcome: the state after it, what it has written, and whether it failed. The state after a failure
is part of the outcome, so what a step does to the scopes can be said of every step.

Steps are put together with `andThen`, which stops at the first failure and keeps what was written.
-/

namespace LineTemplate.Render

/-- A position among lines: the line that is read next, with those behind it, and its number. -/
structure Cursor where
  line : Nat
  rest : List Line
deriving DecidableEq, Repr

namespace Cursor

/-- The first of all lines. -/
def start (lines : List Line) : Cursor :=
  ⟨1, lines⟩

/-- Moves over `count` lines. -/
def forward (count : Nat) (cursor : Cursor) : Cursor :=
  ⟨cursor.line + count, cursor.rest.drop count⟩

/-- The directive of the line that is read next. -/
def directive? (cursor : Cursor) : Option Directive :=
  cursor.rest.head?.bind Line.directive

end Cursor

/-- What a render reads and changes on its way. -/
structure State where
  cursor : Cursor
  scopes : Scopes
deriving Repr

/-- What a render writes: a line of output, or an event. -/
inductive Entry where
  | line (text : List Char)
  | event (event : Event)
deriving DecidableEq, Repr

/-- How a step ends. -/
structure Outcome where
  state : State
  log : List Entry
  failure : Option Failure
deriving Repr

/-- A part of a render. -/
abbrev Step : Type := State → Outcome

namespace Step

/-- Nothing happens. -/
def done : Step := fun s =>
  ⟨s, [], none⟩

/-- The render ends here. -/
def fail (failure : Failure) : Step := fun s =>
  ⟨s, [], some failure⟩

/-- Writes to the log. -/
def write (log : List Entry) : Step := fun s =>
  ⟨s, log, none⟩

/-- Moves the cursor over some lines. -/
def forward (count : Nat) : Step := fun s =>
  ⟨⟨s.cursor.forward count, s.scopes⟩, [], none⟩

/-- Puts the cursor at a position. -/
def moveTo (cursor : Cursor) : Step := fun s =>
  ⟨⟨cursor, s.scopes⟩, [], none⟩

/-- Binds a name in the innermost scope. -/
def bind (name : String) (value : Value) : Step := fun s =>
  ⟨⟨s.cursor, s.scopes.bind name value⟩, [], none⟩

/-- One step, and another one unless it fails. -/
def andThen (first second : Step) : Step := fun s =>
  let o := first s
  match o.failure with
  | some _ => o
  | none =>
    let o' := second o.state
    ⟨o'.state, o.log ++ o'.log, o'.failure⟩

/-- A step in a scope of its own, which is closed however the step ends. -/
def inScope (step : Step) : Step := fun s =>
  let o := step ⟨s.cursor, s.scopes.push⟩
  ⟨⟨o.state.cursor, o.state.scopes.pop⟩, o.log, o.failure⟩

end Step

/-- What a render works with throughout. -/
structure Setting where
  provider : Provider
  strays : Strays

end LineTemplate.Render
