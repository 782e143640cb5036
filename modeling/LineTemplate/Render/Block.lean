import LineTemplate.Render.Step

/-!
# Rendering blocks

A run of lines goes up to its end: the whole text ends with the input, the first branch of a
condition at the next `#else` or `#end` of its own, and every other block at its own `#end`
(`Extent`). Lines that are rendered and lines that are passed over (`seek`) are counted by different
rules; both meet at the same closing directive.

A loop puts the cursor back to its first line for every item, so the cursor alone does not bound a
render. Each block starts behind the line that opens it, so a bound on the lines that are still
ahead goes down with every line read and every block entered. `lines` recurses on such a bound, and
with no line ahead the input has ended.
-/

namespace LineTemplate.Render

/-- What ends a run of lines. -/
inductive Extent where
  /-- The end of the input. -/
  | whole
  /-- The next `#else` or `#end` of its own level. -/
  | branch
  /-- The next `#end` of its own level. -/
  | body
deriving DecidableEq, Repr

namespace Extent

/-- The directives that end the run. -/
def closers : Extent → List Directive
  | .whole => []
  | .branch => [.otherwise, .close]
  | .body => [.close]

/-- The directives that end the run, as failures name them. -/
def expected (extent : Extent) : String :=
  ", ".intercalate (extent.closers.map Directive.keyword)

end Extent

/-- The count of lines in front of the first closer of the present level; `depth` blocks have been
opened since. -/
def seek (closers : List Directive) : (depth : Nat) → List Line → Option Nat
  | _, [] => none
  | depth, line :: rest =>
    match line.directive with
    | none => (seek closers depth rest).map (· + 1)
    | some directive =>
      if depth = 0 ∧ directive ∈ closers then some 0
      else (seek closers (directive.depthAfter depth) rest).map (· + 1)

namespace Step

/-- The input has ended; only the whole text may end there. -/
def atEnd (extent : Extent) : Step := fun s =>
  match extent with
  | .whole => done s
  | .branch | .body => fail (.parse ⟨s.cursor.line - 1, .unexpectedEnd extent.expected⟩) s

/-- Passes over the lines up to the directive that ends the present level. -/
def skip (extent : Extent) : Step := fun s =>
  match seek extent.closers 0 s.cursor.rest with
  | some count => forward count s
  | none => (forward s.cursor.rest.length).andThen (atEnd extent) s

/-- Goes on with a step only at an `#else`. -/
def atOtherwise (step : Step) : Step := fun s =>
  if s.cursor.directive? = some .otherwise then step s else done s

end Step

/-- Writes a line with its references substituted. -/
def plain (setting : Setting) (text : List Char) : Step := fun s =>
  let missing := Reference.unresolved setting.provider s.scopes text
  let line := Reference.format setting.provider s.scopes text
  ((Step.write (missing.map (.event <| .unresolved ·) ++ [.line line])).andThen (.forward 1)) s

/-- A condition: one of its branches is rendered, the other one is passed over. -/
def conditional (setting : Setting) (block : Extent → Step) (text : List Char) : Step := fun s =>
  match Header.conditionPath? text with
  | none => Step.fail (.parse ⟨s.cursor.line, .malformedCondition (Header.quoted text)⟩) s
  | some path =>
    let holds := ((s.scopes.lookup setting.provider path).map Value.isTrue).getD false
    let branches : Step :=
      if holds then (block .branch).andThen (.atOtherwise (.skip .body))
      else (Step.skip .branch).andThen (.atOtherwise ((Step.forward 1).andThen (block .body)))
    ((Step.write [.event (.condition s.cursor.line path holds)]).andThen
      ((Step.forward 1).andThen (branches.andThen (.forward 1)))) s

/-- What a loop binds for an item: an item that is `null` is bound as the text of `null`. -/
def loopItem (item : Value) : Value :=
  if item.isNull then .string "null" else item

/-- Renders the body once for every item, each time from the same position. -/
def each (block : Extent → Step) (name : String) (start : Cursor) : List Value → Step
  | [] => .done
  | item :: items =>
    (Step.bind name (loopItem item)).andThen
      ((Step.moveTo start).andThen ((block .body).andThen (each block name start items)))

/-- A loop: its body is rendered once for every item, or passed over if there is none. -/
def loop (setting : Setting) (block : Extent → Step) (text : List Char) : Step := fun s =>
  match Header.loop? text with
  | none => Step.fail (.parse ⟨s.cursor.line, .malformedLoop (Header.quoted text)⟩) s
  | some header =>
    let container := s.scopes.lookup setting.provider header.container
    match container.bind Value.items? with
    | none =>
      Step.fail (.notIterable s.cursor.line header.container (container.map Value.kind)) s
    | some items =>
      let start := s.cursor.forward 1
      let passes : Step :=
        if items.isEmpty then .skip .body else each block header.item start items
      ((Step.write [.event (.loop s.cursor.line header.item header.container items.length)]).andThen
        ((Step.forward 1).andThen ((Step.inScope passes).andThen (.forward 1)))) s

/-- A directive that closes no open block. -/
def stray (setting : Setting) (directive : Directive) : Step := fun s =>
  match setting.strays with
  | .skip =>
    ((Step.write [.event (.straySkipped s.cursor.line directive)]).andThen (.forward 1)) s
  | .reject => Step.fail (.parse ⟨s.cursor.line, .strayDirective directive.keyword⟩) s

/-- Renders the lines from the cursor to the end of the extent, and stops in front of the directive
that ends it. `ahead` is at least the count of lines from the cursor on. -/
def lines (setting : Setting) : (ahead : Nat) → (extent : Extent) → Step
  | 0, extent => .atEnd extent
  | ahead + 1, extent => fun s =>
    match s.cursor.rest with
    | [] => Step.atEnd extent s
    | line :: _ =>
      let block (inner : Extent) : Step := .inScope (lines setting ahead inner)
      match line.directive with
      | none => ((plain setting line.text).andThen (lines setting ahead extent)) s
      | some directive =>
        if directive ∈ extent.closers then Step.done s
        else
          match directive with
          | .conditional =>
            ((conditional setting block line.text).andThen (lines setting ahead extent)) s
          | .loop => ((loop setting block line.text).andThen (lines setting ahead extent)) s
          | .otherwise | .close =>
            ((stray setting directive).andThen (lines setting ahead extent)) s

/-- Renders lines in a scope of their own. -/
def block (setting : Setting) (ahead : Nat) (extent : Extent) : Step :=
  .inScope (lines setting ahead extent)

/-- Renders all lines, from the root scope. -/
def run (setting : Setting) (all : List Line) : Outcome :=
  block setting all.length .whole ⟨Cursor.start all, Scopes.root⟩

end LineTemplate.Render
