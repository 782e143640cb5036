import Mathlib.Data.List.Forall2
import LineTemplate.Proofs.Cuts
import LineTemplate.Proofs.ScopeDiscipline
import LineTemplate.Survey

/-!
# The indentation of directives does not matter

Blanks around a directive do not change what it is, how its header is read, or how a failure quotes
it. So a render can be compared with that of the lines whose directives have no blanks around them
(`Line.flush`): from one line to the next the two are in the same state, but for these blanks.

**The law** (`Template.render_reindented`): templates that differ in the blanks around directives
alone give the same render and read the same paths.
-/

namespace LineTemplate

/-! ## Trimmed directives -/

namespace Header

open Text

theorem conditionPath?_trim (text : List Char) :
    conditionPath? (trim text) = conditionPath? text := by
  unfold conditionPath?
  rw [afterFirst_trim (by decide)]
  cases afterFirst '(' text with
  | none => rfl
  | some behind =>
    simp only [Option.map_some, Option.bind_eq_bind, Option.bind_some]
    rw [beforeLast_trimRight (by decide)]

theorem loop?_trim (text : List Char) : loop? (trim text) = loop? text := by
  unfold loop?
  rw [afterFirst_trim (by decide)]
  cases afterFirst '(' text with
  | none => rfl
  | some behind =>
    simp only [Option.map_some, Option.bind_eq_bind, Option.bind_some]
    rw [beforeFirst_trimRight (by decide)]

theorem quoted_trim (text : List Char) : quoted (trim text) = quoted text := by
  rw [quoted, trim_trim, quoted]

end Header

/-- The line without the blanks around its directive. -/
def Line.flush (line : Line) : Line :=
  match line.directive with
  | none => line
  | some directive => ⟨Text.trim line.text, some directive⟩

theorem Line.flush_directive (line : Line) : line.flush.directive = line.directive := by
  obtain ⟨text, _ | directive⟩ := line <;> rfl

namespace Render

/-! ## Steps over trimmed directives -/

def Cursor.flush (cursor : Cursor) : Cursor :=
  ⟨cursor.line, cursor.rest.map Line.flush⟩

def State.flush (s : State) : State :=
  ⟨s.cursor.flush, s.scopes⟩

def Outcome.flush (outcome : Outcome) : Outcome :=
  ⟨outcome.state.flush, outcome.log, outcome.failure⟩

/-- A step does over the trimmed directives what another one does over the lines as they are. -/
def Step.Flushes (flushed step : Step) : Prop :=
  ∀ s, flushed s.flush = (step s).flush

theorem Cursor.flush_forward (count : Nat) (cursor : Cursor) :
    (cursor.forward count).flush = cursor.flush.forward count := by
  simp only [forward, flush, List.map_drop]

theorem Cursor.directive?_flush (cursor : Cursor) :
    cursor.flush.directive? = cursor.directive? := by
  obtain ⟨line, _ | ⟨first, rest⟩⟩ := cursor
  · rfl
  · exact first.flush_directive

theorem seek_flush (closers : List Directive) (depth : Nat) (rest : List Line) :
    seek closers depth (rest.map Line.flush) = seek closers depth rest := by
  induction rest generalizing depth with
  | nil => rfl
  | cons line rest ih => simp only [List.map_cons, seek, line.flush_directive, ih]

namespace Step.Flushes

variable {first first' second second' step step' : Step}

theorem andThen (left : first.Flushes first') (right : second.Flushes second') :
    (first.andThen second).Flushes (first'.andThen second') := by
  intro s
  simp only [Step.andThen, left s, Outcome.flush]
  cases failed : (first' s).failure with
  | some failure => simp only [failed]
  | none => simp only [right (first' s).state, Outcome.flush]

theorem inScope (inner : step.Flushes step') :
    (Step.inScope step).Flushes (Step.inScope step') := by
  intro s
  have same := inner ⟨s.cursor, s.scopes.push⟩
  simp only [State.flush] at same
  simp only [Step.inScope, State.flush, same, Outcome.flush]

theorem done : Step.done.Flushes Step.done := fun _ => rfl

theorem write (log : List Entry) : (Step.write log).Flushes (Step.write log) := fun _ => rfl

theorem bind (name : String) (value : Value) :
    (Step.bind name value).Flushes (Step.bind name value) := fun _ => rfl

theorem moveTo (cursor : Cursor) : (Step.moveTo cursor.flush).Flushes (Step.moveTo cursor) :=
  fun _ => rfl

theorem forward (count : Nat) : (Step.forward count).Flushes (Step.forward count) := by
  intro s
  simp only [Step.forward, Outcome.flush, State.flush, Cursor.flush_forward]

theorem atEnd (extent : Extent) : (Step.atEnd extent).Flushes (Step.atEnd extent) := by
  intro s
  cases extent <;> rfl

theorem skip (extent : Extent) : (Step.skip extent).Flushes (Step.skip extent) := by
  intro s
  have length : s.flush.cursor.rest.length = s.cursor.rest.length := List.length_map _
  have found : seek extent.closers 0 s.flush.cursor.rest = seek extent.closers 0 s.cursor.rest :=
    seek_flush _ _ _
  unfold Step.skip
  rw [found, length]
  cases seek extent.closers 0 s.cursor.rest with
  | some count => exact forward count s
  | none => exact (forward _).andThen (atEnd extent) s

theorem atOtherwise (inner : step.Flushes step') :
    (Step.atOtherwise step).Flushes (Step.atOtherwise step') := by
  intro s
  have directive : s.flush.cursor.directive? = s.cursor.directive? := s.cursor.directive?_flush
  unfold Step.atOtherwise
  rw [directive]
  split
  · exact inner s
  · rfl

end Step.Flushes

open Step (Flushes)

variable {setting : Setting} {block block' : Extent → Step}

/-! ## One line -/

theorem plain_flushes (text : List Char) : (plain setting text).Flushes (plain setting text) := by
  intro s
  exact (Flushes.write _).andThen (Flushes.forward 1) s

theorem stray_flushes (directive : Directive) :
    (stray setting directive).Flushes (stray setting directive) := by
  intro s
  unfold stray
  cases setting.strays with
  | skip => exact (Flushes.write _).andThen (Flushes.forward 1) s
  | reject => rfl

theorem each_flushes (inner : (block .body).Flushes (block' .body)) (name : String)
    (start : Cursor) (items : List Value) :
    (each block name start.flush items).Flushes (each block' name start items) := by
  induction items with
  | nil => exact .done
  | cons item items ih =>
    exact (Flushes.bind name _).andThen ((Flushes.moveTo start).andThen (inner.andThen ih))

section Handle

variable (inner : ∀ extent, (block extent).Flushes (block' extent))

include inner

theorem conditional_flushes (text : List Char) :
    (conditional setting block (Text.trim text)).Flushes (conditional setting block' text) := by
  intro s
  unfold conditional
  rw [Header.conditionPath?_trim, Header.quoted_trim]
  cases Header.conditionPath? text with
  | none => rfl
  | some path =>
    refine (Flushes.write _).andThen
      ((Flushes.forward 1).andThen (Flushes.andThen ?_ (.forward 1))) s
    show Flushes (if (((s.scopes.lookup setting.provider path).map Value.isTrue).getD false) = true
      then _ else _) _
    split
    · exact (inner .branch).andThen (Flushes.skip .body).atOtherwise
    · exact (Flushes.skip .branch).andThen ((Flushes.forward 1).andThen (inner .body)).atOtherwise

theorem loop_flushes (text : List Char) :
    (loop setting block (Text.trim text)).Flushes (loop setting block' text) := by
  intro s
  unfold loop
  rw [Header.loop?_trim, Header.quoted_trim]
  cases Header.loop? text with
  | none => rfl
  | some header =>
    have scopes : s.flush.scopes = s.scopes := rfl
    simp only [scopes]
    cases (s.scopes.lookup setting.provider header.container).bind Value.items? with
    | none => rfl
    | some items =>
      refine (Flushes.write _).andThen
        ((Flushes.forward 1).andThen ((Flushes.inScope ?_).andThen (.forward 1))) s
      cases items with
      | nil => exact .skip .body
      | cons item items =>
        have start : s.flush.cursor.forward 1 = (s.cursor.forward 1).flush :=
          (s.cursor.flush_forward 1).symm
        rw [start]
        exact each_flushes (inner .body) _ _ _

theorem handle_flushes (line : Line) :
    (handle setting block line.flush).Flushes (handle setting block' line) := by
  obtain ⟨text, directive⟩ := line
  cases directive with
  | none => exact plain_flushes text
  | some directive =>
    cases directive with
    | conditional => exact conditional_flushes inner text
    | otherwise => exact stray_flushes .otherwise
    | loop => exact loop_flushes inner text
    | close => exact stray_flushes .close

end Handle

/-! ## All lines -/

/-- **A run over the trimmed directives is the run over the lines**, step by step. -/
theorem lines_flushes (ahead : Nat) (extent : Extent) :
    (lines setting ahead extent).Flushes (lines setting ahead extent) := by
  induction ahead generalizing extent with
  | zero => exact .atEnd extent
  | succ ahead ih =>
    intro ⟨⟨number, rest⟩, scopes⟩
    cases rest with
    | nil => exact Flushes.atEnd extent ⟨⟨number, []⟩, scopes⟩
    | cons line rest =>
      have inner (extent : Extent) : (Render.block setting ahead extent).Flushes
          (Render.block setting ahead extent) := .inScope (ih extent)
      by_cases ends : ∃ directive, line.directive = some directive ∧ directive ∈ extent.closers
      · obtain ⟨directive, found, ends⟩ := ends
        have found' : line.flush.directive = some directive := line.flush_directive.trans found
        show lines setting (ahead + 1) extent ⟨⟨number, line.flush :: _⟩, scopes⟩ = _
        simp only [lines, found, found', ends, if_true]
        rfl
      · have goes (directive : Directive) (found : line.directive = some directive) :
            directive ∉ extent.closers := fun closes => ends ⟨directive, found, closes⟩
        have goes' (directive : Directive) (found : line.flush.directive = some directive) :
            directive ∉ extent.closers := goes directive (line.flush_directive ▸ found)
        rw [lines_goes goes]
        exact (lines_goes goes').trans ((handle_flushes inner line).andThen (ih extent) _)

theorem run_flush (setting : Setting) (all : List Line) :
    run setting (all.map Line.flush) = (run setting all).flush := by
  unfold run
  rw [List.length_map]
  exact Flushes.inScope (lines_flushes all.length .whole) ⟨Cursor.start all, Scopes.root⟩

end Render

/-! ## The paths that are read -/

theorem Survey.visit_flush (survey : Survey) (line : Line) :
    survey.visit line.flush = survey.visit line := by
  obtain ⟨text, directive⟩ := line
  cases directive with
  | none => rfl
  | some directive =>
    cases directive with
    | conditional => simp only [visit, Line.flush, Header.conditionPath?_trim]
    | loop => simp only [visit, Line.flush, Header.loop?_trim]
    | otherwise => rfl
    | close => rfl

theorem Survey.ofLines_flush (lines : List Line) :
    ofLines (lines.map Line.flush) = ofLines lines := by
  simp only [ofLines, List.foldl_map, visit_flush]

/-! ## The law -/

/-- Two lines are the same, or they are directives that differ in the blanks around them. -/
def Reindented (first second : List Char) : Prop :=
  first = second ∨ (Directive.ofText? first).isSome ∧ (Directive.ofText? second).isSome ∧
    Text.trim first = Text.trim second

theorem Reindented.flush_eq {first second : List Char} (reindented : Reindented first second) :
    (Line.ofText first).flush = (Line.ofText second).flush := by
  rcases reindented with rfl | ⟨spells, -, same⟩
  · rfl
  · obtain ⟨directive, found⟩ := Option.isSome_iff_exists.mp spells
    have found' : Directive.ofText? second = some directive := by
      rw [← found, Directive.ofText?, Directive.ofText?, same]
    simp only [Line.flush, Line.ofText, found, found', same]

theorem Reindented.map_flush_eq {first second : List (List Char)}
    (reindented : List.Forall₂ Reindented first second) :
    (first.map Line.ofText).map Line.flush = (second.map Line.ofText).map Line.flush := by
  induction reindented with
  | nil => rfl
  | cons now _ later => exact congrArg₂ List.cons now.flush_eq later

namespace Template

/-- **The indentation of directives does not matter.** Let two templates have as many lines, and let
each line of the one be that of the other, or let both be directives that are the same without the
blanks around them. Then the two give the same text or the same failure, with any provider and any
options, and read the same paths. -/
theorem render_reindented {first second : Template}
    (reindented : List.Forall₂ Reindented
      (Text.lines first.content.toList) (Text.lines second.content.toList))
    (provider : Provider) (config : Config) :
    first.render provider config = second.render provider config ∧
      first.variables = second.variables := by
  have same : first.lines.map Line.flush = second.lines.map Line.flush := by
    rw [first.lines_eq, second.lines_eq]
    exact Reindented.map_flush_eq reindented
  constructor
  · have outcomes :
        (first.outcome provider config).flush = (second.outcome provider config).flush := by
      rw [outcome, outcome, ← Render.run_flush, same, Render.run_flush]
    have logs := congrArg Render.Outcome.log outcomes
    have failures := congrArg Render.Outcome.failure outcomes
    simp only [Render.Outcome.flush] at logs failures
    simp only [render, Render.Outcome.result, logs, failures]
  · unfold Template.variables
    rw [← Survey.ofLines_flush, same, Survey.ofLines_flush]

/-- Directives in a loop and in a part that is not rendered, indented in several ways; the header of
the last one cannot be read, and is quoted without its blanks. -/
theorem render_reindented_nested :
    let first := ofText "#foreach ($i in $n)\n#if ($f)\n#end\n$\x7bi\x7d\n#end\n#if )a("
    let second := ofText
      " #foreach ($i in $n)\t\n\u3000#if ($f)\n  #end\n$\x7bi\x7d\n#end \r\n\t#if )a( \r"
    let provider := Table.provider (.ofEntries [("n", .list [.int 1, .int 2])])
    List.Forall₂ Reindented (Text.lines first.content.toList) (Text.lines second.content.toList) ∧
      first.render provider .standard = second.render provider .standard ∧
      first.variables = second.variables ∧ second.variables = ["n", "f"] ∧
      second.render provider .standard = .error (.parse ⟨6, .malformedCondition "#if )a("⟩) := by
  intro first second provider
  have texts : Text.lines first.content.toList = ["#foreach ($i in $n)".toList, "#if ($f)".toList,
      "#end".toList, "$\x7bi\x7d".toList, "#end".toList, "#if )a(".toList] := by decide +kernel
  have texts' : Text.lines second.content.toList = [" #foreach ($i in $n)\t".toList,
      "\u3000#if ($f)".toList, "  #end".toList, "$\x7bi\x7d".toList, "#end ".toList,
      "\t#if )a( \r".toList] := by decide +kernel
  have reindented : List.Forall₂ Reindented
      (Text.lines first.content.toList) (Text.lines second.content.toList) := by
    rw [texts, texts']
    refine .cons ?_ (.cons ?_ (.cons ?_ (.cons (.inl rfl) (.cons ?_ (.cons ?_ .nil))))) <;>
      exact .inr (by decide +kernel)
  obtain ⟨renders, paths⟩ := render_reindented reindented provider .standard
  exact ⟨reindented, renders, paths, by decide +kernel, by decide +kernel⟩

end Template

end LineTemplate
