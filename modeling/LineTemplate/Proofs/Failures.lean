import LineTemplate.Proofs.Concatenation
import LineTemplate.Proofs.Interruptions
import LineTemplate.Proofs.OpenBlocks

/-!
# What a failure says is true

A failure names a line, and says what is wrong there. `Failure.Truthful` says when that is so, of
the lines of a text alone.

**The laws.** Every failure of a render is truthful, and names a line of the template
(`Template.render_failure_truthful`). The end of the input is reported where a block is open, and
only there (`Template.render_end_iff_open`).

The proof goes by recursion on the block tree, with the place of each node among the lines. No
look-up answers `null`, so no failure names that kind. A block without a closing directive stands
only in a text with an open block, and the text ends with it.
-/

namespace LineTemplate

open Render (Cursor Extent Setting)

/-! ## Lines by their number -/

namespace Render.Cursor

/-- The cursor stands among these lines, on the line that it counts. -/
def Among (all : List Line) (cursor : Cursor) : Prop :=
  ∃ front, front ++ cursor.rest = all ∧ cursor.line = front.length + 1

variable {all rest : List Line} {line : Nat}

theorem among_start (all : List Line) : (Cursor.start all).Among all :=
  ⟨[], rfl, rfl⟩

theorem Among.behind {front : List Line} (among : Among all ⟨line, front ++ rest⟩) :
    Among all ⟨line + front.length, rest⟩ := by
  obtain ⟨before, parts, count⟩ := among
  refine ⟨before ++ front, ?_, ?_⟩
  · rw [List.append_assoc]
    exact parts
  · simp only at count ⊢
    rw [List.length_append]
    omega

theorem Among.tail {first : Line} (among : Among all ⟨line, first :: rest⟩) :
    Among all ⟨line + 1, rest⟩ := by
  have whole : Among all ⟨line, [first] ++ rest⟩ := among
  exact whole.behind

/-- The line that is read next has its number. -/
theorem Among.getElem?_eq {first : Line} (among : Among all ⟨line, first :: rest⟩) :
    ∃ index, line = index + 1 ∧ all[index]? = some first := by
  obtain ⟨before, rfl, count⟩ := among
  exact ⟨before.length, count, by simp⟩

/-- At the end of the input all lines have been counted. -/
theorem Among.line_eq (among : Among all ⟨line, []⟩) : line = all.length + 1 := by
  obtain ⟨before, rfl, count⟩ := among
  simpa using count

end Render.Cursor

/-! ## Failures of reports -/

variable {setting : Setting} {line lastLine : Nat} {env : Environment} {failure : Failure}

namespace Report

theorem andThen_failure (first second : Report) :
    (first.andThen second).failure = first.failure.or second.failure := by
  obtain ⟨log, failure⟩ := first
  cases failure <;> rfl

theorem fails_of_andThen {first second : Report}
    (fails : (first.andThen second).failure = some failure) :
    first.failure = some failure ∨ second.failure = some failure := by
  rw [andThen_failure, Option.or_eq_some_iff] at fails
  exact fails.imp_right And.right

/-- The passes over items fail in one of the passes. -/
theorem fails_of_forEach {pass : Value → Report} {items : List Value}
    (fails : (forEach pass items).failure = some failure) :
    ∃ item, (pass item).failure = some failure := by
  induction items with
  | nil => exact nomatch fails
  | cons item items ih =>
    rcases fails_of_andThen fails with now | later
    · exact ⟨item, now⟩
    · exact ih later

theorem fails_of_result {separator : String} {report : Report}
    (fails : report.result separator = .error failure) : report.failure = some failure := by
  obtain ⟨log, failure'⟩ := report
  cases failure' with
  | none => exact nomatch fails
  | some failure' => exact congrArg some (Except.error.inj fails)

end Report

namespace Node

theorem fails_of_ending {extent : Extent} {closing : Option (List Char)}
    (fails : (ending extent closing lastLine).failure = some failure) :
    closing = none ∧ failure = .parse ⟨lastLine, .unexpectedEnd extent.expected⟩ := by
  cases closing with
  | none => exact ⟨rfl, (Option.some.inj fails).symm⟩
  | some text => exact nomatch fails

/-- A condition fails at its header or in the branch it takes. -/
theorem fails_of_decided {header : List Char} {branch : Bool → Report}
    (fails : (decided setting header line env branch).failure = some failure) :
    (Header.conditionPath? header = none ∧
      failure = .parse ⟨line, .malformedCondition (Header.quoted header)⟩) ∨
    ∃ holds, (branch holds).failure = some failure := by
  unfold decided at fails
  split at fails
  next malformed => exact .inl ⟨malformed, (Option.some.inj fails).symm⟩
  next path _ => exact .inr ⟨_, (Report.fails_of_andThen fails).resolve_left nofun⟩

/-- A loop fails at its header, for its container, behind its items, or in one of its passes. -/
theorem fails_of_looped {header : List Char} {pass : Environment → Report} {ended : Report}
    (fails : (looped setting header line env pass ended).failure = some failure) :
    (Header.loop? header = none ∧
      failure = .parse ⟨line, .malformedLoop (Header.quoted header)⟩) ∨
    (∃ found, Header.loop? header = some found ∧
      (env.lookup setting.provider found.container).bind Value.items? = none ∧
      failure = .notIterable line found.container
        ((env.lookup setting.provider found.container).map Value.kind)) ∨
    ended.failure = some failure ∨ ∃ inner, (pass inner).failure = some failure := by
  unfold looped at fails
  split at fails
  next malformed => exact .inl ⟨malformed, (Option.some.inj fails).symm⟩
  next found reads =>
    simp only at fails
    split at fails
    next missing =>
      exact .inr (.inl ⟨found, reads, missing, (Option.some.inj fails).symm⟩)
    next items _ =>
      have rest := (Report.fails_of_andThen fails).resolve_left nofun
      split at rest
      · exact .inr (.inr (.inl rest))
      · obtain ⟨item, inner⟩ := Report.fails_of_forEach rest
        exact .inr (.inr (.inr ⟨_, inner⟩))

end Node

/-! ## Truthful failures -/

/-- The line that a failure was met on. -/
def Failure.line? : Failure → Option Nat
  | .notIterable line _ _ => some line
  | .parse failure => some failure.line
  | _ => none

/-- **What a failure says of these lines is true.** Lines are counted from 1. -/
inductive Failure.Truthful (strays : Strays) (all : List Line) : Failure → Prop
  /-- The line is a condition, and its header cannot be read. -/
  | condition {index : Nat} {header : List Char}
    (found : all[index]? = some ⟨header, some .conditional⟩)
    (malformed : Header.conditionPath? header = none) :
    Truthful strays all (.parse ⟨index + 1, .malformedCondition (Header.quoted header)⟩)
  /-- The line is a loop, and its header cannot be read. -/
  | loop {index : Nat} {header : List Char} (found : all[index]? = some ⟨header, some .loop⟩)
    (malformed : Header.loop? header = none) :
    Truthful strays all (.parse ⟨index + 1, .malformedLoop (Header.quoted header)⟩)
  /-- The line is a loop over this container, which was not found or is no collection. -/
  | container {index : Nat} {header : List Char} {loop : Header.Loop} {kind? : Option Kind}
    (found : all[index]? = some ⟨header, some .loop⟩) (reads : Header.loop? header = some loop)
    (other : ∀ kind, kind? = some kind → kind ≠ .list ∧ kind ≠ .array ∧ kind ≠ .null) :
    Truthful strays all (.notIterable (index + 1) loop.container kind?)
  /-- The line is an `#else` or an `#end`, and stray directives are refused. -/
  | stray {index : Nat} {text : List Char} {directive : Directive}
    (found : all[index]? = some ⟨text, some directive⟩)
    (closes : directive = .otherwise ∨ directive = .close) (refused : strays = .reject) :
    Truthful strays all (.parse ⟨index + 1, .strayDirective directive.keyword⟩)
  /-- Behind the last line a block is open. -/
  | unclosed {expected : String} (opened : 0 < openCount all)
    (closers : expected = "#end" ∨ expected = "#else, #end") :
    Truthful strays all (.parse ⟨all.length, .unexpectedEnd expected⟩)

namespace Failure.Truthful

variable {strays : Strays} {all : List Line}

/-- A truthful failure names one of the lines. -/
theorem exists_line (truthful : failure.Truthful strays all) :
    ∃ line, failure.line? = some line ∧ 1 ≤ line ∧ line ≤ all.length := by
  have among {index : Nat} {line : Line} (found : all[index]? = some line) :
      1 ≤ index + 1 ∧ index + 1 ≤ all.length :=
    ⟨Nat.succ_pos index, (List.getElem?_eq_some_iff.mp found).1⟩
  cases truthful with
  | condition found => exact ⟨_, rfl, among found⟩
  | loop found => exact ⟨_, rfl, among found⟩
  | container found => exact ⟨_, rfl, among found⟩
  | stray found => exact ⟨_, rfl, among found⟩
  | unclosed opened =>
    -- no block is open in an empty text
    have some : all ≠ [] := by
      rintro rfl
      exact Nat.lt_irrefl 0 opened
    exact ⟨_, rfl, List.length_pos_iff.mpr some, Nat.le_refl _⟩

end Failure.Truthful

/-- What is found and has no items is neither a collection nor `null`. -/
theorem Environment.kind_of_no_items {provider : Provider} {path : String}
    (missing : (env.lookup provider path).bind Value.items? = none) {kind : Kind}
    (found : (env.lookup provider path).map Value.kind = some kind) :
    kind ≠ .list ∧ kind ≠ .array ∧ kind ≠ .null := by
  obtain ⟨v, answers, rfl⟩ := Option.map_eq_some_iff.mp found
  rw [answers, Option.bind_some] at missing
  have notNull : v ≠ .null := Scopes.lookup_ne_null answers
  cases v with
  | null => exact (notNull rfl).elim
  | list items => exact nomatch missing
  | array items => exact nomatch missing
  | _ => simp [Value.kind]

/-! ## Failures of nodes -/

namespace Node

open Render (branch_ne_whole body_ne_whole)

variable {all : List Line}

/-- A text that ends inside a block says so on its last line. -/
theorem ending_truthful {extent : Extent} (inner : extent ≠ .whole)
    {closing : Option (List Char)} {rest : List Line}
    (place : Cursor.Among all ⟨lastLine + 1, closingLines closing ++ rest⟩)
    (final : closing = none → rest = []) (opened : closing = none → 0 < openCount all)
    (fails : (ending extent closing lastLine).failure = some failure) :
    failure.Truthful setting.strays all := by
  obtain ⟨rfl, rfl⟩ := fails_of_ending fails
  obtain rfl := final rfl
  obtain rfl : lastLine = all.length := Nat.succ.inj place.line_eq
  cases extent with
  | whole => exact (inner rfl).elim
  | branch => exact .unclosed (opened rfl) (.inr (by decide +kernel))
  | body => exact .unclosed (opened rfl) (.inl (by decide +kernel))

mutual

/-- **A node fails with the truth** about the lines that it stands among. -/
theorem eval_truthful (node : Node) {extent : Extent} {last : Prop} (fits : node.Fits extent last)
    {line : Nat} {rest : List Line} (place : Cursor.Among all ⟨line, node.lines ++ rest⟩)
    (final : last → rest = []) (opened : last → 0 < openCount all) {env : Environment}
    (fails : (node.eval setting line env).failure = some failure) :
    failure.Truthful setting.strays all := by
  match node with
  | .plain text =>
    rw [eval] at fails
    exact nomatch fails
  | .stray directive text =>
    rw [lines] at place
    obtain ⟨index, rfl, found⟩ := place.getElem?_eq
    rw [eval] at fails
    cases strays : setting.strays with
    | skip =>
      rw [strays] at fails
      exact nomatch fails
    | reject =>
      rw [strays] at fails
      obtain rfl := Option.some.inj fails
      exact .stray found fits.1 rfl
  | .condition header yes closing =>
    obtain ⟨ends, fitsYes⟩ := fits
    have final' : closing = none → rest = [] := fun missing => final (ends missing)
    have opened' : closing = none → 0 < openCount all := fun missing => opened (ends missing)
    rw [lines, List.cons_append, List.append_assoc] at place
    rw [eval] at fails
    rcases fails_of_decided fails with ⟨malformed, rfl⟩ | ⟨holds, part⟩
    · obtain ⟨index, rfl, found⟩ := place.getElem?_eq
      exact .condition found malformed
    · rcases Report.fails_of_andThen part with inside | ended
      · cases holds with
        | true =>
          exact evalAll_truthful yes fitsYes place.tail (closingLines_append_eq_nil final') opened'
            inside
        | false => exact nomatch inside
      · refine ending_truthful branch_ne_whole ?_ final' opened' ended
        rw [Nat.add_right_comm]
        exact place.tail.behind
  | .choice header yes middle no closing =>
    obtain ⟨ends, fitsYes, fitsNo⟩ := fits
    have final' : closing = none → rest = [] := fun missing => final (ends missing)
    have opened' : closing = none → 0 < openCount all := fun missing => opened (ends missing)
    rw [lines, List.cons_append, List.append_assoc, List.cons_append, List.append_assoc] at place
    rw [eval] at fails
    rcases fails_of_decided fails with ⟨malformed, rfl⟩ | ⟨holds, part⟩
    · obtain ⟨index, rfl, found⟩ := place.getElem?_eq
      exact .condition found malformed
    · have second := place.tail.behind.tail
      rcases Report.fails_of_andThen part with inside | ended
      · cases holds with
        | true => exact evalAll_truthful yes fitsYes place.tail False.elim False.elim inside
        | false =>
          exact evalAll_truthful no fitsNo second (closingLines_append_eq_nil final') opened'
            inside
      · refine ending_truthful body_ne_whole ?_ final' opened' ended
        rw [Nat.add_right_comm]
        exact second.behind
  | .loop header body closing =>
    obtain ⟨ends, fitsBody⟩ := fits
    have final' : closing = none → rest = [] := fun missing => final (ends missing)
    have opened' : closing = none → 0 < openCount all := fun missing => opened (ends missing)
    rw [lines, List.cons_append, List.append_assoc] at place
    have behind : Cursor.Among all
        ⟨line + (linesOf body).length + 1, closingLines closing ++ rest⟩ := by
      rw [Nat.add_right_comm]
      exact place.tail.behind
    rw [eval] at fails
    rcases fails_of_looped fails with
      ⟨malformed, rfl⟩ | ⟨found, reads, missing, rfl⟩ | ended | ⟨inner, pass⟩
    · obtain ⟨index, rfl, found⟩ := place.getElem?_eq
      exact .loop found malformed
    · obtain ⟨index, rfl, stands⟩ := place.getElem?_eq
      exact .container stands reads fun kind => Environment.kind_of_no_items missing
    · exact ending_truthful body_ne_whole behind final' opened' ended
    · rcases Report.fails_of_andThen pass with inside | ended
      · exact evalAll_truthful body fitsBody place.tail (closingLines_append_eq_nil final') opened'
          inside
      · exact ending_truthful body_ne_whole behind final' opened' ended

/-- **Nodes fail with the truth**, as one does. -/
theorem evalAll_truthful (nodes : List Node) {extent : Extent} {last : Prop}
    (fits : FitAll nodes extent last) {line : Nat} {rest : List Line}
    (place : Cursor.Among all ⟨line, linesOf nodes ++ rest⟩) (final : last → rest = [])
    (opened : last → 0 < openCount all) {env : Environment}
    (fails : (evalAll setting nodes line env).failure = some failure) :
    failure.Truthful setting.strays all := by
  match nodes with
  | [] =>
    rw [evalAll_nil] at fails
    exact nomatch fails
  | node :: nodes =>
    rw [fitAll_cons] at fits
    rw [linesOf_cons, List.append_assoc] at place
    rw [evalAll_cons] at fails
    rcases Report.fails_of_andThen fails with first | later
    · exact eval_truthful node fits.1 place (linesOf_append_eq_nil final)
        (fun ends => opened ends.1) first
    · exact evalAll_truthful nodes fits.2 place.behind final opened later

end

end Node

/-! ## Failures of renders -/

namespace Failure.Truthful

variable {strays : Strays} {all : List Line}

/-- A truthful report of the end of the input tells of an open block. -/
theorem opened_of_unexpectedEnd {expected : String}
    (truthful : Truthful strays all (.parse ⟨line, .unexpectedEnd expected⟩)) :
    0 < openCount all := by
  cases truthful with
  | unclosed opened => exact opened

end Failure.Truthful

namespace Template

variable {template : Template} {provider : Provider} {config : Config}

/-- A render fails with the truth about its lines. -/
theorem truthful_of_fails (fails : template.render provider config = .error failure) :
    failure.Truthful config.strays template.lines := by
  rw [render_of_report (Render.report_run ⟨provider, config.strays⟩ template.lines)] at fails
  have place : Cursor.Among template.lines ⟨1, Node.linesOf (treeOf template.lines) ++ []⟩ := by
    rw [List.append_nil, linesOf_treeOf]
    exact Cursor.among_start template.lines
  exact Node.evalAll_truthful (treeOf template.lines) (fits_treeOf_open template.lines) place
    (fun _ => rfl) id (Report.fails_of_result fails)

/-- A render that succeeds leaves no block open. -/
theorem openCount_of_renders {text : String}
    (renders : template.render provider config = .ok text) : openCount template.lines = 0 := by
  rw [render_of_report (Render.report_run ⟨provider, config.strays⟩ template.lines)] at renders
  have succeeds := Report.failure_of_result renders
  exact closed_treeOf_iff.mp ((fits_treeOf template.lines).closed_of_succeeds succeeds)

/-- **Every failure of a render is truthful.** It names a line of the template, and it is one of the
failures that lines have: the registry and the models have no part in it. -/
theorem render_failure_truthful (fails : template.render provider config = .error failure) :
    failure.Truthful config.strays template.lines ∧
      (∃ line, failure.line? = some line ∧ 1 ≤ line ∧ line ≤ template.lines.length) ∧
      ∀ text, failure ≠ .templateExists text ∧ failure ≠ .missingTemplate text ∧
        failure ≠ .serialization text := by
  have truthful := truthful_of_fails fails
  obtain ⟨line, named, bounds⟩ := truthful.exists_line
  refine ⟨truthful, ⟨line, named, bounds⟩, fun text => ⟨?_, ?_, ?_⟩⟩
  all_goals
    rintro rfl
    exact nomatch named

/-- The second item of a loop is a character, which no loop goes through. -/
theorem render_failure_truthful_nested :
    (ofText "#foreach ($i in $n)\n#foreach ($j in $i)\n#end\n#end").render
        (Table.provider (.ofEntries [("n", .list [.list [], .char 'c'])])) .standard =
      .error (.notIterable 2 "i" (some .char)) ∧
    Failure.Truthful .skip (ofText "#foreach ($i in $n)\n#foreach ($j in $i)\n#end\n#end").lines
      (.notIterable 2 "i" (some .char)) := by
  have fails : (ofText "#foreach ($i in $n)\n#foreach ($j in $i)\n#end\n#end").render
      (Table.provider (.ofEntries [("n", .list [.list [], .char 'c'])])) .standard =
      .error (.notIterable 2 "i" (some .char)) := by decide +kernel
  exact ⟨fails, (render_failure_truthful fails).1⟩

/-- A render that fails has come to a line that stops it, or to the end of the input. -/
theorem exists_interrupts (fails : template.render provider config = .error failure) :
    failure.EndsEarly ∨ ∃ m, Render.Visited ⟨provider, config.strays⟩ template.lines m ∧
      Render.Interrupts ⟨provider, config.strays⟩ m failure := by
  rw [render_of_report rfl] at fails
  exact Render.failure_run (Report.fails_of_result fails)

/-- **The end of the input is reported exactly for unclosed templates.** A render that succeeds
leaves no block open, and one that reports the end of the input leaves one open. So when no line
that the render comes to stops it, it succeeds if every block is closed, and reports the end of the
input if not. -/
theorem render_end_iff_open (template : Template) (provider : Provider) (config : Config) :
    (∀ text, template.render provider config = .ok text → openCount template.lines = 0) ∧
    (∀ line expected,
      template.render provider config = .error (.parse ⟨line, .unexpectedEnd expected⟩) →
      0 < openCount template.lines) ∧
    ((∀ m failure, Render.Visited ⟨provider, config.strays⟩ template.lines m →
        Render.Interrupts ⟨provider, config.strays⟩ m failure →
        template.render provider config ≠ .error failure) →
      ((∃ text, template.render provider config = .ok text) ↔ openCount template.lines = 0) ∧
      ((∃ line expected,
        template.render provider config = .error (.parse ⟨line, .unexpectedEnd expected⟩)) ↔
          0 < openCount template.lines)) := by
  have unclosed (line : Nat) (expected : String)
      (fails : template.render provider config =
        .error (.parse ⟨line, .unexpectedEnd expected⟩)) : 0 < openCount template.lines :=
    (truthful_of_fails fails).opened_of_unexpectedEnd
  refine ⟨fun text => openCount_of_renders, unclosed, fun goesOn => ?_⟩
  cases result : template.render provider config with
  | ok text =>
    have closed := openCount_of_renders result
    simp [closed]
  | error failure =>
    rcases exists_interrupts result with ⟨line, expected, rfl⟩ | ⟨m, visited, interrupts⟩
    · have opened := unclosed line expected result
      simp [opened, Nat.ne_of_gt opened]
    · exact (goesOn m failure visited interrupts result).elim

/-- The first text has two blocks that are not closed, in a part that is passed over. In the second
one they are closed, and an `#end` too many does no harm. -/
theorem render_end_iff_open_skipped :
    0 < openCount (ofText "#if ($f)\n#foreach ($i in $n)\n#else\n").lines ∧
    (¬ ∃ text, (ofText "#if ($f)\n#foreach ($i in $n)\n#else\n").render (Table.provider .empty)
      .standard = .ok text) ∧
    openCount (ofText "#if ($f)\n#foreach ($i in $n)\n#end\n#end\n#end").lines = 0 := by
  obtain ⟨-, unclosed, exactly⟩ := render_end_iff_open
    (ofText "#if ($f)\n#foreach ($i in $n)\n#else\n") (Table.provider .empty) .standard
  obtain ⟨closed, -, -⟩ := render_end_iff_open
    (ofText "#if ($f)\n#foreach ($i in $n)\n#end\n#end\n#end") (Table.provider .empty) .standard
  have fails : (ofText "#if ($f)\n#foreach ($i in $n)\n#else\n").render (Table.provider .empty)
      .standard = .error (.parse ⟨3, .unexpectedEnd "#else, #end"⟩) := by decide +kernel
  have opened := unclosed _ _ fails
  refine ⟨opened, ?_, closed "" (by decide +kernel)⟩
  rw [(exactly ?_).1]
  · exact Nat.ne_of_gt opened
  · intro m failure _ interrupts result
    rw [fails] at result
    obtain rfl := Except.error.inj result
    exact interrupts.not_endsEarly ⟨_, _, rfl⟩

end Template

end LineTemplate
