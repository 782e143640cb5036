import LineTemplate.Proofs.Passing

/-!
# Rendering follows the block tree

A render reads lines with one cursor, which loops put back and which searches move ahead. It reports
what the evaluation of the block tree reports, line for line and failure for failure.

The simulation goes by recursion on the tree. `RendersAll` says what is kept: wherever nodes stand
in front of other lines, rendering them reports what their evaluation does and leads behind them
with the scopes it started from; what the lines behind them report comes after it. The bound on the
lines ahead only has to be large enough.
-/

namespace LineTemplate

open Node (linesOf closingLines FitAll)

namespace Render

variable {setting : Setting} {extent : Extent} {ahead line lastLine : Nat} {rest : List Line}
  {scopes : Scopes} {env : Environment} {t : State} {report : Report}
  {closing : Option (List Char)}

/-! ## One line -/

/-- What is done at a line that does not end the extent. -/
def handle (setting : Setting) (block : Extent → Step) (line : Line) : Step :=
  match line.directive with
  | none => plain setting line.text
  | some .conditional => conditional setting block line.text
  | some .loop => loop setting block line.text
  | some .otherwise => stray setting .otherwise
  | some .close => stray setting .close

/-- A line that does not end the extent is handled, and the run goes on behind it. -/
theorem lines_goes {first : Line}
    (goes : ∀ directive, first.directive = some directive → directive ∉ extent.closers) :
    lines setting (ahead + 1) extent ⟨⟨line, first :: rest⟩, scopes⟩ =
      ((handle setting (block setting ahead) first).andThen (lines setting ahead extent))
        ⟨⟨line, first :: rest⟩, scopes⟩ := by
  obtain ⟨text, directive⟩ := first
  cases directive with
  | none => rfl
  | some directive =>
    have stays := goes directive rfl
    cases directive <;> simp only [lines, stays, if_false] <;> rfl

/-- A directive that ends the extent stops the run in front of it. -/
theorem lines_ends (text : List Char) {directive : Directive} (ends : directive ∈ extent.closers)
    (bound : 0 < ahead) :
    Performs (lines setting ahead extent) ⟨⟨line, ⟨text, some directive⟩ :: rest⟩, scopes⟩
      .nothing ⟨⟨line, ⟨text, some directive⟩ :: rest⟩, scopes⟩ := by
  cases ahead with
  | zero => exact (Nat.lt_irrefl 0 bound).elim
  | succ ahead => exact Performs.done.congr (by simp only [lines, ends, if_true])

theorem lines_nil : lines setting ahead extent ⟨⟨line, []⟩, scopes⟩ =
    Step.atEnd extent ⟨⟨line, []⟩, scopes⟩ := by
  cases ahead <;> rfl

/-- **What a run of lines does first**: at the end of the input it ends, in front of a directive
that ends the extent it stops, and any other line it handles before it goes on. -/
theorem lines_cases (ahead : Nat) (extent : Extent) (s : State) :
    (s.cursor.rest = [] ∧
      ∀ setting, lines setting (ahead + 1) extent s = Step.atEnd extent s) ∨
    (∃ first rest directive, s.cursor.rest = first :: rest ∧ first.directive = some directive ∧
      directive ∈ extent.closers ∧
      ∀ setting, lines setting (ahead + 1) extent s = Step.done s) ∨
    ∃ first rest, s.cursor.rest = first :: rest ∧
      (∀ directive, first.directive = some directive → directive ∉ extent.closers) ∧
      ∀ setting, lines setting (ahead + 1) extent s =
        ((handle setting (block setting ahead) first).andThen (lines setting ahead extent)) s := by
  obtain ⟨⟨line, rest⟩, scopes⟩ := s
  cases rest with
  | nil => exact .inl ⟨rfl, fun _ => lines_nil⟩
  | cons first rest =>
    by_cases ends : ∃ directive, first.directive = some directive ∧ directive ∈ extent.closers
    · obtain ⟨directive, found, ends⟩ := ends
      refine .inr (.inl ⟨first, rest, directive, rfl, found, ends, fun setting => ?_⟩)
      simp only [lines, found, ends, if_true]
    · have goes (directive : Directive) (found : first.directive = some directive) :
          directive ∉ extent.closers := by
        intro closes
        exact ends ⟨directive, found, closes⟩
      exact .inr (.inr ⟨first, rest, rfl, goes, fun _ => lines_goes goes⟩)

/-- The run stops in front of the closing directive of its block, or fails at the end of the
input. -/
theorem lines_closing (inner : extent ≠ .whole) (final : closing = none → rest = [])
    (count : lastLine + 1 = line) (bound : (closingLines closing ++ rest).length ≤ ahead) :
    Performs (lines setting ahead extent) ⟨⟨line, closingLines closing ++ rest⟩, scopes⟩
      (Node.ending extent closing lastLine) ⟨⟨line, closingLines closing ++ rest⟩, scopes⟩ := by
  cases closing with
  | none =>
    obtain rfl := final rfl
    obtain rfl := count
    exact (atEnd_performs inner).congr lines_nil
  | some text =>
    exact lines_ends text (close_mem_closers inner) (Nat.lt_of_lt_of_le (Nat.succ_pos _) bound)

/-! ## Nodes in front of other lines -/

/-- Rendering the nodes in front of any lines reports what their evaluation does, and then what
those lines report. -/
def RendersAll (setting : Setting) (nodes : List Node) (extent : Extent) (last : Prop) : Prop :=
  ∀ {ahead line : Nat} {rest : List Line} {scopes : Scopes} {env : Environment} {report : Report}
    {t : State},
    scopes.Binds env → (last → rest = []) → (linesOf nodes ++ rest).length ≤ ahead →
    (∀ ahead', rest.length ≤ ahead' → Performs (lines setting ahead' extent)
      ⟨⟨line + (linesOf nodes).length, rest⟩, scopes⟩ report t) →
    Performs (lines setting ahead extent) ⟨⟨line, linesOf nodes ++ rest⟩, scopes⟩
      ((Node.evalAll setting nodes line env).andThen report) t

/-- A block up to its own closing directive. -/
theorem block_part {nodes : List Node}
    (renders : RendersAll setting nodes extent (closing = none)) (inner : extent ≠ .whole)
    (binds : scopes.Binds env) (final : closing = none → rest = [])
    (bound : (linesOf nodes ++ (closingLines closing ++ rest)).length ≤ ahead)
    (count : lastLine + 1 = line + (linesOf nodes).length) :
    Performs (block setting ahead extent)
      ⟨⟨line, linesOf nodes ++ (closingLines closing ++ rest)⟩, scopes⟩
      ((Node.evalAll setting nodes line env).andThen (Node.ending extent closing lastLine))
      ⟨⟨line + (linesOf nodes).length, closingLines closing ++ rest⟩, scopes⟩ := by
  have ends := Node.closingLines_append_eq_nil final
  exact Performs.inScope (renders binds.push ends bound fun ahead' bound' =>
    lines_closing inner final count bound') (Scopes.pop_push scopes)

/-- The first part of a condition up to its `#else`. -/
theorem block_to_middle {yes : List Node} (renders : RendersAll setting yes .branch False)
    (binds : scopes.Binds env) (middle : List Char)
    (bound : (linesOf yes ++ ⟨middle, some .otherwise⟩ :: rest).length ≤ ahead) :
    Performs (block setting ahead .branch)
      ⟨⟨line, linesOf yes ++ ⟨middle, some .otherwise⟩ :: rest⟩, scopes⟩
      (Node.evalAll setting yes line env)
      ⟨⟨line + (linesOf yes).length, ⟨middle, some .otherwise⟩ :: rest⟩, scopes⟩ := by
  have stops (ahead' : Nat) (bound' : (⟨middle, some .otherwise⟩ :: rest).length ≤ ahead') :
      Performs (lines setting ahead' .branch)
        ⟨⟨line + (linesOf yes).length, ⟨middle, some .otherwise⟩ :: rest⟩, scopes.push⟩ .nothing
        ⟨⟨line + (linesOf yes).length, ⟨middle, some .otherwise⟩ :: rest⟩, scopes.push⟩ :=
    lines_ends middle (by decide) (Nat.lt_of_lt_of_le (Nat.succ_pos _) bound')
  have inner := renders binds.push False.elim bound stops
  rw [Report.andThen_nothing] at inner
  exact Performs.inScope inner (Scopes.pop_push scopes)

/-- A block without a closing directive fails. -/
theorem ending_fails {extent : Extent} (report : Report) (lastLine : Nat) :
    (report.andThen (Node.ending extent none lastLine)).failure ≠ none := by
  rw [Ne, Report.andThen_failure_eq_none]
  rintro ⟨-, ended⟩
  exact nomatch ended

/-- The step over the closing directive of a block; a block without one has failed before. -/
theorem Performs.over_closing {step : Step} {s : State}
    (performs : Performs step s report ⟨⟨line, closingLines closing ++ rest⟩, scopes⟩)
    (fails : closing = none → report.failure ≠ none) :
    Performs (step.andThen (.forward 1)) s report
      ⟨⟨line + (closingLines closing).length, rest⟩, scopes⟩ := by
  refine performs.then_silently fun succeeds => ?_
  cases closing with
  | none => exact (fails rfl succeeds).elim
  | some text => exact Performs.forward_one ⟨text, some .close⟩ rest

/-! ## Conditions -/

/-- The branch that a condition takes. -/
def branch (block : Extent → Step) (holds : Bool) : Step :=
  if holds then (block .branch).andThen (.atOtherwise (.skip .body))
  else (Step.skip .branch).andThen (.atOtherwise ((Step.forward 1).andThen (block .body)))

/-- A condition performs the branch that its path decides on. -/
theorem conditional_performs {block : Extent → Step} {header : List Char}
    {part : Bool → Report} {rest' : List Line} (binds : scopes.Binds env)
    (branches : ∀ holds, Performs (branch block holds) ⟨⟨line + 1, rest⟩, scopes⟩ (part holds)
      ⟨⟨lastLine, closingLines closing ++ rest'⟩, scopes⟩)
    (fails : closing = none → ∀ holds, (part holds).failure ≠ none) :
    Performs (conditional setting block header)
      ⟨⟨line, ⟨header, some .conditional⟩ :: rest⟩, scopes⟩
      (Node.decided setting header line env part)
      ⟨⟨lastLine + (closingLines closing).length, rest'⟩, scopes⟩ := by
  unfold Node.decided
  cases hpath : Header.conditionPath? header with
  | none => exact (Performs.fail _).congr (by simp only [conditional, hpath])
  | some path =>
    have decides : ((scopes.lookup setting.provider path).map Value.isTrue).getD false =
        env.holds setting.provider path := by
      rw [binds.lookup_eq, Environment.holds]
      cases env.lookup setting.provider path <;> rfl
    have taken := (branches (env.holds setting.provider path)).over_closing
      fun h => fails h _
    have whole := (Performs.write [.event (.condition line path
      (env.holds setting.provider path))]).andThen fun _ =>
        (Performs.forward_one ⟨header, some .conditional⟩ rest).silently taken
    refine whole.congr ?_
    simp only [conditional, hpath, decides]
    rfl

/-- An `#else` that ends the first part leads on to the second one. -/
theorem atOtherwise_middle {step : Step} (middle : List Char)
    (performs : Performs step ⟨⟨line, ⟨middle, some .otherwise⟩ :: rest⟩, scopes⟩ report t) :
    Performs (.atOtherwise step) ⟨⟨line, ⟨middle, some .otherwise⟩ :: rest⟩, scopes⟩ report t :=
  performs.congr rfl

/-- A closing directive ends the condition with its first part. -/
theorem atOtherwise_closing {step : Step} (final : closing = none → rest = []) :
    Performs (.atOtherwise step) ⟨⟨line, closingLines closing ++ rest⟩, scopes⟩ .nothing
      ⟨⟨line, closingLines closing ++ rest⟩, scopes⟩ := by
  cases closing with
  | none =>
    obtain rfl := final rfl
    exact Performs.done.congr rfl
  | some text => exact Performs.done.congr rfl

/-- A condition with one part. -/
theorem condition_performs {header : List Char} {yes : List Node}
    (fits : FitAll yes .branch (closing = none))
    (renders : RendersAll setting yes .branch (closing = none)) (binds : scopes.Binds env)
    (final : closing = none → rest = [])
    (bound : (linesOf yes ++ (closingLines closing ++ rest)).length ≤ ahead) :
    Performs (conditional setting (block setting ahead) header)
      ⟨⟨line, ⟨header, some .conditional⟩ :: (linesOf yes ++ (closingLines closing ++ rest))⟩,
        scopes⟩
      (Node.eval setting (.condition header yes closing) line env)
      ⟨⟨line + 1 + (linesOf yes).length + (closingLines closing).length, rest⟩, scopes⟩ := by
  have count : line + (linesOf yes).length + 1 = line + 1 + (linesOf yes).length := by omega
  rw [Node.eval]
  refine conditional_performs binds (fun holds => ?_) fun h holds => h ▸ ending_fails _ _
  cases holds with
  | true =>
    exact (block_part renders branch_ne_whole binds final bound count).then_silently fun _ =>
      atOtherwise_closing final
  | false =>
    exact (skip_part fits branch_ne_whole final count).then_silently fun _ =>
      atOtherwise_closing final

/-- A condition with two parts. -/
theorem choice_performs {header middle : List Char} {yes no : List Node}
    (fitsYes : FitAll yes .branch False) (rendersYes : RendersAll setting yes .branch False)
    (fitsNo : FitAll no .body (closing = none))
    (rendersNo : RendersAll setting no .body (closing = none)) (binds : scopes.Binds env)
    (final : closing = none → rest = [])
    (bound : (linesOf yes ++ ⟨middle, some .otherwise⟩ ::
      (linesOf no ++ (closingLines closing ++ rest))).length ≤ ahead) :
    Performs (conditional setting (block setting ahead) header)
      ⟨⟨line, ⟨header, some .conditional⟩ :: (linesOf yes ++ ⟨middle, some .otherwise⟩ ::
        (linesOf no ++ (closingLines closing ++ rest)))⟩, scopes⟩
      (Node.eval setting (.choice header yes middle no closing) line env)
      ⟨⟨line + 1 + (linesOf yes).length + 1 + (linesOf no).length +
        (closingLines closing).length, rest⟩, scopes⟩ := by
  have boundNo : (linesOf no ++ (closingLines closing ++ rest)).length ≤ ahead := by
    rw [List.length_append, List.length_cons] at bound
    omega
  rw [Node.eval]
  refine conditional_performs binds (fun holds => ?_) fun h holds => h ▸ ending_fails _ _
  cases holds with
  | true =>
    exact (block_to_middle rendersYes binds middle bound).andThen fun _ =>
      atOtherwise_middle middle (skip_from_middle fitsNo middle final rfl)
  | false =>
    refine (skip_to_middle fitsYes middle).silently (atOtherwise_middle middle ?_)
    exact (Performs.forward_one _ _).silently
      (block_part rendersNo body_ne_whole binds final boundNo (by omega))

/-! ## Loops -/

/-- The scope of a loop over `name`, before its first pass or after one. -/
def LoopScope (name : String) (scope : Dict Value) : Prop :=
  scope = .empty ∨ ∃ value, scope = .single name value

/-- Each pass binds the one name of the loop scope again. -/
theorem LoopScope.insert {name : String} {scope : Dict Value} (loopScope : LoopScope name scope)
    (value : Value) : scope.insert name value = .single name value := by
  rcases loopScope with rfl | ⟨before, rfl⟩
  · rfl
  · exact Dict.insert_insert name before value .empty

/-- The passes of a loop, each from the first line of the body. -/
theorem each_performs {body : List Node} {name : String} {inner : List (Dict Value)}
    {scope : Dict Value} (renders : RendersAll setting body .body (closing = none))
    (binds : Scopes.Binds ⟨inner⟩ env) (final : closing = none → rest = [])
    (bound : (linesOf body ++ (closingLines closing ++ rest)).length ≤ ahead)
    (count : lastLine + 1 = line + (linesOf body).length) (loopScope : LoopScope name scope)
    (cursor : Cursor) (item : Value) (items : List Value) :
    ∃ value, Performs
      (each (block setting ahead) name ⟨line, linesOf body ++ (closingLines closing ++ rest)⟩
        (item :: items))
      ⟨cursor, ⟨scope :: inner⟩⟩
      (Report.forEach (fun item =>
        (Node.evalAll setting body line ((name, loopItem item) :: env)).andThen
          (Node.ending .body closing lastLine)) (item :: items))
      ⟨⟨line + (linesOf body).length, closingLines closing ++ rest⟩,
        ⟨.single name value :: inner⟩⟩ := by
  induction items generalizing item cursor scope with
  | nil =>
    have pass :=
      block_part renders body_ne_whole (binds.loop name (loopItem item)) final bound count
    refine ⟨loopItem item, ?_⟩
    rw [Report.forEach, Report.forEach, Report.andThen_nothing]
    rw [← loopScope.insert (loopItem item)] at pass ⊢
    exact (Performs.bind name (loopItem item)).silently
      ((Performs.moveTo _).silently (pass.then_silently fun _ => .done))
  | cons next items ih =>
    have pass :=
      block_part renders body_ne_whole (binds.loop name (loopItem item)) final bound count
    have bound' : LoopScope name (.single name (loopItem item)) := .inr ⟨loopItem item, rfl⟩
    obtain ⟨value, others⟩ := ih bound'
      ⟨line + (linesOf body).length, closingLines closing ++ rest⟩ next
    refine ⟨value, ?_⟩
    rw [Report.forEach]
    refine (Performs.bind name (loopItem item)).silently ((Performs.moveTo _).silently ?_)
    show Performs _ ⟨_, ⟨scope.insert name (loopItem item) :: inner⟩⟩ _ _
    rw [loopScope.insert]
    exact pass.andThen fun _ => others

/-- A loop. -/
theorem loop_performs {header : List Char} {body : List Node}
    (fits : FitAll body .body (closing = none))
    (renders : RendersAll setting body .body (closing = none)) (binds : scopes.Binds env)
    (final : closing = none → rest = [])
    (bound : (linesOf body ++ (closingLines closing ++ rest)).length ≤ ahead) :
    Performs (loop setting (block setting ahead) header)
      ⟨⟨line, ⟨header, some .loop⟩ :: (linesOf body ++ (closingLines closing ++ rest))⟩, scopes⟩
      (Node.eval setting (.loop header body closing) line env)
      ⟨⟨line + 1 + (linesOf body).length + (closingLines closing).length, rest⟩, scopes⟩ := by
  have count : line + (linesOf body).length + 1 = line + 1 + (linesOf body).length := by omega
  rw [Node.eval]
  unfold Node.looped
  cases hheader : Header.loop? header with
  | none => exact (Performs.fail _).congr (by simp only [loop, hheader])
  | some found =>
    simp only [← binds.lookup_eq]
    cases hitems : (scopes.lookup setting.provider found.container).bind Value.items? with
    | none => exact (Performs.fail _).congr (by simp only [loop, hheader, hitems])
    | some items =>
      -- what happens between the header and the closing directive, in the scope of the loop
      have passes : ∃ scopes', scopes'.pop = scopes ∧ Performs
          (if items.isEmpty then .skip .body else
            each (block setting ahead) found.item
              ⟨line + 1, linesOf body ++ (closingLines closing ++ rest)⟩ items)
          ⟨⟨line + 1, linesOf body ++ (closingLines closing ++ rest)⟩, scopes.push⟩
          (if items.isEmpty then Node.ending .body closing (line + (linesOf body).length) else
            .forEach (fun item => (Node.evalAll setting body (line + 1)
              ((found.item, loopItem item) :: env)).andThen
                (Node.ending .body closing (line + (linesOf body).length))) items)
          ⟨⟨line + 1 + (linesOf body).length, closingLines closing ++ rest⟩, scopes'⟩ := by
        cases items with
        | nil => exact ⟨scopes.push, rfl, skip_part fits body_ne_whole final count⟩
        | cons item items =>
          obtain ⟨value, performs⟩ := each_performs renders binds final bound count (.inl rfl)
            ⟨line + 1, linesOf body ++ (closingLines closing ++ rest)⟩ item items
          exact ⟨_, rfl, performs⟩
      obtain ⟨scopes', popped, passes⟩ := passes
      have inScope := (Performs.inScope (t := ⟨_, scopes⟩) passes popped).over_closing fun h => by
        subst h
        cases items with
        | nil => exact ending_fails .nothing _
        | cons item items =>
          rw [List.isEmpty_cons, if_neg Bool.false_ne_true, Report.forEach, Ne,
            Report.andThen_failure_eq_none]
          intro h
          exact ending_fails _ _ h.1
      have whole := (Performs.write [.event (.loop line found.item found.container
        items.length)]).andThen fun _ =>
          (Performs.forward_one ⟨header, some .loop⟩ _).silently inScope
      refine whole.congr ?_
      simp only [loop, hheader, hitems]
      rfl

/-! ## The simulation -/

theorem plain_performs (text : List Char) (binds : scopes.Binds env) :
    Performs (plain setting text) ⟨⟨line, ⟨text, none⟩ :: rest⟩, scopes⟩
      (Node.eval setting (.plain text) line env) ⟨⟨line + 1, rest⟩, scopes⟩ := by
  have same := binds.lookup_eq setting.provider
  rw [Node.eval, ← Scopes.format_congr same, ← Scopes.unresolved_congr same]
  exact ((Performs.write _).then_silently fun _ => .forward_one _ _).congr rfl

theorem stray_performs (directive : Directive) (text : List Char) :
    Performs (stray setting directive) ⟨⟨line, ⟨text, some directive⟩ :: rest⟩, scopes⟩
      (Node.eval setting (.stray directive text) line env) ⟨⟨line + 1, rest⟩, scopes⟩ := by
  rw [Node.eval]
  cases hstrays : setting.strays with
  | skip =>
    refine ((Performs.write _).then_silently fun _ => .forward_one _ _).congr ?_
    simp only [stray, hstrays]
  | reject => exact (Performs.fail _).congr (by simp only [stray, hstrays])

/-- The first line of a node does not end the level that the node stands at. -/
theorem head_goes {node : Node} {last : Prop} (fits : node.Fits extent last)
    (directive : Directive) (found : node.head.directive = some directive) :
    directive ∉ extent.closers := by
  cases node with
  | plain text => exact nomatch found
  | stray stray text => exact Option.some.inj found ▸ fits.2
  | condition header yes closing =>
    exact Option.some.inj found ▸ conditional_not_mem_closers extent
  | choice header yes middle no closing =>
    exact Option.some.inj found ▸ conditional_not_mem_closers extent
  | loop header body closing => exact Option.some.inj found ▸ loop_not_mem_closers extent

theorem lines_node {node : Node} {last : Prop} (fits : node.Fits extent last) :
    lines setting (ahead + 1) extent ⟨⟨line, node.lines ++ rest⟩, scopes⟩ =
      ((handle setting (block setting ahead) node.head).andThen (lines setting ahead extent))
        ⟨⟨line, node.lines ++ rest⟩, scopes⟩ := by
  obtain ⟨behind, begins⟩ := node.exists_lines_eq_head_cons
  rw [begins, List.cons_append]
  exact lines_goes (head_goes fits)

mutual

/-- **The line of a node is handled as the node is evaluated.** -/
theorem handle_performs (node : Node) {extent : Extent} {last : Prop}
    (fits : node.Fits extent last) {ahead line : Nat} {rest : List Line} {scopes : Scopes}
    {env : Environment} (binds : scopes.Binds env) (final : last → rest = [])
    (bound : (node.lines ++ rest).length ≤ ahead + 1) :
    Performs (handle setting (block setting ahead) node.head)
      ⟨⟨line, node.lines ++ rest⟩, scopes⟩ (node.eval setting line env)
      ⟨⟨line + node.lines.length, rest⟩, scopes⟩ := by
  match node with
  | .plain text =>
    rw [Node.lines]
    exact plain_performs text binds
  | .stray directive text =>
    rw [Node.lines]
    refine (stray_performs directive text).congr ?_
    obtain ⟨rfl | rfl, _⟩ := fits <;> rfl
  | .condition header yes closing =>
    obtain ⟨ends, fitsYes⟩ := fits
    have place : line + (Node.condition header yes closing).lines.length =
        line + 1 + (linesOf yes).length + (closingLines closing).length := by
      simp only [Node.lines, List.length_cons, List.length_append]
      omega
    rw [place]
    simp only [Node.lines, List.cons_append, List.append_assoc] at bound ⊢
    exact condition_performs fitsYes (renders_all yes fitsYes) binds (fun h => final (ends h))
      (Nat.le_of_succ_le_succ bound)
  | .choice header yes middle no closing =>
    obtain ⟨ends, fitsYes, fitsNo⟩ := fits
    have place : line + (Node.choice header yes middle no closing).lines.length =
        line + 1 + (linesOf yes).length + 1 + (linesOf no).length +
          (closingLines closing).length := by
      simp only [Node.lines, List.length_cons, List.length_append]
      omega
    rw [place]
    simp only [Node.lines, List.cons_append, List.append_assoc] at bound ⊢
    exact choice_performs fitsYes (renders_all yes fitsYes) fitsNo (renders_all no fitsNo) binds
      (fun h => final (ends h)) (Nat.le_of_succ_le_succ bound)
  | .loop header body closing =>
    obtain ⟨ends, fitsBody⟩ := fits
    have place : line + (Node.loop header body closing).lines.length =
        line + 1 + (linesOf body).length + (closingLines closing).length := by
      simp only [Node.lines, List.length_cons, List.length_append]
      omega
    rw [place]
    simp only [Node.lines, List.cons_append, List.append_assoc] at bound ⊢
    exact loop_performs fitsBody (renders_all body fitsBody) binds (fun h => final (ends h))
      (Nat.le_of_succ_le_succ bound)

/-- **Nodes are rendered as they are evaluated.** -/
theorem renders_all (nodes : List Node) {extent : Extent} {last : Prop}
    (fits : FitAll nodes extent last) : RendersAll setting nodes extent last := by
  intro ahead line rest scopes env report t binds final bound goesOn
  match nodes with
  | [] => exact goesOn ahead bound
  | node :: nodes =>
    rw [Node.fitAll_cons] at fits
    rw [Node.linesOf_cons, List.length_append, ← Nat.add_assoc] at goesOn
    rw [Node.linesOf_cons, List.append_assoc] at bound ⊢
    obtain ⟨behind, begins⟩ := node.exists_lines_eq_head_cons
    have some : 0 < node.lines.length := by rw [begins]; exact Nat.succ_pos _
    rw [List.length_append] at bound
    cases ahead with
    | zero => omega
    | succ ahead =>
      rw [Node.evalAll_cons, Report.andThen_assoc]
      have ends : last ∧ nodes = [] → linesOf nodes ++ rest = [] :=
        Node.linesOf_append_eq_nil final
      refine ((handle_performs node fits.1 binds ends (by rwa [List.length_append])).andThen
        fun _ => ?_).congr (lines_node fits.1)
      exact renders_all nodes fits.2 binds final (by omega) goesOn

end

/-- Lines up to the end of the input are rendered as their own tree is evaluated. -/
theorem renders_to_end (binds : scopes.Binds env) (bound : rest.length ≤ ahead) :
    Performs (lines setting ahead .whole) ⟨⟨line, rest⟩, scopes⟩
      (Node.evalAll setting (treeOf rest) line env) ⟨⟨line + rest.length, []⟩, scopes⟩ := by
  have spelled := linesOf_treeOf rest
  have atEnd (ahead' : Nat) (_ : ([] : List Line).length ≤ ahead') :
      Performs (lines setting ahead' .whole)
        ⟨⟨line + (linesOf (treeOf rest)).length, []⟩, scopes⟩ .nothing
        ⟨⟨line + (linesOf (treeOf rest)).length, []⟩, scopes⟩ :=
    Performs.done.congr lines_nil
  have bound' : (linesOf (treeOf rest) ++ []).length ≤ ahead := by
    rw [List.append_nil, spelled]
    exact bound
  have performs := renders_all (treeOf rest) (fits_treeOf rest) binds (fun _ => rfl) bound' atEnd
  rwa [Report.andThen_nothing, List.append_nil, spelled] at performs

/-- **A render reports what the evaluation of the tree reports.** -/
theorem report_run (setting : Setting) (all : List Line) :
    (run setting all).report = Node.evalAll setting (treeOf all) 1 [] :=
  (Performs.inScope (t := ⟨_, Scopes.root⟩)
    (renders_to_end Scopes.binds_root.push (Nat.le_refl _)) (Scopes.pop_push .root)).report_eq

end Render

/-- The lines of a log, put together, are what its entries add to the text. -/
theorem Render.joinLines_writtenLines (separator : List Char) (log : List Entry) :
    joinLines separator (writtenLines log) = log.flatMap (Entry.text separator) := by
  induction log with
  | nil => rfl
  | cons entry log ih =>
    rw [List.flatMap_cons, ← ih]
    cases entry with
    | line text => rfl
    | event event => rfl

/-- A template renders to the text of what its run reports. -/
theorem Template.render_of_report {template : Template} {provider : Provider} {config : Config}
    {report : Report}
    (reports : (Render.run ⟨provider, config.strays⟩ template.lines).report = report) :
    template.render provider config = report.result config.separator := by
  rw [← reports, Template.render, Render.Outcome.result, Render.joinLines_writtenLines]
  rfl

/-- **Tree semantics.** A template renders to what its block tree evaluates to. -/
theorem Template.render_eq_evalAll (template : Template) (provider : Provider) (config : Config) :
    template.render provider config =
      (Node.evalAll ⟨provider, config.strays⟩ template.tree 1 []).result config.separator :=
  render_of_report (Render.report_run ⟨provider, config.strays⟩ template.lines)

end LineTemplate
