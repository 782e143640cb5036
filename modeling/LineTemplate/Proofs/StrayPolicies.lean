import LineTemplate.Proofs.Comparison
import LineTemplate.Proofs.Failures

/-!
# Refusing and dropping stray directives

A render that refuses stray directives and one that drops them are the same up to the first stray
directive that is met. There the one fails, and the other one warns and goes on.

**The law** (`Template.reject_refines_skip`): so a render that refuses and succeeds is the render
that drops, up to the separator, and what the one refuses the other one warns of first.

`Report.Refines` is what the comparison of the two evaluations keeps. It speaks of whole logs, of
which texts and warnings are parts.
-/

namespace LineTemplate

open Render (Entry Setting)

/-- The warnings among some events. -/
def Event.warnings (events : List Event) : List Event :=
  events.filter fun event => event.level = .warn

/-- A warning tells of a stray directive that has been dropped, and of nothing else. -/
theorem Event.level_eq_warn_iff {event : Event} :
    event.level = .warn ↔ ∃ line directive, event = .straySkipped line directive := by
  cases event <;> simp [level]

/-- The warnings in a log. -/
def Render.warnings (log : List Entry) : List Event :=
  Event.warnings (events log)

@[simp] theorem Render.warnings_nil : warnings [] = [] := rfl

@[simp] theorem Render.warnings_append (front back : List Entry) :
    warnings (front ++ back) = warnings front ++ warnings back := by
  simp [warnings, events, Event.warnings]

/-- The warnings of a render stand in its log. -/
theorem Template.warnings_renderTraced (template : Template) (provider : Provider)
    (config : Config) : Event.warnings (template.renderTraced provider config).events =
      Render.warnings (template.outcome provider config).log := by
  cases result : (template.outcome provider config).result config.separator <;>
    simp [renderTraced, result, Render.warnings, Event.warnings, Event.level]

/-! ## Reports up to the first stray directive -/

/-- The first report is the second one, without warnings; or it fails at a stray directive, where
the second one has its first warning. -/
inductive Report.Refines : Report → Report → Prop
  | same {report : Report} (calm : Render.warnings report.log = []) : Refines report report
  | refused {log rest : List Entry} {line : Nat} {directive : Directive} {failure : Option Failure}
    (calm : Render.warnings log = []) :
    Refines ⟨log, some (.parse ⟨line, .strayDirective directive.keyword⟩)⟩
      ⟨log ++ .event (.straySkipped line directive) :: rest, failure⟩

namespace Report.Refines

variable {first first' second second' : Report}

/-- What comes behind a stray directive is not seen by the render that refuses it. -/
theorem andThen (now : first.Refines first') (later : second.Refines second') :
    (first.andThen second).Refines (first'.andThen second') := by
  cases now with
  | same calm =>
    obtain ⟨log, failure⟩ := first
    cases failure with
    | some failure => exact .same calm
    | none =>
      cases later with
      | same calm' =>
        refine .same ?_
        show Render.warnings (log ++ second.log) = []
        rw [Render.warnings_append, calm', calm]
        rfl
      | @refused log' rest line directive failure calm' =>
        have calm'' : Render.warnings (log ++ log') = [] := by
          rw [Render.warnings_append, calm', calm]
          rfl
        have whole : Refines ⟨log ++ log', some (.parse ⟨line, .strayDirective directive.keyword⟩)⟩
            ⟨log ++ log' ++ .event (.straySkipped line directive) :: rest, failure⟩ :=
          .refused calm''
        rwa [List.append_assoc] at whole
  | @refused log rest line directive failure calm =>
    cases failure with
    | some failure => exact .refused calm
    | none =>
      simp only [Report.andThen, List.append_assoc, List.cons_append]
      exact .refused calm

/-- Without a failure the two write the same lines. -/
theorem of_ok (refines : first.Refines first') {separator separator' : String} {text : String}
    (renders : first.result separator = .ok text) :
    ∃ written, text = String.ofList (Render.joinLines separator.toList written) ∧
      first'.result separator' = .ok (String.ofList (Render.joinLines separator'.toList written)) ∧
      Render.warnings first'.log = [] := by
  have succeeds := Report.failure_of_result renders
  cases refines with
  | same calm =>
    refine ⟨Render.writtenLines first.log, ?_, ?_, calm⟩
    · rw [Report.result, succeeds] at renders
      rw [Render.joinLines_writtenLines]
      exact (Except.ok.inj renders).symm
    · rw [Report.result, succeeds, Render.joinLines_writtenLines]
      rfl
  | refused => exact (Option.some_ne_none _ succeeds).elim

/-- A failure is common to the two, or it tells of the first warning. -/
theorem of_failure (refines : first.Refines first') {failure : Failure}
    (fails : first.failure = some failure) :
    (first'.failure = some failure ∧ Render.warnings first'.log = []) ∨
    ∃ line directive, failure = .parse ⟨line, .strayDirective directive.keyword⟩ ∧
      (Render.warnings first'.log).head? = some (.straySkipped line directive) := by
  cases refines with
  | same calm => exact .inl ⟨fails, calm⟩
  | refused calm =>
    refine .inr ⟨_, _, (Option.some.inj fails).symm, ?_⟩
    rw [Render.warnings_append, calm]
    rfl

end Report.Refines

/-- **An evaluation that refuses stray directives and one that drops them**, line by line. -/
theorem Comparison.strays (provider : Provider) :
    Comparison ⟨provider, .reject⟩ ⟨provider, .skip⟩ 0 Eq Report.Refines where
  nothing := .same rfl
  andThen := .andThen
  fault _ _ := .same rfl
  condition _ _ _ := .same rfl
  loop _ _ _ _ := .same rfl
  stray directive text line env env' := by
    rw [Node.eval, Node.eval]
    exact Report.Refines.refused Render.warnings_nil
  plain same text line := by
    subst same
    rw [Node.eval, Node.eval]
    refine .same ?_
    simp [Report.wrote, Render.warnings, Render.events, Event.warnings, Event.level]
  holds same path := by rw [same]
  items {env _} same path := by
    subst same
    exact items_self env _
  missing same path _ line := by
    subst same
    exact .same rfl

/-! ## Renders under the two policies -/

/-- A directive is told by its keyword. -/
theorem Directive.keyword_injective {first second : Directive}
    (same : first.keyword = second.keyword) : first = second := by
  cases first <;> cases second <;> simp [keyword] at same ⊢

namespace Template

variable (template : Template) (provider : Provider)

/-- A render that refuses stray directives reports what one that drops them does, up to the first
one. -/
theorem report_refines :
    (Render.run ⟨provider, .reject⟩ template.lines).report.Refines
      (Render.run ⟨provider, .skip⟩ template.lines).report := by
  rw [Render.report_run, Render.report_run]
  exact (Comparison.strays provider).evalAll (treeOf template.lines) 1 rfl

variable {template provider} in
/-- A render that drops stray directives does not fail at one. -/
theorem render_skip_ne_stray (separator : String) (line : Nat) (token : String) :
    template.render provider ⟨.skip, separator⟩ ≠
      .error (.parse ⟨line, .strayDirective token⟩) := by
  intro fails
  cases truthful_of_fails fails with
  | stray _ _ refused => exact nomatch refused

/-- **Refusing refines dropping, and the separator is inert.** Where the render that refuses stray
directives succeeds, the other one gives the same lines, each with its own separator, and warns of
nothing. A failure of another kind is the failure of both, and again nothing is warned of. The
directive that is refused stands on the line that the failure names, and the first warning of the
other render is about it; that render never fails at a stray directive. -/
theorem reject_refines_skip (first second : String) :
    (∀ text, template.render provider ⟨.reject, first⟩ = .ok text →
      ∃ written,
        text = String.ofList (Render.joinLines first.toList written) ∧
        template.render provider ⟨.skip, second⟩ =
          .ok (String.ofList (Render.joinLines second.toList written)) ∧
        Event.warnings (template.renderTraced provider ⟨.skip, second⟩).events = []) ∧
    (∀ failure, template.render provider ⟨.reject, first⟩ = .error failure →
      (∀ line token, failure ≠ .parse ⟨line, .strayDirective token⟩) →
      template.render provider ⟨.skip, second⟩ = .error failure ∧
        Event.warnings (template.renderTraced provider ⟨.skip, second⟩).events = []) ∧
    (∀ line token,
      template.render provider ⟨.reject, first⟩ = .error (.parse ⟨line, .strayDirective token⟩) →
      ∃ index text directive,
        line = index + 1 ∧ template.lines[index]? = some ⟨text, some directive⟩ ∧
        (directive = .otherwise ∨ directive = .close) ∧ directive.keyword = token ∧
        (Event.warnings (template.renderTraced provider ⟨.skip, second⟩).events).head? =
          some (.straySkipped line directive)) ∧
    ∀ line token, template.render provider ⟨.skip, second⟩ ≠
      .error (.parse ⟨line, .strayDirective token⟩) := by
  have refines := template.report_refines provider
  have result (policy : Strays) (separator : String) :
      template.render provider ⟨policy, separator⟩ =
        (Render.run ⟨provider, policy⟩ template.lines).report.result separator :=
    render_of_report rfl
  have warned : Event.warnings (template.renderTraced provider ⟨.skip, second⟩).events =
      Render.warnings (Render.run ⟨provider, .skip⟩ template.lines).report.log :=
    template.warnings_renderTraced provider ⟨.skip, second⟩
  rw [warned]
  refine ⟨?_, ?_, ?_, render_skip_ne_stray second⟩
  · intro text renders
    rw [result] at renders ⊢
    exact refines.of_ok renders
  · intro failure fails other
    rw [result] at fails ⊢
    rcases refines.of_failure (Report.fails_of_result fails) with ⟨same, calm⟩ | ⟨_, _, stray, _⟩
    · exact ⟨by rw [Report.result, same], calm⟩
    · exact (other _ _ stray).elim
  · intro line token fails
    cases truthful_of_fails fails with
    | @stray index text directive found closes refused =>
      refine ⟨index, text, directive, rfl, found, closes, rfl, ?_⟩
      rw [result] at fails
      rcases refines.of_failure (Report.fails_of_result fails) with ⟨same, _⟩ | ⟨_, _, stray, first⟩
      · -- the render that drops stray directives would fail at one
        have skips : template.render provider ⟨.skip, second⟩ = .error _ :=
          (result .skip second).trans (by rw [Report.result, same])
        exact (render_skip_ne_stray second _ _ skips).elim
      · simp only [Failure.parse.injEq, ParseFailure.mk.injEq, Fault.strayDirective.injEq] at stray
        rw [first, stray.1, Directive.keyword_injective stray.2]

/-- The second `#else` of a condition is stray where the second part is rendered. -/
theorem reject_refines_skip_second_otherwise :
    (∃ index text directive, 4 = index + 1 ∧
      (ofText "#if ($f)\n#else\nx\n#else\n#end").lines[index]? = some ⟨text, some directive⟩ ∧
      (directive = .otherwise ∨ directive = .close) ∧ directive.keyword = "#else" ∧
      (Event.warnings ((ofText "#if ($f)\n#else\nx\n#else\n#end").renderTraced
        (Table.provider .empty) ⟨.skip, "|"⟩).events).head? = some (.straySkipped 4 directive)) ∧
    Event.warnings ((ofText "#if ($f)\n#else\nx\n#else\n#end").renderTraced
      (Table.provider (.ofEntries [("f", .bool true)])) ⟨.skip, "|"⟩).events = [] ∧
    (ofText "#foreach ($i in $n)\n#end\n#end").render (Table.provider .empty) ⟨.skip, "|"⟩ =
      .error (.notIterable 1 "n" none) := by
  obtain ⟨-, -, refused, -⟩ := reject_refines_skip (ofText "#if ($f)\n#else\nx\n#else\n#end")
    (Table.provider .empty) "\n" "|"
  obtain ⟨renders, -, -, -⟩ := reject_refines_skip (ofText "#if ($f)\n#else\nx\n#else\n#end")
    (Table.provider (.ofEntries [("f", .bool true)])) "\n" "|"
  obtain ⟨-, fails, -, -⟩ := reject_refines_skip (ofText "#foreach ($i in $n)\n#end\n#end")
    (Table.provider .empty) "\n" "|"
  refine ⟨refused 4 "#else" (by decide +kernel), ?_, ?_⟩
  · obtain ⟨written, -, -, calm⟩ := renders "" (by decide +kernel)
    exact calm
  · have other (line : Nat) (token : String) :
        Failure.notIterable 1 "n" none ≠ .parse ⟨line, .strayDirective token⟩ := by
      rintro ⟨⟩
    exact (fails _ (by decide +kernel) other).1

end Template

end LineTemplate
