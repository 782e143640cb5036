import LineTemplate.Proofs.Dictionaries
import LineTemplate.Proofs.TreeSemantics

/-!
# Rules for steps

`Performs step s report t`: from the state `s` the step writes what the report says and fails when
it does; when it does not fail, it leads to the state `t`. There is one rule for each way to put
steps together, and one for each elementary step.

The scopes of a render hold more than its bindings: every block opens a scope of its own, which
stays empty. `Scopes.Binds` says which environment they amount to, and look-ups cannot tell the two
apart (`Scopes.Binds.lookup_eq`).
-/

namespace LineTemplate

open Render (Entry Extent Setting State Step Outcome Cursor)

/-! ## Scopes and environments -/

namespace Scopes

/-- Apart from empty scopes, the scopes are those of the environment. -/
def Binds (scopes : Scopes) (env : Environment) : Prop :=
  scopes.inner.filter (fun scope => !scope.isEmpty) = env.scopes.inner

theorem binds_root : root.Binds [] := rfl

/-- A scope that a block opens binds nothing. -/
theorem Binds.push {scopes : Scopes} {env : Environment} (binds : scopes.Binds env) :
    scopes.push.Binds env :=
  binds

/-- The scope of a loop binds one name, whatever the loop bound before. -/
theorem Binds.loop {scopes : Scopes} {env : Environment} (binds : scopes.Binds env)
    (name : String) (value : Value) : Scopes.Binds ⟨.single name value :: scopes.inner⟩
      ((name, value) :: env) :=
  congrArg (Dict.single name value :: ·) binds

private theorem findSome?_filter_nonempty {α β : Type} {f : Dict α → Option β}
    (empty : f .empty = none) (scopes : List (Dict α)) :
    (scopes.filter fun scope => !scope.isEmpty).findSome? f = scopes.findSome? f := by
  induction scopes with
  | nil => rfl
  | cons scope scopes ih =>
    cases scope with
    | nil =>
      rw [List.filter_cons_of_neg Bool.false_ne_true, ih, List.findSome?_cons_of_isNone]
      exact Option.isNone_iff_eq_none.mpr empty
    | cons name behind a rest =>
      rw [List.filter_cons_of_pos rfl, List.findSome?_cons, List.findSome?_cons, ih]

/-- **Look-ups see the environment.** -/
theorem Binds.lookup_eq {scopes : Scopes} {env : Environment} (binds : scopes.Binds env)
    (provider : Provider) (path : String) :
    scopes.lookup provider path = env.lookup provider path := by
  have same (name : String) : scopes.head? provider name = env.scopes.head? provider name := by
    unfold head?
    rw [← findSome?_filter_nonempty rfl scopes.inner, binds]
  unfold Environment.lookup lookup
  cases pathSegments path with
  | nil => rfl
  | cons first rest => simp only [same]

/-- A line is formatted from look-ups alone. -/
theorem format_congr {provider : Provider} {first second : Scopes}
    (same : ∀ path, first.lookup provider path = second.lookup provider path)
    (text : List Char) :
    Reference.format provider first text = Reference.format provider second text := by
  have step : Reference.substitute provider first = Reference.substitute provider second := by
    funext text name
    simp only [Reference.substitute, same]
  rw [Reference.format, step, Reference.format]

theorem unresolved_congr {provider : Provider} {first second : Scopes}
    (same : ∀ path, first.lookup provider path = second.lookup provider path)
    (text : List Char) :
    Reference.unresolved provider first text = Reference.unresolved provider second text := by
  simp only [Reference.unresolved, same]

end Scopes

namespace Render

/-! ## What a step performs -/

/-- What an outcome tells apart from its state. -/
def Outcome.report (outcome : Outcome) : Report :=
  ⟨outcome.log, outcome.failure⟩

/-- From `s` the step gives this report, and unless it fails it leads to `t`. -/
structure Performs (step : Step) (s : State) (report : Report) (t : State) : Prop where
  report_eq : (step s).report = report
  arrives : report.failure = none → (step s).state = t

namespace Performs

variable {step step' first second : Step} {s t u : State} {report report' : Report}

/-- Only what the step does from `s` matters. -/
theorem congr (performs : Performs step s report t) (same : step' s = step s) :
    Performs step' s report t :=
  ⟨by rw [same]; exact performs.report_eq, by rw [same]; exact performs.arrives⟩

theorem andThen (left : Performs first s report t)
    (right : report.failure = none → Performs second t report' u) :
    Performs (first.andThen second) s (report.andThen report') u := by
  obtain ⟨rfl, arrives⟩ := left
  unfold Step.andThen
  cases hf : (first s).failure with
  | some failure =>
    constructor
    · simp only [hf, Report.andThen, Outcome.report]
    · intro succeeds
      simp only [Report.andThen, Outcome.report, hf, reduceCtorEq] at succeeds
  | none =>
    obtain ⟨rfl, arrives'⟩ := right hf
    have ht : (first s).state = t := arrives hf
    constructor
    · simp only [hf, ht, Report.andThen, Outcome.report]
    · intro succeeds
      simp only [hf, ht, Report.andThen, Outcome.report] at succeeds ⊢
      exact arrives' succeeds

/-- A step that reports nothing comes first. -/
theorem silently (left : Performs first s .nothing t) (right : Performs second t report u) :
    Performs (first.andThen second) s report u :=
  left.andThen fun _ => right

/-- A step that reports nothing comes second. -/
theorem then_silently (left : Performs first s report t)
    (right : report.failure = none → Performs second t .nothing u) :
    Performs (first.andThen second) s report u :=
  Report.andThen_nothing report ▸ left.andThen right

theorem done : Performs .done s .nothing s :=
  ⟨rfl, fun _ => rfl⟩

theorem fail (failure : Failure) : Performs (.fail failure) s (.failed failure) t :=
  ⟨rfl, nofun⟩

theorem write (log : List Entry) : Performs (.write log) s (.wrote log) s :=
  ⟨rfl, fun _ => rfl⟩

theorem moveTo (cursor : Cursor) :
    Performs (.moveTo cursor) s .nothing ⟨cursor, s.scopes⟩ :=
  ⟨rfl, fun _ => rfl⟩

theorem bind (name : String) (value : Value) :
    Performs (.bind name value) s .nothing ⟨s.cursor, s.scopes.bind name value⟩ :=
  ⟨rfl, fun _ => rfl⟩

/-- Moves over lines that stand in front of others. -/
theorem forward {line count : Nat} (front back : List Line) {scopes : Scopes}
    (length : front.length = count) :
    Performs (.forward count) ⟨⟨line, front ++ back⟩, scopes⟩ .nothing
      ⟨⟨line + count, back⟩, scopes⟩ := by
  refine ⟨rfl, fun _ => ?_⟩
  show State.mk ⟨line + count, (front ++ back).drop count⟩ scopes = _
  rw [← length, List.drop_left]

/-- Moves over one line. -/
theorem forward_one {line : Nat} (first : Line) (rest : List Line) {scopes : Scopes} :
    Performs (.forward 1) ⟨⟨line, first :: rest⟩, scopes⟩ .nothing ⟨⟨line + 1, rest⟩, scopes⟩ :=
  forward [first] rest rfl

/-- A step in a scope of its own gives that scope back. -/
theorem inScope {cursor : Cursor} {scopes scopes' : Scopes}
    (performs : Performs step ⟨cursor, scopes.push⟩ report ⟨t.cursor, scopes'⟩)
    (popped : scopes'.pop = t.scopes) :
    Performs (.inScope step) ⟨cursor, scopes⟩ report t := by
  obtain ⟨rfl, arrives⟩ := performs
  refine ⟨rfl, fun succeeds => ?_⟩
  have ht := arrives succeeds
  show State.mk (step _).state.cursor (step _).state.scopes.pop = t
  rw [ht, popped]

end Performs

/-! ## The end of the input -/

/-- A first part of a condition stands inside the text. -/
theorem branch_ne_whole : Extent.branch ≠ .whole := by
  decide

/-- So do the second part of a condition and the body of a loop. -/
theorem body_ne_whole : Extent.body ≠ .whole := by
  decide

theorem atEnd_performs {extent : Extent} (inner : extent ≠ .whole) {lastLine : Nat}
    {rest : List Line} {scopes : Scopes} {t : State} :
    Performs (.atEnd extent) ⟨⟨lastLine + 1, rest⟩, scopes⟩
      (Node.ending extent none lastLine) t := by
  cases extent with
  | whole => exact (inner rfl).elim
  | branch => exact ⟨rfl, nofun⟩
  | body => exact ⟨rfl, nofun⟩

end Render

end LineTemplate
