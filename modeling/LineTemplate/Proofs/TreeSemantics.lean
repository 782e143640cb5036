import LineTemplate.Proofs.Tree

/-!
# What a block tree renders to

A tree is evaluated by recursion on its shape, with no cursor: a condition evaluates one of its
parts, and a loop evaluates its body once for every item. What is visible are the bindings of the
loops around a node (`Environment`), over the provider.

The evaluation answers with a `Report`: what is written, and whether the render fails. A node says
nothing of its place, so the evaluation carries the number of the first line of the node.

The text of a report is put together here, entry after entry: a line is followed by the separator,
an event leaves no text (`Report.text`).

A block without a closing directive is evaluated like any other, and then fails on the last line,
because the text ended first.
-/

namespace LineTemplate

open Render (Entry Extent Setting)

/-- The bindings of the loops around a node, innermost first. -/
abbrev Environment : Type := List (String × Value)

namespace Environment

/-- The scopes of an environment, one for every binding. -/
def scopes (env : Environment) : Scopes :=
  ⟨env.map fun (name, value) => .single name value⟩

/-- The value of a dotted path. -/
def lookup (provider : Provider) (env : Environment) (path : String) : Option Value :=
  env.scopes.lookup provider path

/-- A condition holds when its path is the boolean `true`. -/
def holds (provider : Provider) (env : Environment) (path : String) : Bool :=
  (env.lookup provider path).any Value.isTrue

theorem holds_iff {provider : Provider} {env : Environment} {path : String} :
    env.holds provider path = true ↔ env.lookup provider path = some (.bool true) := by
  unfold holds
  cases env.lookup provider path with
  | none => simp only [Option.any_none, Bool.false_eq_true, reduceCtorEq]
  | some v => simp only [Option.any_some, Value.isTrue_iff, Option.some.injEq]

end Environment

/-- What an entry adds to the text: a line itself and the separator behind it, an event nothing. -/
def Render.Entry.text (separator : List Char) : Entry → List Char
  | .line written => written ++ separator
  | .event _ => []

/-- What a part of a render writes, and whether it fails. -/
structure Report where
  log : List Entry
  failure : Option Failure
deriving DecidableEq, Repr

namespace Report

def nothing : Report := ⟨[], none⟩

def wrote (log : List Entry) : Report := ⟨log, none⟩

def failed (failure : Failure) : Report := ⟨[], some failure⟩

/-- One report, and another one unless the first fails. -/
def andThen (first second : Report) : Report :=
  match first.failure with
  | some _ => first
  | none => ⟨first.log ++ second.log, second.failure⟩

/-- The reports of a pass over every item. -/
def forEach (pass : Value → Report) : List Value → Report
  | [] => nothing
  | item :: items => (pass item).andThen (forEach pass items)

/-- The text that the entries of a report add up to. -/
def text (separator : List Char) (report : Report) : List Char :=
  report.log.flatMap (Entry.text separator)

/-- The text of a report, or its failure. -/
def result (separator : String) (report : Report) : Except Failure String :=
  match report.failure with
  | some failure => .error failure
  | none => .ok (String.ofList (report.text separator.toList))

@[simp] theorem andThen_nothing (report : Report) : report.andThen nothing = report := by
  obtain ⟨log, failure⟩ := report
  cases failure with
  | none => simp only [andThen, nothing, List.append_nil]
  | some failure => rfl

theorem andThen_assoc (first second third : Report) :
    (first.andThen second).andThen third = first.andThen (second.andThen third) := by
  obtain ⟨log, failure⟩ := first
  cases failure with
  | some failure => rfl
  | none =>
    obtain ⟨log', failure'⟩ := second
    cases failure' with
    | some failure' => rfl
    | none => simp only [andThen, List.append_assoc]

/-- Reports in a row fail when one of them does. -/
theorem andThen_failure_eq_none {first second : Report} :
    (first.andThen second).failure = none ↔ first.failure = none ∧ second.failure = none := by
  obtain ⟨log, failure⟩ := first
  cases failure with
  | none => simp only [andThen, true_and]
  | some failure => simp only [andThen, reduceCtorEq, false_and]

end Report

namespace Node

/-- The end of a block: nothing to do at its closing directive, a failure where the text ends. -/
def ending (extent : Extent) (closing : Option (List Char)) (lastLine : Nat) : Report :=
  match closing with
  | some _ => .nothing
  | none => .failed (.parse ⟨lastLine, .unexpectedEnd extent.expected⟩)

/-- Decides a condition, and goes on with what follows from it. -/
def decided (setting : Setting) (header : List Char) (line : Nat) (env : Environment)
    (branch : Bool → Report) : Report :=
  match Header.conditionPath? header with
  | none => .failed (.parse ⟨line, .malformedCondition (Header.quoted header)⟩)
  | some path =>
    let holds := env.holds setting.provider path
    (Report.wrote [.event (.condition line path holds)]).andThen (branch holds)

/-- Goes through the items of a loop, or straight to its end if there is none. -/
def looped (setting : Setting) (header : List Char) (line : Nat) (env : Environment)
    (pass : Environment → Report) (ended : Report) : Report :=
  match Header.loop? header with
  | none => .failed (.parse ⟨line, .malformedLoop (Header.quoted header)⟩)
  | some header =>
    let container := env.lookup setting.provider header.container
    match container.bind Value.items? with
    | none => .failed (.notIterable line header.container (container.map Value.kind))
    | some items =>
      (Report.wrote [.event (.loop line header.item header.container items.length)]).andThen
        (if items.isEmpty then ended
        else .forEach (fun item => pass ((header.item, Render.loopItem item) :: env)) items)

mutual

/-- What a node renders to, with its first line at `line`. -/
def eval (setting : Setting) : Node → (line : Nat) → (env : Environment) → Report
  | .plain text, _, env =>
    let missing := Reference.unresolved setting.provider env.scopes text
    .wrote (missing.map (.event <| .unresolved ·) ++
      [.line (Reference.format setting.provider env.scopes text)])
  | .stray directive _, line, _ =>
    match setting.strays with
    | .skip => .wrote [.event (.straySkipped line directive)]
    | .reject => .failed (.parse ⟨line, .strayDirective directive.keyword⟩)
  | .condition header yes closing, line, env =>
    decided setting header line env fun holds =>
      (if holds then evalAll setting yes (line + 1) env else .nothing).andThen
        (ending .branch closing (line + (linesOf yes).length))
  | .choice header yes _ no closing, line, env =>
    let middle := line + 1 + (linesOf yes).length
    decided setting header line env fun holds =>
      (if holds then evalAll setting yes (line + 1) env
        else evalAll setting no (middle + 1) env).andThen
        (ending .body closing (middle + (linesOf no).length))
  | .loop header body closing, line, env =>
    let ended := ending .body closing (line + (linesOf body).length)
    looped setting header line env
      (fun inner => (evalAll setting body (line + 1) inner).andThen ended) ended

/-- What nodes render to one after the other. -/
def evalAll (setting : Setting) : List Node → (line : Nat) → (env : Environment) → Report
  | [], _, _ => .nothing
  | node :: nodes, line, env =>
    (eval setting node line env).andThen
      (evalAll setting nodes (line + node.lines.length) env)

end

@[simp] theorem evalAll_nil (setting : Setting) (line : Nat) (env : Environment) :
    evalAll setting [] line env = .nothing := by
  rw [evalAll]

@[simp] theorem evalAll_cons (setting : Setting) (node : Node) (nodes : List Node) (line : Nat)
    (env : Environment) :
    evalAll setting (node :: nodes) line env =
      (eval setting node line env).andThen
        (evalAll setting nodes (line + node.lines.length) env) := by
  rw [evalAll]

end Node

end LineTemplate
