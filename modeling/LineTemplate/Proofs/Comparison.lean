import Mathlib.Data.List.Forall2
import LineTemplate.Proofs.TreeSemantics

/-!
# Comparing two evaluations of a tree

Two evaluations of the same nodes take the same course when their conditions are decided alike and
their loops go through as many items. Then a relation between what they report has to be checked at
single lines only: `Comparison` lists where, and `Comparison.evalAll` has it for all nodes.

The two can differ in their settings, in the bindings that are visible, and in the numbers of their
lines, which are `moved` further on in the second one.
-/

namespace LineTemplate

open Render (Extent Setting loopItem)
open Node (ending decided looped linesOf)

/-- **Two evaluations compare line by line**, from related bindings to related reports. -/
structure Comparison (first second : Setting) (moved : Nat)
    (visible : Environment → Environment → Prop) (agree : Report → Report → Prop) : Prop where
  nothing : agree .nothing .nothing
  andThen {report next report' next' : Report} (now : agree report report')
    (later : agree next next') : agree (report.andThen next) (report'.andThen next')
  fault (line : Nat) (fault : Fault) :
    agree (.failed (.parse ⟨line, fault⟩)) (.failed (.parse ⟨line + moved, fault⟩))
  condition (line : Nat) (path : String) (holds : Bool) :
    agree (.wrote [.event (.condition line path holds)])
      (.wrote [.event (.condition (line + moved) path holds)])
  loop (line : Nat) (item container : String) (size : Nat) :
    agree (.wrote [.event (.loop line item container size)])
      (.wrote [.event (.loop (line + moved) item container size)])
  stray (directive : Directive) (text : List Char) (line : Nat) (env env' : Environment) :
    agree ((Node.stray directive text).eval first line env)
      ((Node.stray directive text).eval second (line + moved) env')
  plain {env env' : Environment} (same : visible env env') (text : List Char) (line : Nat) :
    agree ((Node.plain text).eval first line env)
      ((Node.plain text).eval second (line + moved) env')
  holds {env env' : Environment} (same : visible env env') (path : String) :
    env.holds first.provider path = env'.holds second.provider path
  items {env env' : Environment} (same : visible env env') (path : String) :
    Option.Rel (List.Forall₂ fun item item' => ∀ name,
        visible ((name, loopItem item) :: env) ((name, loopItem item') :: env'))
      ((env.lookup first.provider path).bind Value.items?)
      ((env'.lookup second.provider path).bind Value.items?)
  missing {env env' : Environment} (same : visible env env') (path : String)
    (none : (env.lookup first.provider path).bind Value.items? = none) (line : Nat) :
    agree (.failed (.notIterable line path ((env.lookup first.provider path).map Value.kind)))
      (.failed (.notIterable (line + moved) path
        ((env'.lookup second.provider path).map Value.kind)))

namespace Comparison

/-- From the same bindings a loop goes through the same items. -/
theorem items_self (env : Environment) (items : Option (List Value)) :
    Option.Rel (List.Forall₂ fun item item' => ∀ name : String,
      (name, loopItem item) :: env = (name, loopItem item') :: env) items items := by
  cases items with
  | none => exact .none
  | some items => exact .some (List.forall₂_same.mpr fun _ _ _ => rfl)

variable {first second : Setting} {moved : Nat} {visible : Environment → Environment → Prop}
  {agree : Report → Report → Prop} (compare : Comparison first second moved visible agree)
  {env env' : Environment}

include compare

theorem ending (extent : Extent) (closing : Option (List Char)) (lastLine : Nat) :
    agree (Node.ending extent closing lastLine)
      (Node.ending extent closing (lastLine + moved)) := by
  cases closing with
  | none => exact compare.fault lastLine _
  | some text => exact compare.nothing

theorem forEach {items items' : List Value} {pass pass' : Value → Report}
    (passes : List.Forall₂ (fun item item' => agree (pass item) (pass' item')) items items') :
    agree (.forEach pass items) (.forEach pass' items') := by
  induction passes with
  | nil => exact compare.nothing
  | cons now _ later => exact compare.andThen now later

/-- Conditions take the same branch. -/
theorem decided (same : visible env env') (header : List Char) (line : Nat)
    {branch branch' : Bool → Report} (branches : ∀ holds, agree (branch holds) (branch' holds)) :
    agree (Node.decided first header line env branch)
      (Node.decided second header (line + moved) env' branch') := by
  unfold Node.decided
  cases Header.conditionPath? header with
  | none => exact compare.fault line _
  | some path =>
    simp only [← compare.holds same path]
    exact compare.andThen (compare.condition line path _) (branches _)

/-- Loops go through related items. -/
theorem looped (same : visible env env') (header : List Char) (line : Nat)
    {pass pass' : Environment → Report} {ended ended' : Report}
    (passes : ∀ {inner inner'}, visible inner inner' → agree (pass inner) (pass' inner'))
    (ends : agree ended ended') :
    agree (Node.looped first header line env pass ended)
      (Node.looped second header (line + moved) env' pass' ended') := by
  unfold Node.looped
  cases Header.loop? header with
  | none => exact compare.fault line _
  | some found =>
    have items := compare.items same found.container
    simp only
    cases hitems : (env.lookup first.provider found.container).bind Value.items? with
    | none =>
      rw [hitems] at items
      cases hitems' : (env'.lookup second.provider found.container).bind Value.items? with
      | none => exact compare.missing same found.container hitems line
      | some items' =>
        rw [hitems'] at items
        exact nomatch items
    | some values =>
      rw [hitems] at items
      cases hitems' : (env'.lookup second.provider found.container).bind Value.items? with
      | none =>
        rw [hitems'] at items
        exact nomatch items
      | some values' =>
        rw [hitems'] at items
        obtain ⟨items⟩ := items
        have length := items.length_eq
        simp only [length]
        refine compare.andThen (compare.loop line _ _ _) ?_
        cases items with
        | nil => exact ends
        | cons now later =>
          exact compare.forEach
            ((List.Forall₂.cons now later).imp fun _ _ bound => passes (bound _))

mutual

/-- **Nodes that are evaluated from related bindings report what is related.** -/
theorem eval (node : Node) (line : Nat) {env env' : Environment} (same : visible env env') :
    agree (node.eval first line env) (node.eval second (line + moved) env') := by
  match node with
  | .plain text => exact compare.plain same text line
  | .stray directive text => exact compare.stray directive text line env env'
  | .condition header yes closing =>
    have inner : line + moved + 1 = line + 1 + moved := by omega
    have lastLine : line + moved + (linesOf yes).length =
        line + (linesOf yes).length + moved := by omega
    rw [Node.eval, Node.eval, inner, lastLine]
    refine compare.decided same header line fun holds =>
      compare.andThen ?_ (compare.ending _ _ _)
    cases holds with
    | true => exact evalAll yes (line + 1) same
    | false => exact compare.nothing
  | .choice header yes middle no closing =>
    have inner : line + moved + 1 = line + 1 + moved := by omega
    have between : line + 1 + moved + (linesOf yes).length + 1 =
        line + 1 + (linesOf yes).length + 1 + moved := by omega
    have lastLine : line + 1 + moved + (linesOf yes).length + (linesOf no).length =
        line + 1 + (linesOf yes).length + (linesOf no).length + moved := by omega
    rw [Node.eval, Node.eval, inner, lastLine, between]
    refine compare.decided same header line fun holds =>
      compare.andThen ?_ (compare.ending _ _ _)
    cases holds with
    | true => exact evalAll yes (line + 1) same
    | false => exact evalAll no _ same
  | .loop header body closing =>
    have inner : line + moved + 1 = line + 1 + moved := by omega
    have lastLine : line + moved + (linesOf body).length =
        line + (linesOf body).length + moved := by omega
    rw [Node.eval, Node.eval, inner, lastLine]
    exact compare.looped same header line
      (fun same => compare.andThen (evalAll body (line + 1) same) (compare.ending _ _ _))
      (compare.ending _ _ _)

theorem evalAll (nodes : List Node) (line : Nat) {env env' : Environment}
    (same : visible env env') :
    agree (Node.evalAll first nodes line env) (Node.evalAll second nodes (line + moved) env') := by
  match nodes with
  | [] =>
    rw [Node.evalAll_nil, Node.evalAll_nil]
    exact compare.nothing
  | node :: nodes =>
    have behind : line + moved + node.lines.length = line + node.lines.length + moved := by omega
    rw [Node.evalAll_cons, Node.evalAll_cons, behind]
    exact compare.andThen (eval node line same) (evalAll nodes _ same)

end

end Comparison

end LineTemplate
