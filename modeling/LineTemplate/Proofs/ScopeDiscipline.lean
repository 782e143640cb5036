import LineTemplate.Proofs.Refinement

/-!
# Scopes are given back

The scopes behind a step are those in front of it, whether the step succeeds or fails. Only the
passes of a loop bind a name, in the innermost scope, and that scope is the loop's own.

`Step.Keeps part step` says it of a part of the scopes: of all of them, or of the outer ones.
-/

namespace LineTemplate.Render

/-- However the step ends, this part of the scopes is as it was. -/
def Step.Keeps (part : Scopes → Scopes) (step : Step) : Prop :=
  ∀ s, part (step s).state.scopes = part s.scopes

namespace Step.Keeps

variable {part : Scopes → Scopes} {first second step : Step}

theorem andThen (left : first.Keeps part) (right : second.Keeps part) :
    (first.andThen second).Keeps part := by
  intro s
  simp only [Step.andThen]
  cases (first s).failure with
  | some failure => exact left s
  | none => exact (right (first s).state).trans (left s)

/-- A step that keeps all scopes keeps any part of them. -/
theorem part_of_all (keeps : step.Keeps id) : step.Keeps part := by
  intro s
  exact congrArg part (keeps s)

/-- The scope of a step of its own takes the changes of the step. -/
theorem inScope (keeps : step.Keeps Scopes.pop) : (Step.inScope step).Keeps id := by
  intro s
  exact keeps ⟨s.cursor, s.scopes.push⟩

theorem bind (name : String) (value : Value) : (Step.bind name value).Keeps Scopes.pop := by
  intro s
  obtain ⟨cursor, ⟨inner⟩⟩ := s
  cases inner <;> rfl

theorem done : Step.done.Keeps part := fun _ => rfl

theorem write (log : List Entry) : (Step.write log).Keeps part := fun _ => rfl

theorem forward (count : Nat) : (Step.forward count).Keeps part := fun _ => rfl

theorem moveTo (cursor : Cursor) : (Step.moveTo cursor).Keeps part := fun _ => rfl

theorem atEnd (extent : Extent) : (Step.atEnd extent).Keeps part := by
  intro s
  cases extent <;> rfl

theorem skip (extent : Extent) : (Step.skip extent).Keeps part := by
  intro s
  unfold Step.skip
  cases seek extent.closers 0 s.cursor.rest with
  | some count => exact forward count s
  | none => exact (forward _).andThen (atEnd extent) s

theorem atOtherwise (keeps : step.Keeps part) : (Step.atOtherwise step).Keeps part := by
  intro s
  unfold Step.atOtherwise
  split
  · exact keeps s
  · rfl

end Step.Keeps

open Step (Keeps)

variable {setting : Setting} {block : Extent → Step}

theorem plain_keeps (text : List Char) : (plain setting text).Keeps id := by
  intro s
  exact (Keeps.write _).andThen (Keeps.forward 1) s

theorem stray_keeps (directive : Directive) : (stray setting directive).Keeps id := by
  intro s
  unfold stray
  cases setting.strays with
  | skip => exact (Keeps.write _).andThen (Keeps.forward 1) s
  | reject => rfl

theorem conditional_keeps (inner : ∀ extent, (block extent).Keeps id) (text : List Char) :
    (conditional setting block text).Keeps id := by
  intro s
  unfold conditional
  cases Header.conditionPath? text with
  | none => rfl
  | some path =>
    refine (Keeps.write _).andThen ((Keeps.forward 1).andThen (Keeps.andThen ?_ (.forward 1))) s
    split
    · exact (inner .branch).andThen (Keeps.skip .body).atOtherwise
    · exact (Keeps.skip .branch).andThen ((Keeps.forward 1).andThen (inner .body)).atOtherwise

/-- The passes of a loop change nothing but the innermost scope. -/
theorem each_keeps (inner : (block .body).Keeps id) (name : String) (start : Cursor)
    (items : List Value) : (each block name start items).Keeps Scopes.pop := by
  induction items with
  | nil => exact .done
  | cons item items ih =>
    exact (Keeps.bind name _).andThen ((Keeps.moveTo start).andThen (inner.part_of_all.andThen ih))

theorem loop_keeps (inner : ∀ extent, (block extent).Keeps id) (text : List Char) :
    (loop setting block text).Keeps id := by
  intro s
  unfold loop
  cases Header.loop? text with
  | none => rfl
  | some header =>
    simp only
    cases (s.scopes.lookup setting.provider header.container).bind Value.items? with
    | none => rfl
    | some items =>
      refine (Keeps.write _).andThen ((Keeps.forward 1).andThen
        (Keeps.andThen (Keeps.inScope ?_) (.forward 1))) s
      split
      · exact .skip .body
      · exact each_keeps (inner .body) header.item _ items

theorem handle_keeps (inner : ∀ extent, (block extent).Keeps id) (line : Line) :
    (handle setting block line).Keeps id := by
  unfold handle
  split
  · exact plain_keeps line.text
  · exact conditional_keeps inner line.text
  · exact loop_keeps inner line.text
  · exact stray_keeps .otherwise
  · exact stray_keeps .close

/-- **A run of lines gives the scopes back**, whether it succeeds or fails. -/
theorem lines_keeps (ahead : Nat) (extent : Extent) : (lines setting ahead extent).Keeps id := by
  induction ahead generalizing extent with
  | zero => exact .atEnd extent
  | succ ahead ih =>
    have inner (extent : Extent) : (Render.block setting ahead extent).Keeps id :=
      .inScope (ih extent).part_of_all
    intro s
    rcases lines_cases ahead extent s with
      ⟨_, ends⟩ | ⟨_, _, _, _, _, _, stops⟩ | ⟨line, _, _, _, goes⟩
    · rw [ends]; exact Keeps.atEnd extent s
    · rw [stops]; rfl
    · rw [goes]; exact (handle_keeps inner line).andThen (ih extent) s

end LineTemplate.Render
