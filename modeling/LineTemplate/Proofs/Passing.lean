import LineTemplate.Proofs.StepRules

/-!
# Passing over nodes

A block that is not rendered is passed over by `seek`, which counts the blocks opened on the way.
Inside nodes that stand where they can, the count comes back to where it was, and no directive is
taken for the end of the level (`seek_linesOf`). So passing over the nodes of a part stops exactly
behind them.
-/

namespace LineTemplate

open Render (Extent seek Step Performs)

namespace Render

variable {closers : List Directive} {depth : Nat} {rest : List Line}

theorem seek_cons_plain (text : List Char) :
    seek closers depth (⟨text, none⟩ :: rest) = (seek closers depth rest).map (· + 1) := by
  rw [seek]

theorem seek_cons_found (text : List Char) {directive : Directive} (found : directive ∈ closers) :
    seek closers 0 (⟨text, some directive⟩ :: rest) = some 0 := by
  simp only [seek, found, and_self, if_true]

theorem seek_cons_passed (text : List Char) {directive : Directive}
    (passed : depth = 0 → directive ∉ closers) :
    seek closers depth (⟨text, some directive⟩ :: rest) =
      (seek closers (directive.depthAfter depth) rest).map (· + 1) := by
  have open' : ¬ (depth = 0 ∧ directive ∈ closers) := by
    intro h
    exact passed h.1 h.2
  simp only [seek, open', if_false]

/-- Inside a block the search goes on behind the closing directive of that block. -/
theorem seek_closing {closing : Option (List Char)} (final : closing = none → rest = []) :
    seek closers (depth + 1) (Node.closingLines closing ++ rest) =
      (seek closers depth rest).map (· + (Node.closingLines closing).length) := by
  cases closing with
  | none =>
    obtain rfl := final rfl
    rfl
  | some text =>
    show seek closers (depth + 1) (⟨text, some .close⟩ :: rest) = _
    rw [seek_cons_passed text (fun h => (Nat.succ_ne_zero depth h).elim)]
    rfl

/-- Counts of lines passed one after the other add up. -/
theorem map_add_map_add (found : Option Nat) (first second : Nat) :
    (found.map (· + first)).map (· + second) = found.map (· + (first + second)) := by
  rw [Option.map_map]
  congr 1
  funext count
  exact Nat.add_assoc count first second

/-- A level inside the whole text ends at its own `#end` at the latest. -/
theorem close_mem_closers {extent : Extent} (inner : extent ≠ .whole) :
    Directive.close ∈ extent.closers := by
  cases extent with
  | whole => exact (inner rfl).elim
  | branch => decide
  | body => decide

theorem conditional_not_mem_closers (extent : Extent) :
    Directive.conditional ∉ extent.closers := by
  cases extent <;> decide

theorem loop_not_mem_closers (extent : Extent) : Directive.loop ∉ extent.closers := by
  cases extent <;> decide

mutual

/-- **A search passes over a node**: it goes on behind it, at the depth it had in front of it. At
depth zero it looks for the end of the level that the node stands at. -/
theorem seek_lines (node : Node) {extent : Extent} {last : Prop} (fits : node.Fits extent last)
    (inner : extent ≠ .whole) {closers : List Directive} {depth : Nat}
    (level : depth = 0 → closers = extent.closers) {rest : List Line} (final : last → rest = []) :
    seek closers depth (node.lines ++ rest) =
      (seek closers depth rest).map (· + node.lines.length) := by
  -- inside a block of the node no directive ends the level
  have deep {P : Prop} (h : depth + 1 = 0) : P := absurd h (Nat.succ_ne_zero depth)
  match node with
  | .plain text =>
    simp only [Node.lines, List.singleton_append, List.length_singleton]
    exact seek_cons_plain text
  | .stray directive text =>
    -- inside a block only an `#else` can be stray, and it leaves the depth alone
    obtain ⟨rfl | rfl, stays⟩ := fits
    · simp only [Node.lines, List.singleton_append, List.length_singleton]
      apply seek_cons_passed
      intro h
      rw [level h]
      exact stays
    · exact (stays (close_mem_closers inner)).elim
  | .condition header yes closing =>
    obtain ⟨ends, fitsYes⟩ := fits
    have final' : closing = none → rest = [] := fun h => final (ends h)
    have passed : depth = 0 → Directive.conditional ∉ closers := by
      intro h
      rw [level h]
      exact conditional_not_mem_closers extent
    simp only [Node.lines, List.cons_append, List.append_assoc, List.length_cons,
      List.length_append]
    rw [seek_cons_passed header passed, Directive.depthAfter,
      seek_linesOf yes fitsYes branch_ne_whole deep (Node.closingLines_append_eq_nil final'),
      seek_closing final', map_add_map_add, map_add_map_add]
    exact congrArg (fun passed => Option.map (· + passed) _) (by omega)
  | .choice header yes middle no closing =>
    obtain ⟨ends, fitsYes, fitsNo⟩ := fits
    have final' : closing = none → rest = [] := fun h => final (ends h)
    have passed : depth = 0 → Directive.conditional ∉ closers := by
      intro h
      rw [level h]
      exact conditional_not_mem_closers extent
    simp only [Node.lines, List.cons_append, List.append_assoc, List.length_cons,
      List.length_append]
    rw [seek_cons_passed header passed, Directive.depthAfter,
      seek_linesOf yes fitsYes branch_ne_whole deep False.elim,
      seek_cons_passed middle deep, Directive.depthAfter,
      seek_linesOf no fitsNo body_ne_whole deep (Node.closingLines_append_eq_nil final'),
      seek_closing final', map_add_map_add, map_add_map_add, map_add_map_add, map_add_map_add]
    exact congrArg (fun passed => Option.map (· + passed) _) (by omega)
  | .loop header body closing =>
    obtain ⟨ends, fitsBody⟩ := fits
    have final' : closing = none → rest = [] := fun h => final (ends h)
    have passed : depth = 0 → Directive.loop ∉ closers := by
      intro h
      rw [level h]
      exact loop_not_mem_closers extent
    simp only [Node.lines, List.cons_append, List.append_assoc, List.length_cons,
      List.length_append]
    rw [seek_cons_passed header passed, Directive.depthAfter,
      seek_linesOf body fitsBody body_ne_whole deep (Node.closingLines_append_eq_nil final'),
      seek_closing final', map_add_map_add, map_add_map_add]
    exact congrArg (fun passed => Option.map (· + passed) _) (by omega)

/-- **A search passes over nodes**, as over one. -/
theorem seek_linesOf (nodes : List Node) {extent : Extent} {last : Prop}
    (fits : Node.FitAll nodes extent last) (inner : extent ≠ .whole) {closers : List Directive}
    {depth : Nat} (level : depth = 0 → closers = extent.closers) {rest : List Line}
    (final : last → rest = []) :
    seek closers depth (Node.linesOf nodes ++ rest) =
      (seek closers depth rest).map (· + (Node.linesOf nodes).length) := by
  match nodes with
  | [] =>
    rw [Node.linesOf_nil, List.nil_append, List.length_nil]
    exact Option.map_id_apply.symm
  | node :: nodes =>
    rw [Node.fitAll_cons] at fits
    rw [Node.linesOf_cons, List.append_assoc,
      seek_lines node fits.1 inner level (Node.linesOf_append_eq_nil final),
      seek_linesOf nodes fits.2 inner level final, map_add_map_add, List.length_append,
      Nat.add_comm node.lines.length]

end

/-! ## The step that passes over a part -/

variable {extent : Extent} {line lastLine : Nat} {scopes : Scopes} {t : State}

/-- The search that succeeds leads in front of the directive that was found. -/
theorem skip_found (front : List Line)
    (found : seek extent.closers 0 (front ++ rest) = some front.length) :
    Performs (.skip extent) ⟨⟨line, front ++ rest⟩, scopes⟩ .nothing
      ⟨⟨line + front.length, rest⟩, scopes⟩ :=
  (Performs.forward front rest rfl).congr (by simp only [Step.skip, found])

/-- The search that fails goes to the end of the input. -/
theorem skip_missing (inner : extent ≠ .whole) (missing : seek extent.closers 0 rest = none)
    (count : lastLine + 1 = line + rest.length) :
    Performs (.skip extent) ⟨⟨line, rest⟩, scopes⟩ (Node.ending extent none lastLine) t := by
  have toEnd : Performs (.forward rest.length) ⟨⟨line, rest⟩, scopes⟩ .nothing
      ⟨⟨lastLine + 1, []⟩, scopes⟩ := by
    have moved : Performs (.forward rest.length) ⟨⟨line, rest ++ []⟩, scopes⟩ .nothing
        ⟨⟨line + rest.length, []⟩, scopes⟩ := Performs.forward rest [] rfl
    rwa [List.append_nil, ← count] at moved
  exact (toEnd.silently (atEnd_performs inner)).congr (by simp only [Step.skip, missing])

/-- A search at the front of a part, and one at its `#else`, find the closing directive of the block
or the end of the input. -/
theorem skip_to_closing {front : List Line} {closing : Option (List Char)}
    (inner : extent ≠ .whole)
    (passes : ∀ rest', (closing = none → rest' = []) → seek extent.closers 0 (front ++ rest') =
      (seek extent.closers 0 rest').map (· + front.length))
    (final : closing = none → rest = []) (count : lastLine + 1 = line + front.length) :
    Performs (.skip extent) ⟨⟨line, front ++ (Node.closingLines closing ++ rest)⟩, scopes⟩
      (Node.ending extent closing lastLine)
      ⟨⟨line + front.length, Node.closingLines closing ++ rest⟩, scopes⟩ := by
  cases closing with
  | none =>
    obtain rfl := final rfl
    have missing := passes [] fun _ => rfl
    have length : (front ++ (Node.closingLines none ++ [])).length = front.length :=
      congrArg List.length (List.append_nil front)
    exact skip_missing inner missing (by rw [length, count])
  | some text =>
    refine skip_found front ?_
    rw [passes _ fun h => absurd h (Option.some_ne_none text)]
    show (seek extent.closers 0 (⟨text, some .close⟩ :: rest)).map _ = _
    rw [seek_cons_found text (close_mem_closers inner), Option.map_some, Nat.zero_add]

/-- **A part is passed over up to its own `#end`.** -/
theorem skip_part {nodes : List Node} {closing : Option (List Char)}
    (fits : Node.FitAll nodes extent (closing = none)) (inner : extent ≠ .whole)
    (final : closing = none → rest = [])
    (count : lastLine + 1 = line + (Node.linesOf nodes).length) :
    Performs (.skip extent)
      ⟨⟨line, Node.linesOf nodes ++ (Node.closingLines closing ++ rest)⟩, scopes⟩
      (Node.ending extent closing lastLine)
      ⟨⟨line + (Node.linesOf nodes).length, Node.closingLines closing ++ rest⟩, scopes⟩ :=
  skip_to_closing inner (fun _ final' => seek_linesOf nodes fits inner (fun _ => rfl) final')
    final count

/-- The first part of a condition is passed over up to its `#else`. -/
theorem skip_to_middle {yes : List Node} (fits : Node.FitAll yes .branch False)
    (middle : List Char) :
    Performs (.skip .branch) ⟨⟨line, Node.linesOf yes ++ ⟨middle, some .otherwise⟩ :: rest⟩, scopes⟩
      .nothing
      ⟨⟨line + (Node.linesOf yes).length, ⟨middle, some .otherwise⟩ :: rest⟩, scopes⟩ := by
  refine skip_found (Node.linesOf yes) ?_
  rw [seek_linesOf yes fits branch_ne_whole (fun _ => rfl) False.elim,
    seek_cons_found middle (by decide), Option.map_some, Nat.zero_add]

/-- The second part of a condition is passed over from its `#else`. -/
theorem skip_from_middle {no : List Node} {closing : Option (List Char)}
    (fits : Node.FitAll no .body (closing = none)) (middle : List Char)
    (final : closing = none → rest = []) (count : lastLine = line + (Node.linesOf no).length) :
    Performs (.skip .body)
      ⟨⟨line, ⟨middle, some .otherwise⟩ ::
        (Node.linesOf no ++ (Node.closingLines closing ++ rest))⟩, scopes⟩
      (Node.ending .body closing lastLine)
      ⟨⟨line + 1 + (Node.linesOf no).length, Node.closingLines closing ++ rest⟩, scopes⟩ := by
  have passes (rest' : List Line) (final' : closing = none → rest' = []) :
      seek Extent.body.closers 0 (⟨middle, some .otherwise⟩ :: Node.linesOf no ++ rest') =
        (seek Extent.body.closers 0 rest').map
          (· + (⟨middle, some .otherwise⟩ :: Node.linesOf no).length) := by
    rw [List.cons_append, seek_cons_passed middle (fun _ => by decide), Directive.depthAfter,
      seek_linesOf no fits body_ne_whole (fun _ => rfl) final', map_add_map_add, List.length_cons]
  have place : line + (⟨middle, some .otherwise⟩ :: Node.linesOf no).length =
      line + 1 + (Node.linesOf no).length := by
    rw [List.length_cons]
    omega
  rw [← place]
  exact skip_to_closing body_ne_whole passes final (by rw [place]; omega)

end Render

end LineTemplate
