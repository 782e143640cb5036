import LineTemplate.Survey
import LineTemplate.Proofs.Passing

/-!
# The open blocks of a survey

A survey opens a block at a header and closes one at an `#end`, whatever stands between them. Over a
closed node it comes back to the blocks it started with (`blocks_lines`), and so does a search that
passes over lines (`blocks_seek`).

The count of the open blocks needs no names (`openCount`). It is zero behind lines whose tree is
closed, and behind no others (`closed_treeOf_iff`).
-/

namespace LineTemplate

open Render (Extent seek)

namespace Survey

/-- The blocks that are open behind a line. -/
def blocksBehind (blocks : List (Option String)) (line : Line) : List (Option String) :=
  match line.directive with
  | none | some .otherwise => blocks
  | some .conditional => none :: blocks
  | some .loop => (Header.loop? line.text).map Header.Loop.item :: blocks
  | some .close => blocks.tail

@[simp] theorem note_blocks (survey : Survey) (path : String) :
    (survey.note path).blocks = survey.blocks := by
  unfold note
  split <;> rfl

theorem notes_blocks (paths : List String) (survey : Survey) :
    (paths.foldl note survey).blocks = survey.blocks := by
  induction paths generalizing survey with
  | nil => rfl
  | cons path paths ih => rw [List.foldl_cons, ih, note_blocks]

theorem visit_blocks (survey : Survey) (line : Line) :
    (survey.visit line).blocks = blocksBehind survey.blocks line := by
  obtain ⟨text, directive⟩ := line
  cases directive with
  | none => exact notes_blocks _ survey
  | some directive =>
    cases directive with
    | conditional =>
      unfold visit
      cases Header.conditionPath? text <;> simp [blocksBehind, enter]
    | loop =>
      unfold visit
      cases h : Header.loop? text <;> simp [blocksBehind, enter, h]
    | otherwise => rfl
    | close => rfl

theorem visits_blocks (lines : List Line) (survey : Survey) :
    (lines.foldl visit survey).blocks = lines.foldl blocksBehind survey.blocks := by
  induction lines generalizing survey with
  | nil => rfl
  | cons line lines ih => rw [List.foldl_cons, List.foldl_cons, ih, visit_blocks]

/-! ## Closed nodes -/

/-- The closing directive of a block brings back the blocks around it. -/
private theorem blocks_closing {closing : Option (List Char)} (closed : closing ≠ none)
    (block : Option String) (blocks : List (Option String)) :
    (Node.closingLines closing).foldl blocksBehind (block :: blocks) = blocks := by
  cases closing with
  | none => exact (closed rfl).elim
  | some text => rfl

mutual

/-- **Behind a closed node the same blocks are open as in front of it.** -/
theorem blocks_lines (node : Node) {extent : Extent} (fits : node.Fits extent False)
    (blocks : List (Option String)) (top : extent = .whole → blocks = []) :
    node.lines.foldl blocksBehind blocks = blocks := by
  match node with
  | .plain text =>
    rw [Node.lines]
    rfl
  | .stray directive text =>
    rw [Node.lines]
    -- an `#end` is stray only where no block is open
    obtain ⟨rfl | rfl, stays⟩ := fits
    · rfl
    · by_cases whole : extent = .whole
      · rw [top whole]
        rfl
      · exact (stays (Render.close_mem_closers whole)).elim
  | .condition header yes closing =>
    obtain ⟨closed, fitsYes⟩ := fits
    have inner := blocks_linesOf yes (fitsYes.mono closed) (none :: blocks) nofun
    rw [Node.lines, List.foldl_cons, List.foldl_append]
    show List.foldl _ (List.foldl _ (none :: blocks) _) _ = _
    rw [inner, blocks_closing closed]
  | .choice header yes middle no closing =>
    obtain ⟨closed, fitsYes, fitsNo⟩ := fits
    have first := blocks_linesOf yes fitsYes (none :: blocks) nofun
    have second := blocks_linesOf no (fitsNo.mono closed) (none :: blocks) nofun
    rw [Node.lines, List.foldl_cons, List.foldl_append, List.foldl_cons, List.foldl_append]
    show List.foldl _ (List.foldl _ (List.foldl _ (none :: blocks) _) _) _ = _
    rw [first, second, blocks_closing closed]
  | .loop header body closing =>
    obtain ⟨closed, fitsBody⟩ := fits
    have inner := blocks_linesOf body (fitsBody.mono closed)
      ((Header.loop? header).map Header.Loop.item :: blocks) nofun
    rw [Node.lines, List.foldl_cons, List.foldl_append]
    show List.foldl _ (List.foldl _ (_ :: blocks) _) _ = _
    rw [inner, blocks_closing closed]

theorem blocks_linesOf (nodes : List Node) {extent : Extent} (fits : Node.FitAll nodes extent False)
    (blocks : List (Option String)) (top : extent = .whole → blocks = []) :
    (Node.linesOf nodes).foldl blocksBehind blocks = blocks := by
  match nodes with
  | [] =>
    rw [Node.linesOf_nil]
    rfl
  | node :: nodes =>
    rw [Node.fitAll_cons] at fits
    rw [Node.linesOf_cons, List.foldl_append,
      blocks_lines node (fits.1.mono fun h => h.1) blocks top,
      blocks_linesOf nodes fits.2 blocks top]

end

/-! ## Searches -/

/-- **A search comes back to the blocks around the level that it started at**, in front of the
directive that it finds. -/
theorem blocks_seek {closers : List Directive} (closes : .close ∈ closers) {rest : List Line}
    {depth count : Nat} (found : seek closers depth rest = some count)
    (opened : List (Option String)) (deep : opened.length = depth) (blocks : List (Option String)) :
    (rest.take count).foldl blocksBehind (opened ++ blocks) = blocks := by
  induction rest generalizing depth count opened with
  | nil => exact nomatch found
  | cons line rest ih =>
    obtain ⟨text, directive⟩ := line
    cases directive with
    | none =>
      rw [Render.seek_cons_plain, Option.map_eq_some_iff] at found
      obtain ⟨count, found, rfl⟩ := found
      exact ih found opened deep
    | some directive =>
      by_cases ends : depth = 0 ∧ directive ∈ closers
      · obtain ⟨rfl, member⟩ := ends
        rw [Render.seek_cons_found text member, Option.some.injEq] at found
        rw [← found, List.eq_nil_of_length_eq_zero deep]
        rfl
      · have passed : depth = 0 → directive ∉ closers := by
          intro h member
          exact ends ⟨h, member⟩
        rw [Render.seek_cons_passed text passed, Option.map_eq_some_iff] at found
        obtain ⟨count, found, rfl⟩ := found
        cases directive with
        | conditional =>
          have deeper : (none :: opened).length = depth + 1 := congrArg (· + 1) deep
          exact ih found _ deeper
        | otherwise => exact ih found opened deep
        | loop =>
          have deeper : ((Header.loop? text).map Header.Loop.item :: opened).length = depth + 1 :=
            congrArg (· + 1) deep
          exact ih found _ deeper
        | close =>
          cases opened with
          | nil => exact (passed deep.symm closes).elim
          | cons block opened => exact ih found opened (by rw [Directive.depthAfter, ← deep]; rfl)

end Survey

/-! ## The count of open blocks -/

/-- The count of open blocks behind a line, from the count in front of it. -/
def Line.depthBehind (depth : Nat) (line : Line) : Nat :=
  match line.directive with
  | none => depth
  | some directive => directive.depthAfter depth

/-- The count of blocks that are open behind some lines: a header opens one, and an `#end` closes
one if there is one. -/
def openCount (lines : List Line) : Nat :=
  lines.foldl Line.depthBehind 0

namespace Survey

theorem length_blocksBehind (blocks : List (Option String)) (line : Line) :
    (blocksBehind blocks line).length = line.depthBehind blocks.length := by
  obtain ⟨text, directive⟩ := line
  cases directive with
  | none => rfl
  | some directive =>
    cases directive <;> simp [blocksBehind, Line.depthBehind, Directive.depthAfter]

/-- A survey has as many open blocks as there are. -/
theorem length_blocks (lines : List Line) (blocks : List (Option String)) :
    (lines.foldl blocksBehind blocks).length = lines.foldl Line.depthBehind blocks.length := by
  induction lines generalizing blocks with
  | nil => rfl
  | cons line lines ih => rw [List.foldl_cons, List.foldl_cons, ih, length_blocksBehind]

end Survey

namespace Reading

theorem length_blocks_next (reading : Reading) (line : Line) :
    (reading.next line).blocks.length = line.depthBehind reading.blocks.length := by
  obtain ⟨text, directive⟩ := line
  cases directive with
  | none => rfl
  | some directive =>
    cases directive with
    | conditional => rfl
    | loop => rfl
    | otherwise =>
      show (reading.middle text).blocks.length = reading.blocks.length
      unfold middle
      split
      next blocks => rw [blocks, List.length_cons, List.length_cons]
      next => rfl
    | close =>
      show (reading.closed text).blocks.length = reading.blocks.length - 1
      unfold closed
      split
      next blocks => rw [blocks, List.length_cons, Nat.add_sub_cancel]
      next blocks => simp [add, blocks]

/-- The tree being read has as many open blocks as there are. -/
theorem length_blocks_read (lines : List Line) (reading : Reading) :
    (reading.read lines).blocks.length = lines.foldl Line.depthBehind reading.blocks.length := by
  induction lines generalizing reading with
  | nil => rfl
  | cons line lines ih =>
    show ((reading.next line).read lines).blocks.length = _
    rw [ih, length_blocks_next, List.foldl_cons]

end Reading

/-- **A tree is closed exactly if no block is open behind its lines.** -/
theorem closed_treeOf_iff {lines : List Line} :
    Node.FitAll (treeOf lines) .whole False ↔ openCount lines = 0 := by
  constructor
  · intro closed
    have blocks := Survey.blocks_linesOf (treeOf lines) closed [] fun _ => rfl
    rw [linesOf_treeOf] at blocks
    rw [openCount, ← List.length_nil, ← Survey.length_blocks, blocks]
  · intro none
    have sound := Reading.sound_start.read lines
    have blocks : (Reading.start.read lines).blocks = [] :=
      List.eq_nil_of_length_eq_zero ((Reading.length_blocks_read lines .start).trans none)
    have nodes := sound.nodes
    rw [treeOf, blocks]
    rwa [blocks] at nodes

/-- Only a text with an open block leaves a node without its closing directive. -/
theorem fits_treeOf_open (lines : List Line) :
    Node.FitAll (treeOf lines) .whole (0 < openCount lines) := by
  rcases Nat.eq_zero_or_pos (openCount lines) with none | some
  · exact (closed_treeOf_iff.mpr none).mono False.elim
  · exact (fits_treeOf lines).mono fun _ => some

end LineTemplate
