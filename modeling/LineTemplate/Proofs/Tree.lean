import LineTemplate.Template

/-!
# The block tree of a template

The lines of a template are matched like brackets: a condition and a loop open a block, and a
closing directive closes the innermost open one. The tree keeps every line. A block that the text
ends before its closing directive is kept too, as a block without one.

A `Reading` is the tree of the lines read so far, taken apart at the place where it grows: the nodes
of the innermost open part, and the open blocks around it.

**The laws.** `linesOf_treeOf`: the tree spells exactly the lines that it was read from.
`fits_treeOf`: every stray directive of the tree stands where it closes nothing, and only the last
block at a place that the text ends in can be without a closing directive.
-/

namespace LineTemplate

open Render (Extent)

/-- A line of text, a stray directive, or a block. The closing directive of a block is kept as its
text, which is missing when the text ends first. -/
inductive Node where
  | plain (text : List Char)
  | stray (directive : Directive) (text : List Char)
  /-- A condition with one part. -/
  | condition (header : List Char) (yes : List Node) (closing : Option (List Char))
  /-- A condition with two parts; `middle` is the text of the first `#else` between them. -/
  | choice (header : List Char) (yes : List Node) (middle : List Char) (no : List Node)
      (closing : Option (List Char))
  | loop (header : List Char) (body : List Node) (closing : Option (List Char))

namespace Node

/-- The closing line of a block, if it has one. -/
def closingLines (closing : Option (List Char)) : List Line :=
  (closing.map fun text => ⟨text, some .close⟩).toList

mutual

/-- The lines that a node spells. -/
def lines : Node → List Line
  | .plain text => [⟨text, none⟩]
  | .stray directive text => [⟨text, some directive⟩]
  | .condition header yes closing =>
    ⟨header, some .conditional⟩ :: (linesOf yes ++ closingLines closing)
  | .choice header yes middle no closing =>
    ⟨header, some .conditional⟩ ::
      (linesOf yes ++ ⟨middle, some .otherwise⟩ :: (linesOf no ++ closingLines closing))
  | .loop header body closing =>
    ⟨header, some .loop⟩ :: (linesOf body ++ closingLines closing)

/-- The lines that nodes spell one after the other. -/
def linesOf : List Node → List Line
  | [] => []
  | node :: nodes => node.lines ++ linesOf nodes

end

/-- A block without a closing directive is the end of the text. -/
theorem closingLines_append_eq_nil {closing : Option (List Char)} {rest : List Line}
    (final : closing = none → rest = []) (missing : closing = none) :
    closingLines closing ++ rest = [] := by
  rw [missing, final missing]
  rfl

/-- The first line of a node. -/
def head : Node → Line
  | .plain text => ⟨text, none⟩
  | .stray directive text => ⟨text, some directive⟩
  | .condition header _ _ => ⟨header, some .conditional⟩
  | .choice header _ _ _ _ => ⟨header, some .conditional⟩
  | .loop header _ _ => ⟨header, some .loop⟩

/-- A node begins with its first line. -/
theorem exists_lines_eq_head_cons (node : Node) : ∃ behind, node.lines = node.head :: behind := by
  cases node with
  | plain text => exact ⟨_, lines.eq_1 text⟩
  | stray directive text => exact ⟨_, lines.eq_2 directive text⟩
  | condition header yes closing => exact ⟨_, lines.eq_3 header yes closing⟩
  | choice header yes middle no closing => exact ⟨_, lines.eq_4 header yes middle no closing⟩
  | loop header body closing => exact ⟨_, lines.eq_5 header body closing⟩

@[simp] theorem linesOf_nil : linesOf [] = [] := by
  rw [linesOf]

@[simp] theorem linesOf_cons (node : Node) (nodes : List Node) :
    linesOf (node :: nodes) = node.lines ++ linesOf nodes := by
  rw [linesOf]

/-- The last node of the last nodes is the end of the text. -/
theorem linesOf_append_eq_nil {nodes : List Node} {last : Prop} {rest : List Line}
    (final : last → rest = []) (ends : last ∧ nodes = []) : linesOf nodes ++ rest = [] := by
  rw [ends.2, final ends.1]
  rfl

theorem linesOf_append (front back : List Node) :
    linesOf (front ++ back) = linesOf front ++ linesOf back := by
  induction front with
  | nil => rfl
  | cons node front ih => simp only [List.cons_append, linesOf_cons, ih, List.append_assoc]

mutual

/-- The node can stand at a level that ends like `extent`: its stray directives do not end the level
they stand at, and a block without a closing directive stands `last`, where the text ends. -/
def Fits : Node → (extent : Extent) → (last : Prop) → Prop
  | .plain _, _, _ => True
  | .stray directive _, extent, _ =>
    (directive = .otherwise ∨ directive = .close) ∧ directive ∉ extent.closers
  | .condition _ yes closing, _, last =>
    (closing = none → last) ∧ FitAll yes .branch (closing = none)
  | .choice _ yes _ no closing, _, last =>
    (closing = none → last) ∧ FitAll yes .branch False ∧ FitAll no .body (closing = none)
  | .loop _ body closing, _, last =>
    (closing = none → last) ∧ FitAll body .body (closing = none)

/-- The nodes can stand at a level one after the other. -/
def FitAll : List Node → (extent : Extent) → (last : Prop) → Prop
  | [], _, _ => True
  | node :: nodes, extent, last =>
    node.Fits extent (last ∧ nodes = []) ∧ FitAll nodes extent last

end

@[simp] theorem fitAll_nil {extent : Extent} {last : Prop} : FitAll [] extent last ↔ True := by
  rw [FitAll]

@[simp] theorem fitAll_cons {node : Node} {nodes : List Node} {extent : Extent} {last : Prop} :
    FitAll (node :: nodes) extent last ↔
      node.Fits extent (last ∧ nodes = []) ∧ FitAll nodes extent last := by
  rw [FitAll]

/-- What can stand in the middle of a text can stand at its end. -/
theorem Fits.mono {node : Node} {extent : Extent} {last last' : Prop}
    (fits : node.Fits extent last) (weaker : last → last') : node.Fits extent last' := by
  cases node with
  | plain text => trivial
  | stray directive text => exact fits
  | condition header yes closing => exact ⟨fun h => weaker (fits.1 h), fits.2⟩
  | choice header yes middle no closing => exact ⟨fun h => weaker (fits.1 h), fits.2⟩
  | loop header body closing => exact ⟨fun h => weaker (fits.1 h), fits.2⟩

/-- A node that does not end a level can stand at it. -/
theorem Fits.at_level {node : Node} {extent extent' : Extent} {last : Prop}
    (fits : node.Fits extent last)
    (goes : ∀ directive, node.head.directive = some directive → directive ∉ extent'.closers) :
    node.Fits extent' last := by
  cases node with
  | plain text => trivial
  | stray directive text => exact ⟨fits.1, goes directive rfl⟩
  | condition header yes closing => exact fits
  | choice header yes middle no closing => exact fits
  | loop header body closing => exact fits

theorem FitAll.mono {nodes : List Node} {extent : Extent} {last last' : Prop}
    (fits : FitAll nodes extent last) (weaker : last → last') : FitAll nodes extent last' := by
  induction nodes with
  | nil => exact fitAll_nil.mpr trivial
  | cons node nodes ih =>
    simp only [fitAll_cons] at fits ⊢
    exact ⟨fits.1.mono fun h => ⟨weaker h.1, h.2⟩, ih fits.2⟩

/-- Nodes that are all closed can be followed by another node. -/
theorem FitAll.concat {nodes : List Node} {extent : Extent} {last : Prop}
    (closed : FitAll nodes extent False) {node : Node} (fits : node.Fits extent last) :
    FitAll (nodes ++ [node]) extent last := by
  induction nodes with
  | nil =>
    simp only [List.nil_append, fitAll_cons, fitAll_nil, and_true]
    exact fits
  | cons first nodes ih =>
    simp only [fitAll_cons, List.cons_append] at closed ⊢
    exact ⟨closed.1.mono fun h => h.1.elim, ih closed.2⟩

end Node

open Node (linesOf closingLines FitAll)

/-! ## Reading a tree -/

/-- How an open block was opened, up to the part that is being read. -/
inductive Opening where
  | condition (header : List Char)
  | choice (header : List Char) (yes : List Node) (middle : List Char)
  | loop (header : List Char)

namespace Opening

/-- The block, once its last part has been read. -/
def node (nodes : List Node) (closing : Option (List Char)) : Opening → Node
  | .condition header => .condition header nodes closing
  | .choice header yes middle => .choice header yes middle nodes closing
  | .loop header => .loop header nodes closing

/-- What ends the part that is being read. -/
def extent : Opening → Extent
  | .condition _ => .branch
  | .choice .. => .body
  | .loop _ => .body

/-- The lines in front of the part that is being read. -/
def lines : Opening → List Line
  | .condition header => [⟨header, some .conditional⟩]
  | .choice header yes middle =>
    ⟨header, some .conditional⟩ :: (linesOf yes ++ [⟨middle, some .otherwise⟩])
  | .loop header => [⟨header, some .loop⟩]

/-- The part of a condition that has been read already is closed. -/
def Fits : Opening → Prop
  | .choice _ yes _ => FitAll yes .branch False
  | _ => True

theorem lines_node (opening : Opening) (nodes : List Node) (closing : Option (List Char)) :
    (opening.node nodes closing).lines =
      opening.lines ++ (linesOf nodes ++ closingLines closing) := by
  cases opening with
  | condition header => simp only [node, Node.lines, lines, List.singleton_append]
  | choice header yes middle =>
    simp only [node, Node.lines, lines, List.cons_append, List.append_assoc, List.nil_append]
  | loop header => simp only [node, Node.lines, lines, List.singleton_append]

theorem fits_node {opening : Opening} (fits : opening.Fits) {nodes : List Node}
    {closing : Option (List Char)} (inner : FitAll nodes opening.extent (closing = none))
    (outer : Extent) : (opening.node nodes closing).Fits outer (closing = none) := by
  cases opening with
  | condition header => exact ⟨id, inner⟩
  | choice header yes middle => exact ⟨id, fits, inner⟩
  | loop header => exact ⟨id, inner⟩

end Opening

/-- The tree of the lines read so far. -/
structure Reading where
  /-- The nodes of the innermost open part. -/
  nodes : List Node
  /-- The open blocks, innermost first, each with the nodes in front of it. -/
  blocks : List (List Node × Opening)

namespace Reading

/-- Nothing has been read. -/
def start : Reading := ⟨[], []⟩

/-- Adds a node to the innermost part. -/
def add (node : Node) (reading : Reading) : Reading :=
  ⟨reading.nodes ++ [node], reading.blocks⟩

/-- Opens a block. -/
def opened (opening : Opening) (reading : Reading) : Reading :=
  ⟨[], (reading.nodes, opening) :: reading.blocks⟩

/-- An `#else` begins the second part of the innermost block, if that is a condition which has no
second part yet; elsewhere it is stray. -/
def middle (text : List Char) (reading : Reading) : Reading :=
  match reading.blocks with
  | (front, .condition header) :: outer =>
    ⟨[], (front, .choice header reading.nodes text) :: outer⟩
  | _ => reading.add (.stray .otherwise text)

/-- An `#end` closes the innermost block; with no open block it is stray. -/
def closed (text : List Char) (reading : Reading) : Reading :=
  match reading.blocks with
  | (front, opening) :: outer => ⟨front ++ [opening.node reading.nodes (some text)], outer⟩
  | [] => reading.add (.stray .close text)

/-- Goes on over one line. -/
def next (reading : Reading) (line : Line) : Reading :=
  match line.directive with
  | none => reading.add (.plain line.text)
  | some .conditional => reading.opened (.condition line.text)
  | some .loop => reading.opened (.loop line.text)
  | some .otherwise => reading.middle line.text
  | some .close => reading.closed line.text

/-- Goes on over lines. -/
def read (reading : Reading) (lines : List Line) : Reading :=
  lines.foldl next reading

/-- The nodes of the whole text, when it ends inside these blocks. -/
def finished : List (List Node × Opening) → List Node → List Node
  | [], nodes => nodes
  | (front, opening) :: outer, nodes => finished outer (front ++ [opening.node nodes none])

/-- The lines in front of the innermost open part. -/
def linesBefore : List (List Node × Opening) → List Line
  | [] => []
  | (front, opening) :: outer => linesBefore outer ++ (linesOf front ++ opening.lines)

/-- The lines that have been read. -/
def lines (reading : Reading) : List Line :=
  linesBefore reading.blocks ++ linesOf reading.nodes

/-- What ends the innermost open part. -/
def level : List (List Node × Opening) → Extent
  | [] => .whole
  | (_, opening) :: _ => opening.extent

/-- All nodes around the innermost open part are closed and stand where they can. -/
def Around : List (List Node × Opening) → Prop
  | [] => True
  | (front, opening) :: outer =>
    FitAll front (level outer) False ∧ opening.Fits ∧ Around outer

/-- All nodes that have been read are closed and stand where they can. -/
structure Sound (reading : Reading) : Prop where
  nodes : FitAll reading.nodes (level reading.blocks) False
  around : Around reading.blocks

/-! ### No line is lost -/

theorem lines_add (reading : Reading) (node : Node) :
    (reading.add node).lines = reading.lines ++ node.lines := by
  simp only [add, lines, Node.linesOf_append, Node.linesOf_cons, Node.linesOf_nil,
    List.append_nil, List.append_assoc]

theorem lines_opened (reading : Reading) (opening : Opening) :
    (reading.opened opening).lines = reading.lines ++ opening.lines := by
  simp only [opened, lines, linesBefore, Node.linesOf_nil, List.append_nil, List.append_assoc]

theorem lines_middle (reading : Reading) (text : List Char) :
    (reading.middle text).lines = reading.lines ++ [⟨text, some .otherwise⟩] := by
  unfold middle
  split
  next front header outer hblocks =>
    simp only [lines, hblocks, linesBefore, Opening.lines, Node.linesOf_nil, List.append_nil,
      List.append_assoc, List.cons_append, List.nil_append]
  next => rw [lines_add, Node.lines]

theorem lines_closed (reading : Reading) (text : List Char) :
    (reading.closed text).lines = reading.lines ++ [⟨text, some .close⟩] := by
  unfold closed
  split
  next front opening outer hblocks =>
    simp only [lines, hblocks, linesBefore, Node.linesOf_append, Node.linesOf_cons,
      Node.linesOf_nil, Opening.lines_node, closingLines, Option.map_some, Option.toList_some,
      List.append_nil, List.append_assoc]
  next => rw [lines_add, Node.lines]

/-- A line is added to the lines that have been read. -/
theorem lines_next (reading : Reading) (line : Line) :
    (reading.next line).lines = reading.lines ++ [line] := by
  obtain ⟨text, directive⟩ := line
  cases directive with
  | none => rw [next, lines_add, Node.lines]
  | some directive =>
    cases directive with
    | conditional => rw [next, lines_opened, Opening.lines]
    | otherwise => exact lines_middle reading text
    | loop => rw [next, lines_opened, Opening.lines]
    | close => exact lines_closed reading text

theorem lines_read (reading : Reading) (all : List Line) :
    (reading.read all).lines = reading.lines ++ all := by
  induction all generalizing reading with
  | nil => exact (List.append_nil _).symm
  | cons line all ih =>
    show ((reading.next line).read all).lines = _
    rw [ih, lines_next, List.append_assoc, List.singleton_append]

/-- Ending the text inside open blocks adds no line. -/
theorem linesOf_finished (blocks : List (List Node × Opening)) (nodes : List Node) :
    linesOf (finished blocks nodes) = linesBefore blocks ++ linesOf nodes := by
  induction blocks generalizing nodes with
  | nil => rfl
  | cons block outer ih =>
    obtain ⟨front, opening⟩ := block
    rw [finished, ih, linesBefore, Node.linesOf_append, Node.linesOf_cons, Node.linesOf_nil,
      Opening.lines_node]
    simp only [closingLines, Option.map_none, Option.toList_none, List.append_nil,
      List.append_assoc]

/-! ### Every node stands where it can -/

theorem Sound.add {reading : Reading} (sound : reading.Sound) {node : Node}
    (fits : node.Fits (level reading.blocks) False) : (reading.add node).Sound :=
  ⟨sound.nodes.concat fits, sound.around⟩

theorem Sound.opened {reading : Reading} (sound : reading.Sound) {opening : Opening}
    (fits : opening.Fits) : (reading.opened opening).Sound :=
  ⟨Node.fitAll_nil.mpr trivial, sound.nodes, fits, sound.around⟩

private theorem otherwise_stays : Directive.otherwise ∉ Extent.body.closers := by
  decide

theorem Sound.middle {reading : Reading} (sound : reading.Sound) (text : List Char) :
    (reading.middle text).Sound := by
  obtain ⟨nodes, blocks⟩ := reading
  obtain ⟨inner, around⟩ := sound
  -- only the first part of a condition ends at an `#else`
  cases blocks with
  | nil => exact Sound.add ⟨inner, around⟩ ⟨.inl rfl, List.not_mem_nil⟩
  | cons block outer =>
    obtain ⟨front, opening⟩ := block
    cases opening with
    | condition header => exact ⟨Node.fitAll_nil.mpr trivial, around.1, inner, around.2.2⟩
    | choice header yes between => exact Sound.add ⟨inner, around⟩ ⟨.inl rfl, otherwise_stays⟩
    | loop header => exact Sound.add ⟨inner, around⟩ ⟨.inl rfl, otherwise_stays⟩

theorem Sound.closed {reading : Reading} (sound : reading.Sound) (text : List Char) :
    (reading.closed text).Sound := by
  obtain ⟨nodes, blocks⟩ := reading
  obtain ⟨inner, around⟩ := sound
  cases blocks with
  | nil => exact Sound.add ⟨inner, around⟩ ⟨.inr rfl, List.not_mem_nil⟩
  | cons block outer =>
    obtain ⟨front, opening⟩ := block
    have sealed : (opening.node nodes (some text)).Fits (level outer) False :=
      (Opening.fits_node around.2.1 (inner.mono False.elim) (level outer)).mono (by simp)
    exact ⟨around.1.concat sealed, around.2.2⟩

theorem Sound.next {reading : Reading} (sound : reading.Sound) (line : Line) :
    (reading.next line).Sound := by
  unfold Reading.next
  split
  · exact sound.add trivial
  · exact sound.opened trivial
  · exact sound.opened trivial
  · exact sound.middle line.text
  · exact sound.closed line.text

theorem Sound.read {reading : Reading} (sound : reading.Sound) (all : List Line) :
    (reading.read all).Sound := by
  induction all generalizing reading with
  | nil => exact sound
  | cons line all ih => exact ih (sound.next line)

/-- A text that ends inside open blocks leaves its last nodes unclosed, and no other. -/
theorem fits_finished {blocks : List (List Node × Opening)} (around : Around blocks)
    {nodes : List Node} (inner : FitAll nodes (level blocks) True) :
    FitAll (finished blocks nodes) .whole True := by
  induction blocks generalizing nodes with
  | nil => exact inner
  | cons block outer ih =>
    obtain ⟨front, opening⟩ := block
    have cut : (opening.node nodes none).Fits (level outer) (none = none) :=
      Opening.fits_node around.2.1 (inner.mono fun _ => rfl) (level outer)
    exact ih around.2.2 (around.1.concat (cut.mono fun _ => trivial))

end Reading

/-- The tree of some lines. -/
def treeOf (lines : List Line) : List Node :=
  let reading := Reading.start.read lines
  Reading.finished reading.blocks reading.nodes

/-- **A tree spells the lines it was read from.** -/
theorem linesOf_treeOf (lines : List Line) : linesOf (treeOf lines) = lines := by
  rw [treeOf, Reading.linesOf_finished]
  exact (Reading.lines_read .start lines).trans (List.nil_append lines)

theorem Reading.sound_start : Reading.start.Sound :=
  ⟨Node.fitAll_nil.mpr trivial, trivial⟩

/-- **Every node of a tree stands where it can.** -/
theorem fits_treeOf (lines : List Line) : FitAll (treeOf lines) .whole True :=
  have sound := Reading.sound_start.read lines
  Reading.fits_finished sound.around (sound.nodes.mono fun _ => trivial)

/-- The first of some lines belongs to a node, with the lines behind it that make up its block. -/
theorem exists_first_node (line : Line) (rest : List Line) :
    ∃ (node : Node) (behind : List Line), node.head = line ∧ line :: rest = node.lines ++ behind ∧
      node.Fits .whole (behind = []) := by
  have spelled := linesOf_treeOf (line :: rest)
  have fits := fits_treeOf (line :: rest)
  cases tree : treeOf (line :: rest) with
  | nil =>
    rw [tree, Node.linesOf_nil] at spelled
    exact nomatch spelled
  | cons node nodes =>
    rw [tree, Node.linesOf_cons] at spelled
    rw [tree, Node.fitAll_cons] at fits
    obtain ⟨inner, begins⟩ := node.exists_lines_eq_head_cons
    have first : node.head = line := by
      rw [begins] at spelled
      exact (List.cons.inj spelled).1
    refine ⟨node, linesOf nodes, first, spelled.symm, fits.1.mono ?_⟩
    rintro ⟨-, rfl⟩
    exact Node.linesOf_nil

/-- The block tree of a template. -/
def Template.tree (template : Template) : List Node :=
  treeOf template.lines

end LineTemplate
