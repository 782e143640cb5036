import Mathlib.Algebra.Ring.Int.Defs
import LineTemplate.Proofs.OpenBlocks
import LineTemplate.Proofs.Visits

/-!
# Where a block ends

A block that is rendered stops where its lines lead it: it goes into the blocks that they open, back
for every item of a loop, and over the branches that are not taken. A search only counts the blocks
that open and close on the way. Wherever a block is rendered without a failure, both stop in front
of the same directive (`block_stops_where_sought`).

`Step.FindsFrom` says this of a step in a state. Every header then leads behind its own `#end`
(`handle_leads_behind`), which a search for it cannot miss: the `#end` that matches a header is told
by the lines alone (`MatchingEnd`), and there is one at most (`MatchingEnd.unique`).
-/

namespace LineTemplate

/-! ## Matching -/

/-- What a line adds to the count of open blocks: a header opens one, and an `#end` closes one. -/
def Line.balance (line : Line) : Int :=
  match line.directive with
  | some .conditional | some .loop => 1
  | some .close => -1
  | some .otherwise | none => 0

/-- The headers among the lines less the `#end`s. -/
def net (lines : List Line) : Int :=
  (lines.map Line.balance).sum

/-- Among the lines behind a header, the `#end` that matches it stands after `count` lines: the
blocks in between are all closed there, and none of their `#end`s is one too many. -/
structure MatchingEnd (behind : List Line) (count : Nat) : Prop where
  closes : behind[count]?.bind Line.directive = some .close
  settled : net (behind.take count) = 0
  inside : ∀ before ≤ count, 0 ≤ net (behind.take before)

@[simp] theorem net_nil : net [] = 0 := rfl

@[simp] theorem net_cons (line : Line) (lines : List Line) :
    net (line :: lines) = line.balance + net lines := by
  simp only [net, List.map_cons, List.sum_cons]

theorem net_append (front back : List Line) : net (front ++ back) = net front + net back := by
  simp only [net, List.map_append, List.sum_append]

/-- Behind the `#end` of a header one block less is open than in front of the header. -/
theorem MatchingEnd.net_behind {behind : List Line} {count : Nat}
    (closing : MatchingEnd behind count) : net (behind.take (count + 1)) = -1 := by
  obtain ⟨line, stands, closes⟩ := Option.bind_eq_some_iff.mp closing.closes
  rw [List.take_add_one, stands, Option.toList_some, net_append, closing.settled, net_cons, net_nil,
    Line.balance, closes]
  rfl

/-- **One `#end` at most matches a header.** -/
theorem MatchingEnd.unique {behind : List Line} {first second : Nat}
    (closing : MatchingEnd behind first) (closing' : MatchingEnd behind second) :
    first = second := by
  have notBefore {first second : Nat} (closing : MatchingEnd behind first)
      (closing' : MatchingEnd behind second) : ¬ first < second := by
    intro less
    have open' := closing'.inside (first + 1) less
    rw [closing.net_behind] at open'
    exact absurd open' (by decide)
  exact Nat.le_antisymm (Nat.not_lt.mp (notBefore closing' closing))
    (Nat.not_lt.mp (notBefore closing closing'))

namespace Render

/-! ## Searches -/

variable {closers : List Directive} {depth count : Nat} {line : Line} {rest : List Line}

/-- A line that does not end the level is passed over. -/
theorem seek_cons_goes (goes : depth = 0 → ∀ directive, line.directive = some directive →
    directive ∉ closers) :
    seek closers depth (line :: rest) =
      (seek closers (line.depthBehind depth) rest).map (· + 1) := by
  obtain ⟨text, directive⟩ := line
  cases directive with
  | none => exact seek_cons_plain text
  | some directive => exact seek_cons_passed text fun level => goes level directive rfl

/-- A search that succeeds stops at the first line, or goes on behind it. -/
theorem seek_cons_cases (found : seek closers depth (line :: rest) = some count) :
    (depth = 0 ∧ count = 0 ∧ ∃ directive ∈ closers, line.directive = some directive) ∨
    ((depth = 0 → ∀ directive, line.directive = some directive → directive ∉ closers) ∧
      ∃ count', count = count' + 1 ∧ seek closers (line.depthBehind depth) rest = some count') := by
  by_cases stops : depth = 0 ∧ ∃ directive ∈ closers, line.directive = some directive
  · obtain ⟨rfl, directive, member, stands⟩ := stops
    obtain ⟨text, _⟩ := line
    obtain rfl : _ = some directive := stands
    rw [seek_cons_found text member] at found
    exact .inl ⟨rfl, (Option.some.inj found).symm, directive, member, rfl⟩
  · have goes : depth = 0 → ∀ directive, line.directive = some directive →
        directive ∉ closers := by
      intro level directive stands member
      exact stops ⟨level, directive, member, stands⟩
    rw [seek_cons_goes goes, Option.map_eq_some_iff] at found
    obtain ⟨count', found, rfl⟩ := found
    exact .inr ⟨goes, count', rfl, found⟩

/-- A search stops in front of a directive that it looks for. -/
theorem directive_of_seek (found : seek closers depth rest = some count) :
    ∃ directive ∈ closers, rest[count]?.bind Line.directive = some directive := by
  induction rest generalizing depth count with
  | nil => exact nomatch found
  | cons line rest ih =>
    rcases seek_cons_cases found with ⟨-, rfl, directive, member, stands⟩ | ⟨-, count, rfl, later⟩
    · exact ⟨directive, member, stands⟩
    · exact ih later

theorem seek_body_at_close (stands : rest.head?.bind Line.directive = some .close) :
    seek Extent.body.closers 0 rest = some 0 := by
  obtain ⟨⟨text, _⟩, first, closes⟩ := Option.bind_eq_some_iff.mp stands
  obtain rfl : _ = some Directive.close := closes
  obtain ⟨behind, rfl⟩ := List.head?_eq_some_iff.mp first
  exact seek_cons_found text (by decide)

theorem seek_body_at_otherwise (stands : rest.head?.bind Line.directive = some .otherwise) :
    seek Extent.body.closers 0 rest = (seek Extent.body.closers 0 (rest.drop 1)).map (· + 1) := by
  obtain ⟨⟨text, _⟩, first, middle⟩ := Option.bind_eq_some_iff.mp stands
  obtain rfl : _ = some Directive.otherwise := middle
  obtain ⟨behind, rfl⟩ := List.head?_eq_some_iff.mp first
  exact seek_cons_passed text fun _ => by decide

/-- A search for an `#end` can be made in two parts, up to the first directive that ends a branch
and from there. -/
theorem seek_body_of_branch (found : seek Extent.branch.closers depth rest = some count) :
    seek Extent.body.closers depth rest =
      (seek Extent.body.closers 0 (rest.drop count)).map (· + count) := by
  induction rest generalizing depth count with
  | nil => exact nomatch found
  | cons line rest ih =>
    rcases seek_cons_cases found with ⟨rfl, rfl, -⟩ | ⟨goes, count, rfl, later⟩
    · exact Option.map_id_apply.symm
    · have goes' : depth = 0 → ∀ directive, line.directive = some directive →
          directive ∉ Extent.body.closers := by
        intro level directive stands member
        exact goes level directive stands (List.mem_cons_of_mem _ member)
      rw [seek_cons_goes goes', ih later, map_add_map_add, List.drop_succ_cons]

/-- **A search from inside a block** goes on behind the `#end` of that block. -/
theorem seek_deeper (found : seek Extent.body.closers depth rest = some count)
    (closers : List Directive) (above : Nat) :
    seek closers (depth + above + 1) rest =
      (seek closers above (rest.drop (count + 1))).map (· + (count + 1)) := by
  induction rest generalizing depth count with
  | nil => exact nomatch found
  | cons line rest ih =>
    have deep : depth + above + 1 = 0 → ∀ directive, line.directive = some directive →
        directive ∉ closers := fun level => absurd level (Nat.succ_ne_zero _)
    rw [seek_cons_goes deep]
    rcases seek_cons_cases found with
      ⟨rfl, rfl, directive, member, stands⟩ | ⟨goes, count, rfl, later⟩
    · obtain rfl : directive = .close := List.mem_singleton.mp member
      have closed : line.depthBehind (0 + above + 1) = above := by
        rw [Line.depthBehind, stands, Nat.zero_add]
        rfl
      rw [closed]
      rfl
    · have deeper : line.depthBehind (depth + above + 1) = line.depthBehind depth + above + 1 := by
        unfold Line.depthBehind
        cases stands : line.directive with
        | none => rfl
        | some directive =>
          cases directive with
          | conditional => simp only [Directive.depthAfter]; omega
          | otherwise => rfl
          | loop => simp only [Directive.depthAfter]; omega
          | close =>
            -- at depth zero the search would have stopped here
            have inner : depth ≠ 0 := fun level => goes level _ stands (by decide)
            simp only [Directive.depthAfter]
            omega
      rw [deeper, ih later, map_add_map_add, List.drop_succ_cons]

/-- **A search for an `#end` finds the one that matches**, by the count of the blocks that open and
close on the way. -/
theorem matchingEnd_of_seek (found : seek Extent.body.closers 0 rest = some count) :
    MatchingEnd rest count := by
  have counts {depth count : Nat} {rest : List Line}
      (found : seek Extent.body.closers depth rest = some count) :
      net (rest.take count) = -depth ∧ ∀ before ≤ count, -depth ≤ net (rest.take before) := by
    induction rest generalizing depth count with
    | nil => exact nomatch found
    | cons line rest ih =>
      have start : -(depth : Int) ≤ 0 := by omega
      rcases seek_cons_cases found with ⟨rfl, rfl, -⟩ | ⟨goes, count, rfl, later⟩
      · refine ⟨rfl, ?_⟩
        intro before none
        rw [Nat.le_zero.mp none]
        exact start
      · obtain ⟨settled, inside⟩ := ih later
        have step : -(line.depthBehind depth : Int) + line.balance = -depth := by
          unfold Line.depthBehind Line.balance
          cases stands : line.directive with
          | none => simp only [Int.add_zero]
          | some directive =>
            cases directive with
            | conditional => simp only [Directive.depthAfter]; omega
            | otherwise => simp only [Directive.depthAfter, Int.add_zero]
            | loop => simp only [Directive.depthAfter]; omega
            | close =>
              have inner : depth ≠ 0 := fun level => goes level _ stands (by decide)
              simp only [Directive.depthAfter]
              omega
        constructor
        · rw [List.take_succ_cons, net_cons, settled]
          omega
        · intro before within
          cases before with
          | zero => exact start
          | succ before =>
            have open' := inside before (Nat.le_of_succ_le_succ within)
            rw [List.take_succ_cons, net_cons]
            omega
  obtain ⟨directive, member, stands⟩ := directive_of_seek found
  obtain rfl : directive = .close := List.mem_singleton.mp member
  obtain ⟨settled, inside⟩ := counts found
  exact ⟨stands, settled, inside⟩

/-! ## Steps that find what ends a level -/

theorem Cursor.forward_forward (cursor : Cursor) (first second : Nat) :
    (cursor.forward first).forward second = cursor.forward (second + first) := by
  simp only [Cursor.forward, List.drop_drop, Nat.add_assoc, Nat.add_comm first second]

/-- The directive behind some lines. -/
theorem Cursor.directive?_forward (cursor : Cursor) (count : Nat) :
    (cursor.forward count).directive? = cursor.rest[count]?.bind Line.directive := by
  simp only [Cursor.directive?, Cursor.forward, List.head?_drop]

variable {setting : Setting} {extent : Extent} {s : State} {first second step : Step}

/-- Two steps in a row succeed one after the other. -/
theorem Step.andThen_succeeds (succeeds : ((first.andThen second) s).failure = none) :
    (first s).failure = none ∧ (second (first s).state).failure = none ∧
      ((first.andThen second) s).state = (second (first s).state).state := by
  unfold Step.andThen at succeeds ⊢
  cases fails : (first s).failure with
  | some failure =>
    simp only [fails, reduceCtorEq] at succeeds
  | none =>
    simp only [fails] at succeeds ⊢
    exact ⟨trivial, succeeds, trivial⟩

/-- A success of the step leads in front of the directive that a search finds. -/
def Step.FindsFrom (extent : Extent) (step : Step) (s : State) : Prop :=
  (step s).failure = none → ∃ count, seek extent.closers 0 s.cursor.rest = some count ∧
    (step s).state.cursor = s.cursor.forward count

namespace Step.FindsFrom

theorem skip (inner : extent ≠ .whole) : (Step.skip extent).FindsFrom extent s := by
  intro succeeds
  obtain ⟨count, found, arrives⟩ := skip_succeeds inner succeeds
  exact ⟨count, found, by rw [arrives]⟩

theorem inScope (finds : step.FindsFrom extent ⟨s.cursor, s.scopes.push⟩) :
    (Step.inScope step).FindsFrom extent s :=
  finds

/-- A branch, and what follows from there up to the `#end`. -/
theorem andThen (left : first.FindsFrom .branch s)
    (right : (∃ directive ∈ Extent.branch.closers,
      (first s).state.cursor.directive? = some directive) →
        second.FindsFrom .body (first s).state) :
    (first.andThen second).FindsFrom .body s := by
  intro succeeds
  obtain ⟨now, later, leads⟩ := andThen_succeeds succeeds
  obtain ⟨count, found, arrives⟩ := left now
  have stops := directive_of_seek found
  rw [← Cursor.directive?_forward, ← arrives] at stops
  obtain ⟨count', found', arrives'⟩ := right stops later
  refine ⟨count' + count, ?_, ?_⟩
  · have split := seek_body_of_branch found
    rw [arrives] at found'
    rw [split, show seek Extent.body.closers 0 (s.cursor.rest.drop count) = some count' from found']
    rfl
  · rw [leads, arrives', arrives, Cursor.forward_forward]

/-- At the end of a branch there is an `#else` to go on from, or the `#end` is reached. -/
theorem atOtherwise
    (stops : ∃ directive ∈ Extent.branch.closers, s.cursor.directive? = some directive)
    (middle : s.cursor.directive? = some .otherwise → step.FindsFrom .body s) :
    (Step.atOtherwise step).FindsFrom .body s := by
  unfold FindsFrom Step.atOtherwise
  split
  next isMiddle => exact middle isMiddle
  next notMiddle =>
    intro _
    obtain ⟨directive, member, stands⟩ := stops
    have closes : s.cursor.directive? = some .close := by
      rcases List.mem_cons.mp member with rfl | last
      · exact absurd stands notMiddle
      · rw [stands, List.mem_singleton.mp last]
    exact ⟨0, seek_body_at_close closes, rfl⟩

/-- From an `#else`, the part behind it is rendered. -/
theorem forward (middle : s.cursor.directive? = some .otherwise)
    (finds : step.FindsFrom .body ⟨s.cursor.forward 1, s.scopes⟩) :
    ((Step.forward 1).andThen step).FindsFrom .body s := by
  intro succeeds
  obtain ⟨-, later, leads⟩ := andThen_succeeds succeeds
  obtain ⟨count, found, arrives⟩ := finds later
  refine ⟨count + 1, ?_, ?_⟩
  · rw [seek_body_at_otherwise middle,
      show seek Extent.body.closers 0 (s.cursor.rest.drop 1) = some count from found]
    rfl
  · rw [leads, ← Cursor.forward_forward]
    exact arrives

end Step.FindsFrom

/-- A header leads behind the `#end` that its part stops in front of. -/
theorem header_leads_behind {log : List Entry}
    (part : step.FindsFrom .body ⟨s.cursor.forward 1, s.scopes⟩)
    (succeeds : ((Step.write log).andThen ((Step.forward 1).andThen
      (step.andThen (.forward 1))) s).failure = none) :
    ∃ count, seek Extent.body.closers 0 (s.cursor.forward 1).rest = some count ∧
      ((Step.write log).andThen ((Step.forward 1).andThen
        (step.andThen (.forward 1))) s).state.cursor = s.cursor.forward (count + 2) := by
  obtain ⟨-, succeeds, leads⟩ := Step.andThen_succeeds succeeds
  obtain ⟨-, succeeds, leads'⟩ := Step.andThen_succeeds succeeds
  obtain ⟨now, -, leads''⟩ := Step.andThen_succeeds succeeds
  obtain ⟨count, found, arrives⟩ := part now
  refine ⟨count, found, ?_⟩
  rw [leads, leads', leads'']
  show (step ⟨s.cursor.forward 1, s.scopes⟩).state.cursor.forward 1 = _
  rw [arrives, Cursor.forward_forward, Cursor.forward_forward]
  exact congrArg s.cursor.forward (by omega)

section Headers

variable {block : Extent → Step}
  (finds : ∀ extent, extent ≠ .whole → ∀ s, (block extent).FindsFrom extent s)
include finds

/-- Whichever branch a condition takes, it stops in front of the `#end`. -/
theorem branch_finds (holds : Bool) : (branch block holds).FindsFrom .body s := by
  cases holds with
  | true =>
    exact .andThen (finds .branch branch_ne_whole s) fun stops =>
      .atOtherwise stops fun _ => .skip body_ne_whole
  | false =>
    exact .andThen (.skip branch_ne_whole) fun stops =>
      .atOtherwise stops fun middle => .forward middle (finds .body body_ne_whole _)

/-- Every pass of a loop ends in front of the same `#end`. -/
theorem each_finds (name : String) (start : Cursor) (item : Value) (items : List Value)
    (succeeds : (each block name start (item :: items) s).failure = none) :
    ∃ count, seek Extent.body.closers 0 start.rest = some count ∧
      (each block name start (item :: items) s).state.cursor = start.forward count := by
  induction items generalizing item s with
  | nil =>
    obtain ⟨-, succeeds, leads⟩ := Step.andThen_succeeds succeeds
    obtain ⟨-, succeeds, leads'⟩ := Step.andThen_succeeds succeeds
    obtain ⟨pass, -, leads''⟩ := Step.andThen_succeeds succeeds
    rw [each, leads, leads', leads'']
    exact finds .body body_ne_whole _ pass
  | cons next items ih =>
    obtain ⟨-, succeeds, leads⟩ := Step.andThen_succeeds succeeds
    obtain ⟨-, succeeds, leads'⟩ := Step.andThen_succeeds succeeds
    obtain ⟨-, others, leads''⟩ := Step.andThen_succeeds succeeds
    rw [each, leads, leads', leads'']
    exact ih next others

theorem conditional_finds (text : List Char)
    (succeeds : (conditional setting block text s).failure = none) :
    ∃ count, seek Extent.body.closers 0 (s.cursor.forward 1).rest = some count ∧
      (conditional setting block text s).state.cursor = s.cursor.forward (count + 2) := by
  unfold conditional at succeeds ⊢
  cases reads : Header.conditionPath? text with
  | none =>
    rw [reads] at succeeds
    exact nomatch succeeds
  | some path =>
    rw [reads] at succeeds
    exact header_leads_behind (branch_finds finds _) succeeds

theorem loop_finds (text : List Char) (succeeds : (loop setting block text s).failure = none) :
    ∃ count, seek Extent.body.closers 0 (s.cursor.forward 1).rest = some count ∧
      (loop setting block text s).state.cursor = s.cursor.forward (count + 2) := by
  unfold loop at succeeds ⊢
  cases reads : Header.loop? text with
  | none =>
    rw [reads] at succeeds
    exact nomatch succeeds
  | some header =>
    simp only [reads] at succeeds ⊢
    cases iterates : (s.scopes.lookup setting.provider header.container).bind Value.items? with
    | none =>
      rw [iterates] at succeeds
      exact nomatch succeeds
    | some items =>
      rw [iterates] at succeeds
      refine header_leads_behind (.inScope ?_) succeeds
      cases items with
      | nil => exact .skip body_ne_whole
      | cons item items => exact each_finds finds header.item (s.cursor.forward 1) item items

/-- **A header that is handled leads behind its own `#end`.** -/
theorem handle_leads_behind (next : s.cursor.rest = line :: rest)
    (opens : line.directive = some .conditional ∨ line.directive = some .loop)
    (succeeds : (handle setting block line s).failure = none) :
    ∃ count, seek Extent.body.closers 0 rest = some count ∧
      (handle setting block line s).state.cursor = s.cursor.forward (count + 2) := by
  have behind : (s.cursor.forward 1).rest = rest := by
    rw [Cursor.forward, next]
    rfl
  rw [← behind]
  rcases opens with stands | stands
  · simp only [handle, stands] at succeeds ⊢
    exact conditional_finds finds line.text succeeds
  · simp only [handle, stands] at succeeds ⊢
    exact loop_finds finds line.text succeeds

/-- **A line that does not end its level leads to where a search goes on.** -/
theorem handle_passes_search (inner : extent ≠ .whole) (next : s.cursor.rest = line :: rest)
    (goes : ∀ directive, line.directive = some directive → directive ∉ extent.closers)
    (succeeds : (handle setting block line s).failure = none) :
    ∃ count, seek extent.closers 0 s.cursor.rest =
        (seek extent.closers 0 (s.cursor.rest.drop count)).map (· + count) ∧
      (handle setting block line s).state.cursor = s.cursor.forward count := by
  have onward (level : Line.depthBehind 0 line = 0) : seek extent.closers 0 s.cursor.rest =
      (seek extent.closers 0 (s.cursor.rest.drop 1)).map (· + 1) := by
    rw [next, seek_cons_goes fun _ => goes, level]
    rfl
  have into (opens : line.directive = some .conditional ∨ line.directive = some .loop) :
      ∃ count, seek extent.closers 0 s.cursor.rest =
          (seek extent.closers 0 (s.cursor.rest.drop count)).map (· + count) ∧
        (handle setting block line s).state.cursor = s.cursor.forward count := by
    obtain ⟨count, found, arrives⟩ := handle_leads_behind finds next opens succeeds
    have deeper : Line.depthBehind 0 line = 0 + 0 + 1 := by
      rcases opens with stands | stands <;> rw [Line.depthBehind, stands] <;> rfl
    refine ⟨count + 2, ?_, arrives⟩
    rw [next, seek_cons_goes fun _ => goes, deeper, seek_deeper found extent.closers 0,
      map_add_map_add]
    rfl
  cases stands : line.directive with
  | none =>
    refine ⟨1, onward (by rw [Line.depthBehind, stands]), ?_⟩
    simp only [handle, stands]
    rfl
  | some directive =>
    cases directive with
    | conditional => exact into (.inl stands)
    | loop => exact into (.inr stands)
    | close => exact (goes _ stands (close_mem_closers inner)).elim
    | otherwise =>
      refine ⟨1, onward (by rw [Line.depthBehind, stands]; rfl), ?_⟩
      simp only [handle, stands, stray] at succeeds ⊢
      cases policy : setting.strays with
      | skip => rfl
      | reject =>
        rw [policy] at succeeds
        exact (Option.some_ne_none _ succeeds).elim

end Headers

/-- The input does not end inside a block without a failure. -/
theorem atEnd_fails (inner : extent ≠ .whole) (s : State) :
    (Step.atEnd extent s).failure ≠ none := by
  cases extent with
  | whole => exact (inner rfl).elim
  | branch => exact nofun
  | body => exact nofun

/-- **A block that is rendered finds what ends it**, whatever is ahead of it. -/
theorem lines_finds (ahead : Nat) (inner : extent ≠ .whole) (s : State) :
    (lines setting ahead extent).FindsFrom extent s := by
  induction ahead generalizing extent s with
  | zero =>
    intro succeeds
    exact (atEnd_fails inner s succeeds).elim
  | succ ahead ih =>
    intro succeeds
    rcases lines_cases ahead extent s with
      ⟨_, ends⟩ | ⟨first, rest, directive, next, stands, member, stops⟩ |
        ⟨first, rest, next, goes, handles⟩
    · rw [ends] at succeeds
      exact (atEnd_fails inner s succeeds).elim
    · obtain ⟨text, _⟩ := first
      obtain rfl : _ = some directive := stands
      refine ⟨0, ?_, by rw [stops]; rfl⟩
      rw [next]
      exact seek_cons_found text member
    · have blocks (extent : Extent) (inner : extent ≠ .whole) (s : State) :
          (Render.block setting ahead extent).FindsFrom extent s :=
        .inScope (ih inner _)
      rw [handles] at succeeds ⊢
      obtain ⟨now, later, leads⟩ := Step.andThen_succeeds succeeds
      obtain ⟨passed, splits, moves⟩ := handle_passes_search blocks inner next goes now
      obtain ⟨count, found, arrives⟩ := ih inner _ later
      rw [moves] at found arrives
      refine ⟨count + passed, ?_, ?_⟩
      · rw [splits, show seek extent.closers 0 (s.cursor.rest.drop passed) = some count from found]
        rfl
      · rw [leads, arrives, Cursor.forward_forward]

/-- **Rendering a block and passing over it stop at the same line.** A block that is rendered from a
state without a failure is passed over from there without one, up to the same directive, which is
one that ends it; where the search fails, the render does. So a header that is handled without a
failure leads behind the `#end` that matches it, which is the same for every provider, every policy
for strays and all scopes. -/
theorem block_stops_where_sought (setting : Setting) (ahead : Nat) {extent : Extent}
    (inner : extent ≠ .whole) (s : State) :
    ((block setting ahead extent s).failure = none →
      (Step.skip extent s).failure = none ∧
      (block setting ahead extent s).state.cursor = (Step.skip extent s).state.cursor ∧
      ∃ directive ∈ extent.closers,
        (block setting ahead extent s).state.cursor.directive? = some directive) ∧
    ((Step.skip extent s).failure ≠ none → (block setting ahead extent s).failure ≠ none) ∧
    ∀ header rest, s.cursor.rest = header :: rest →
      (header.directive = some .conditional ∨ header.directive = some .loop) →
      (handle setting (block setting ahead) header s).failure = none →
      ∃ count, MatchingEnd rest count ∧
        (handle setting (block setting ahead) header s).state.cursor =
          s.cursor.forward (count + 2) ∧
        ∀ setting' ahead' scopes',
          (handle setting' (block setting' ahead') header ⟨s.cursor, scopes'⟩).failure = none →
          (handle setting' (block setting' ahead') header ⟨s.cursor, scopes'⟩).state.cursor =
            s.cursor.forward (count + 2) := by
  have finds (setting : Setting) (ahead : Nat) (extent : Extent) (inner : extent ≠ .whole)
      (s : State) : (block setting ahead extent).FindsFrom extent s :=
    .inScope (lines_finds ahead inner _)
  have both (succeeds : (block setting ahead extent s).failure = none) :
      (Step.skip extent s).failure = none ∧
      (block setting ahead extent s).state.cursor = (Step.skip extent s).state.cursor ∧
      ∃ directive ∈ extent.closers,
        (block setting ahead extent s).state.cursor.directive? = some directive := by
    obtain ⟨count, found, arrives⟩ := finds setting ahead extent inner s succeeds
    have skips : Step.skip extent s = Step.forward count s := by
      simp only [Step.skip, found]
    rw [skips, arrives, Cursor.directive?_forward]
    exact ⟨rfl, rfl, directive_of_seek found⟩
  refine ⟨both, fun fails succeeds => fails (both succeeds).1, ?_⟩
  intro header rest next opens succeeds
  obtain ⟨count, found, arrives⟩ := handle_leads_behind (finds setting ahead) next opens succeeds
  refine ⟨count, matchingEnd_of_seek found, arrives, ?_⟩
  intro setting' ahead' scopes' succeeds'
  obtain ⟨count', found', arrives'⟩ :=
    handle_leads_behind (s := ⟨s.cursor, scopes'⟩) (finds setting' ahead') next opens succeeds'
  rw [found] at found'
  rw [arrives', Option.some.inj found']

/-- A condition inside a first part, in front of the `#else` that ends it, read with either truth
value. -/
theorem block_stops_where_sought_nested :
    let header : Line := ⟨"#if ($a)".toList, some .conditional⟩
    let behind : List Line := [⟨['x'], none⟩, ⟨"#else".toList, some .otherwise⟩, ⟨['y'], none⟩,
      ⟨"#end".toList, some .close⟩, ⟨"#else".toList, some .otherwise⟩]
    let s : State := ⟨Cursor.start (header :: behind), Scopes.root⟩
    let setting (holds : Bool) : Setting :=
      ⟨Table.provider (.ofEntries [("a", .bool holds)]), .reject⟩
    ((block (setting true) 6 .branch s).failure = none ∧
      (block (setting true) 6 .branch s).state.cursor = (Step.skip .branch s).state.cursor) ∧
    ∃ count, MatchingEnd behind count ∧
      (handle (setting true) (block (setting true) 6) header s).state.cursor =
        s.cursor.forward (count + 2) ∧
      (handle (setting false) (block (setting false) 6) header s).state.cursor =
        s.cursor.forward (count + 2) := by
  intro header behind s setting
  obtain ⟨both, -, headers⟩ :=
    block_stops_where_sought (setting true) 6 (show Extent.branch ≠ .whole by decide) s
  have renders : (block (setting true) 6 .branch s).failure = none := by decide +kernel
  have handled (holds : Bool) :
      (handle (setting holds) (block (setting holds) 6) header s).failure = none := by
    cases holds <;> decide +kernel
  have next : s.cursor.rest = header :: behind := rfl
  have opens : header.directive = some .conditional ∨ header.directive = some .loop := .inl rfl
  clear_value s header behind setting
  obtain ⟨count, closing, arrives, others⟩ := headers header behind next opens (handled true)
  exact ⟨⟨renders, (both renders).2.1⟩, count, closing, arrives,
    others (setting false) 6 s.scopes (handled false)⟩

end Render

end LineTemplate
