import Mathlib.Data.List.ReduceOption
import LineTemplate.Proofs.Concatenation
import LineTemplate.Proofs.OpenBlocks
import LineTemplate.Proofs.OpenScopes
import LineTemplate.Proofs.Writing

/-!
# The loops around a line

A survey knows the open loops from the lines alone, a render has them as scopes. In every state that
a render visits, the scopes stand for the blocks of the survey one by one (`visited_nests`), so the
two know the same names in the same order (`visited_matches`): the parts that the render has jumped
over and the passes that it has repeated leave no trace in either.

The proof follows the visits. Behind a line that has been handled stand closed nodes, over which the
survey comes back to its blocks; into a block, both go one level deeper.
-/

namespace LineTemplate

open Render

namespace Scopes

/-- The scopes bind the names of the open blocks, in their order, and no value is `null`. -/
def Matches (scopes : Scopes) (blocks : List (Option String)) : Prop :=
  ∃ env : Environment, scopes.Binds env ∧ env.map Prod.fst = blocks.reduceOption ∧
    ∀ binding ∈ env, binding.2.isNull = false

variable {scopes : Scopes} {blocks : List (Option String)}

theorem matches_root : root.Matches [] :=
  ⟨[], binds_root, rfl, nofun⟩

theorem Matches.push (same : scopes.Matches blocks) : scopes.push.Matches blocks := by
  obtain ⟨env, binds, names, values⟩ := same
  exact ⟨env, binds.push, names, values⟩

/-- A condition opens a block that binds nothing. -/
theorem Matches.condition (same : scopes.Matches blocks) : scopes.Matches (none :: blocks) := by
  obtain ⟨env, binds, names, values⟩ := same
  exact ⟨env, binds, names, values⟩

theorem Matches.loop (same : scopes.Matches blocks) (name : String) (item : Value) :
    Matches ⟨.single name (loopItem item) :: scopes.inner⟩ (some name :: blocks) := by
  obtain ⟨env, binds, names, values⟩ := same
  refine ⟨(name, loopItem item) :: env, binds.loop name _, congrArg (name :: ·) names, ?_⟩
  intro binding member
  rcases List.mem_cons.mp member with rfl | outer
  · exact loopItem_isNull item
  · exact values binding outer

end Scopes

/-- Scopes and the blocks that they are opened for, innermost first. The whole text and the part of
a condition have the scope of a block, and a pass of a loop has the scope of its item around it. -/
inductive Nests : List OpenScope → List (Option String) → Prop
  | whole : Nests [.block] []
  | condition {opened : List OpenScope} {blocks : List (Option String)}
    (nests : Nests opened blocks) : Nests (.block :: opened) (none :: blocks)
  | pass {name : String} {item : Value} {opened : List OpenScope} {blocks : List (Option String)}
    (nests : Nests opened blocks) :
    Nests (.block :: .loop name (some item) :: opened) (some name :: blocks)

namespace Nests

variable {opened : List OpenScope} {blocks : List (Option String)}

theorem scopes_matches (nests : Nests opened blocks) :
    (Scopes.root.above opened).Matches blocks := by
  induction nests with
  | whole => exact Scopes.matches_root.push
  | condition _ ih => exact ih.push.condition
  | @pass name item _ _ _ ih => exact (ih.loop name item).push

/-- From the outermost scope to the innermost one, the names are those of the open loops. -/
theorem names_eq (nests : Nests opened blocks) :
    (Scopes.root.above opened).inner.reverse.flatMap Entries.names =
      blocks.reverse.reduceOption := by
  rw [Scopes.inner_root_above]
  induction nests with
  | whole => rfl
  | condition _ ih =>
    rw [List.map_cons, List.reverse_cons, List.flatMap_append, ih, List.reverse_cons,
      List.reduceOption_append]
    rfl
  | pass _ ih =>
    rw [List.map_cons, List.map_cons, List.reverse_cons, List.reverse_cons, List.flatMap_append,
      List.flatMap_append, ih, List.reverse_cons, List.reduceOption_append, List.append_assoc]
    rfl

/-- The scope of a loop binds one name, that of a block none, and no value is `null`. -/
theorem bindings_eq (nests : Nests opened blocks) : ∀ scope ∈ (Scopes.root.above opened).inner,
    scope = .empty ∨ ∃ name ∈ blocks.reduceOption, ∃ value,
      value ≠ .null ∧ scope = .single name value := by
  intro scope member
  rw [Scopes.inner_root_above] at member
  induction nests with
  | whole => exact .inl (List.mem_singleton.mp member)
  | condition _ ih =>
    rcases List.mem_cons.mp member with block | outer
    · exact .inl block
    · exact ih outer
  | @pass name item _ _ _ ih =>
    rcases List.mem_cons.mp member with block | outer
    · exact .inl block
    · rcases List.mem_cons.mp outer with loop | outer
      · exact .inr ⟨name, List.mem_cons_self, _, Scopes.loopItem_ne_null item, loop⟩
      · refine (ih outer).imp_right ?_
        rintro ⟨name, bound, value⟩
        exact ⟨name, List.mem_cons_of_mem _ bound, value⟩

end Nests

namespace Render

variable {setting : Setting} {ahead : Nat} {extent : Extent} {s t m : State}

/-- A line that is handled without a failure is the first one of a closed node, and the render goes
on behind that node with the scopes it had. -/
theorem handle_passes {line : Line} {rest : List Line} (next : s.cursor.rest = line :: rest)
    (goes : ∀ directive, line.directive = some directive → directive ∉ extent.closers)
    (bound : s.cursor.rest.length ≤ ahead + 1) {env : Environment} (binds : s.scopes.Binds env)
    (handled : (handle setting (block setting ahead) line s).failure = none) :
    ∃ (node : Node) (behind : List Line), node.Fits extent False ∧
      s.cursor.rest = node.lines ++ behind ∧
      (handle setting (block setting ahead) line s).state =
        ⟨⟨s.cursor.line + node.lines.length, behind⟩, s.scopes⟩ := by
  obtain ⟨⟨number, lines⟩, scopes⟩ := s
  obtain rfl : lines = line :: rest := next
  obtain ⟨node, behind, rfl, spelled, fits⟩ := exists_first_node line rest
  rw [spelled] at bound handled ⊢
  have performs : Performs (handle setting (block setting ahead) node.head)
      ⟨⟨number, node.lines ++ behind⟩, scopes⟩ (node.eval setting number env)
      ⟨⟨number + node.lines.length, behind⟩, scopes⟩ := handle_performs node fits binds id bound
  have succeeds : (node.eval setting number env).failure = none :=
    performs.report_eq ▸ handled
  have closed := fits.closed_of_succeeds succeeds
  exact ⟨node, behind, closed.at_level goes, rfl, performs.arrives succeeds⟩

/-- Each pass begins at the first line of the body, with one name in the scope of the loop. -/
theorem Begins.state_eq {name : String} {start : Cursor} {items : List Value}
    (begins : Begins (block setting ahead .body) name start items s t) {scope : Dict Value}
    {inner : List (Dict Value)} (scopes : s.scopes = ⟨scope :: inner⟩)
    (loopScope : LoopScope name scope) :
    ∃ item, t = ⟨start, ⟨.single name (loopItem item) :: inner⟩⟩ := by
  have bound {s : State} {scope : Dict Value} (item : Value) (scopes : s.scopes = ⟨scope :: inner⟩)
      (loopScope : LoopScope name scope) :
      s.scopes.bind name (loopItem item) = ⟨.single name (loopItem item) :: inner⟩ := by
    rw [scopes, Scopes.bind, loopScope.insert]
  induction begins generalizing scope with
  | @first item items s => exact ⟨item, by rw [bound item scopes loopScope]⟩
  | @later item items s t passes begins ih =>
    have keeps : (block setting ahead .body).Keeps id :=
      .inScope (lines_keeps ahead .body).part_of_all
    exact ih ((keeps _).trans (bound item scopes loopScope)) (.inr ⟨loopItem item, rfl⟩)

/-- The state stands behind these lines, and its scopes are those of the blocks that are open
there. -/
structure Located (front : List Line) (ahead : Nat) (extent : Extent) (s : State) : Prop where
  number : s.cursor.line = 1 + front.length
  bound : s.cursor.rest.length ≤ ahead
  nests : ∃ opened, s.scopes = Scopes.root.above opened ∧ Nests opened (Survey.ofLines front).blocks
  top : extent = .whole → (Survey.ofLines front).blocks = []

theorem ofLines_append_blocks (front back : List Line) :
    (Survey.ofLines (front ++ back)).blocks =
      back.foldl Survey.blocksBehind (Survey.ofLines front).blocks := by
  rw [Survey.ofLines, List.foldl_append, Survey.visits_blocks]
  rfl

/-- Behind a line that has been handled the survey has the blocks it had in front of it. -/
theorem Located.behind {front : List Line} (located : Located front (ahead + 1) extent s)
    {line : Line} {rest : List Line} (next : s.cursor.rest = line :: rest)
    (goes : ∀ directive, line.directive = some directive → directive ∉ extent.closers)
    (handled : (handle setting (block setting ahead) line s).failure = none) :
    ∃ passed, s.cursor.rest =
        passed ++ (handle setting (block setting ahead) line s).state.cursor.rest ∧
      Located (front ++ passed) ahead extent
        (handle setting (block setting ahead) line s).state := by
  obtain ⟨opened, scopes, nests⟩ := located.nests
  obtain ⟨env, binds, -⟩ := nests.scopes_matches
  obtain ⟨node, behind, fits, spelled, arrives⟩ :=
    handle_passes next goes located.bound (scopes ▸ binds) handled
  have same : (Survey.ofLines (front ++ node.lines)).blocks = (Survey.ofLines front).blocks := by
    rw [ofLines_append_blocks, Survey.blocks_lines node fits _ located.top]
  obtain ⟨inner, begins⟩ := node.exists_lines_eq_head_cons
  rw [arrives]
  refine ⟨node.lines, spelled, ?_, ?_, ?_, ?_⟩
  · rw [located.number, List.length_append, Nat.add_assoc]
  · have bound := located.bound
    rw [spelled, begins, List.length_append, List.length_cons] at bound
    show behind.length ≤ ahead
    omega
  · rw [same]
    exact ⟨opened, scopes, nests⟩
  · rw [same]
    exact located.top

/-- The first part of a condition is passed over with its `#else`. -/
theorem skipped_part {cursor : Cursor} {count : Nat}
    (skips : seek Extent.branch.closers 0 cursor.rest = some count)
    (middle : (cursor.forward count).directive? = some .otherwise) :
    ∃ passed, cursor.rest = passed ++ ((cursor.forward count).forward 1).rest ∧
      cursor.line + count + 1 = cursor.line + passed.length ∧
      ∀ blocks, passed.foldl Survey.blocksBehind blocks = blocks := by
  obtain ⟨number, rest⟩ := cursor
  replace middle : (rest.drop count).head?.bind Line.directive = some .otherwise := middle
  show ∃ passed, rest = passed ++ (rest.drop count).drop 1 ∧ _
  cases stops : rest.drop count with
  | nil =>
    rw [stops] at middle
    exact nomatch middle
  | cons line behind =>
    rw [stops] at middle
    have long : count ≤ rest.length := by
      have some := congrArg List.length stops
      rw [List.length_drop, List.length_cons] at some
      omega
    refine ⟨rest.take count ++ [line], ?_, ?_, ?_⟩
    · rw [List.append_assoc, List.singleton_append]
      exact (List.take_append_drop count rest).symm.trans (congrArg _ stops)
    · rw [List.length_append, List.length_take_of_le long]
      rfl
    · intro blocks
      have passes := Survey.blocks_seek (by decide) skips [] rfl blocks
      replace passes : (rest.take count).foldl Survey.blocksBehind blocks = blocks := passes
      rw [List.foldl_append, passes, List.foldl_cons, Survey.blocksBehind,
        show line.directive = some .otherwise from middle]
      rfl

/-- In front of a block that a line opens the survey has opened it too. -/
theorem Located.inside {front : List Line} (located : Located front (ahead + 1) extent s)
    {line : Line} {rest : List Line} (next : s.cursor.rest = line :: rest) {inner : Extent}
    (opens : Opens setting (block setting ahead) line s inner t) :
    ∃ passed, s.cursor.rest = passed ++ t.cursor.rest ∧
      Located (front ++ passed) ahead inner ⟨t.cursor, t.scopes.push⟩ := by
  obtain ⟨⟨number, lines⟩, scopes⟩ := s
  obtain rfl : lines = line :: rest := next
  obtain ⟨text, directive⟩ := line
  obtain ⟨count, bound, ⟨outer, rfl, nests⟩, -⟩ := located
  have bound' : rest.length ≤ ahead := Nat.le_of_succ_le_succ bound
  cases opens with
  | yes found header holds =>
    obtain rfl := found
    have opened : (Survey.ofLines (front ++ [⟨text, some .conditional⟩])).blocks =
        none :: (Survey.ofLines front).blocks := ofLines_append_blocks front _
    refine ⟨[⟨text, some .conditional⟩], rfl, ?_, bound', ?_, ?_⟩
    · rw [List.length_append, ← Nat.add_assoc, ← count]
      rfl
    · rw [opened]
      exact ⟨_, rfl, nests.condition⟩
    · intro whole
      exact absurd whole branch_ne_whole
  | no found header fails skips middle =>
    obtain rfl := found
    obtain ⟨passed, parts, place, passes⟩ := skipped_part skips middle
    replace parts : rest = passed ++ _ := parts
    have opened : (Survey.ofLines (front ++ ⟨text, some .conditional⟩ :: passed)).blocks =
        none :: (Survey.ofLines front).blocks := by
      rw [ofLines_append_blocks, List.foldl_cons, passes]
      rfl
    refine ⟨⟨text, some .conditional⟩ :: passed, congrArg _ parts, ?_, ?_, ?_, ?_⟩
    · apply place.trans
      rw [List.length_append, List.length_cons]
      replace count : number = 1 + front.length := count
      show number + 1 + _ = _
      omega
    · rw [parts, List.length_append] at bound'
      exact Nat.le_trans (Nat.le_add_left _ _) bound'
    · rw [opened]
      exact ⟨_, rfl, nests.condition⟩
    · intro whole
      exact absurd whole body_ne_whole
  | @pass header items t found reads iterates begins =>
    obtain rfl := found
    obtain ⟨item, rfl⟩ := begins.state_eq rfl (.inl rfl)
    have opened : (Survey.ofLines (front ++ [⟨text, some .loop⟩])).blocks =
        some header.item :: (Survey.ofLines front).blocks := by
      rw [ofLines_append_blocks, List.foldl_cons, Survey.blocksBehind, reads]
      rfl
    refine ⟨[⟨text, some .loop⟩], rfl, ?_, bound', ?_, ?_⟩
    · rw [List.length_append, ← Nat.add_assoc, ← count]
      rfl
    · rw [opened]
      exact ⟨_, rfl, nests.pass⟩
    · intro whole
      exact absurd whole body_ne_whole

/-- **The survey knows the loops that a render is in**, in every state that the render visits. -/
theorem visits_located {front : List Line} (located : Located front ahead extent s)
    (visits : Visits setting ahead extent s m) :
    ∃ front' ahead' extent', front' ++ m.cursor.rest = front ++ s.cursor.rest ∧
      Located front' ahead' extent' m := by
  induction visits generalizing front with
  | here => exact ⟨front, _, _, rfl, located⟩
  | behind next goes handled _ ih =>
    obtain ⟨passed, parts, behind⟩ := located.behind next goes handled
    obtain ⟨front', ahead', extent', whole, located'⟩ := ih behind
    exact ⟨front', ahead', extent', by rw [whole, parts, List.append_assoc], located'⟩
  | inside next opens _ ih =>
    obtain ⟨passed, parts, inside⟩ := located.inside next opens
    obtain ⟨front', ahead', extent', whole, located'⟩ := ih inside
    exact ⟨front', ahead', extent', by rw [whole, parts, List.append_assoc], located'⟩

/-- The lines in front of the one that is read are those that its number counts, and the scopes are
opened for the blocks that their survey has open. -/
theorem visited_nests {all : List Line} (visited : Visited setting all m) :
    all.take (m.cursor.line - 1) ++ m.cursor.rest = all ∧
      ∃ opened, m.scopes = Scopes.root.above opened ∧
        Nests opened (Survey.ofLines (all.take (m.cursor.line - 1))).blocks := by
  have start : Located [] all.length .whole ⟨Cursor.start all, Scopes.root.push⟩ :=
    ⟨rfl, Nat.le_refl _, ⟨_, rfl, .whole⟩, fun _ => rfl⟩
  obtain ⟨front, _, _, whole, located⟩ := visits_located start visited
  replace whole : front ++ m.cursor.rest = all := whole
  have before : all.take (m.cursor.line - 1) = front := by
    rw [located.number, Nat.add_sub_cancel_left, ← whole, List.take_left]
  rw [before]
  exact ⟨whole, located.nests⟩

/-- The scopes bind the names that the survey has open. -/
theorem visited_matches {all : List Line} (visited : Visited setting all m) :
    all.take (m.cursor.line - 1) ++ m.cursor.rest = all ∧
      m.scopes.Matches (Survey.ofLines (all.take (m.cursor.line - 1))).blocks := by
  obtain ⟨whole, opened, scopes, nests⟩ := visited_nests visited
  rw [scopes]
  exact ⟨whole, nests.scopes_matches⟩

end Render

/-- **A render is in the loops that a survey has open.** Whenever a line is read, the survey of the
lines in front of it has a block for each block around the line, in the same order: the scopes are
opened for these blocks, from the outermost one to the innermost one their names are those of the
open loops, and no value in them is `null`. Lines are read nowhere else: what a render writes is
written by such a line, and what it looks up is looked up for one. -/
theorem Template.visited_in_open_loops (template : Template) (provider : Provider)
    (config : Config) :
    (∀ m, Visited ⟨provider, config.strays⟩ template.lines m →
      let front := template.lines.take (m.cursor.line - 1)
      let blocks := (Survey.ofLines front).blocks
      front ++ m.cursor.rest = template.lines ∧
      (∃ opened, m.scopes = Scopes.root.above opened ∧ Nests opened blocks) ∧
      m.scopes.inner.reverse.flatMap Entries.names = blocks.reverse.reduceOption ∧
      ∀ scope ∈ m.scopes.inner, scope = .empty ∨
        ∃ name ∈ blocks.reduceOption, ∃ value, value ≠ .null ∧ scope = .single name value) ∧
    (∀ entry ∈ (template.outcome provider config).log,
      ∃ m, Visited ⟨provider, config.strays⟩ template.lines m ∧
        Writes ⟨provider, config.strays⟩ m entry) ∧
    ∀ other : Provider, provider.display = other.display →
      (∀ m, Visited ⟨provider, config.strays⟩ template.lines m →
        ∀ path ∈ m.reads, m.scopes.lookup provider path = m.scopes.lookup other path) →
      template.outcome provider config = template.outcome other config := by
  refine ⟨fun m visited => ?_, fun entry member => mem_log_run member,
    fun other display agree => run_congr display agree⟩
  obtain ⟨whole, opened, scopes, nests⟩ := visited_nests visited
  refine ⟨whole, ⟨opened, scopes, nests⟩, ?_⟩
  rw [scopes]
  exact ⟨nests.names_eq, nests.bindings_eq⟩

/-- In the second part of a condition, in a loop: the part that was jumped over has opened a block
of its own and closed it, and the loop is the only one that binds a name. -/
theorem Template.visited_in_open_loops_second_part :
    ∃ m, Visited ⟨Table.provider (.ofEntries [("n", .list [.null])]), .skip⟩
        (Template.ofText "#foreach ($i in $n)\n#if ($b)\n#if\n#end\n#else\nx\n#end").lines m ∧
      m.cursor.line = 6 ∧
      m.scopes.inner.reverse.flatMap Entries.names = ["i"] ∧
      ∀ scope ∈ m.scopes.inner,
        scope = .empty ∨ ∃ value, value ≠ .null ∧ scope = .single "i" value := by
  have lines : (Template.ofText
      "#foreach ($i in $n)\n#if ($b)\n#if\n#end\n#else\nx\n#end").lines =
      [⟨"#foreach ($i in $n)".toList, some .loop⟩, ⟨"#if ($b)".toList, some .conditional⟩,
        ⟨"#if".toList, some .conditional⟩, ⟨"#end".toList, some .close⟩,
        ⟨"#else".toList, some .otherwise⟩, ⟨"x".toList, none⟩, ⟨"#end".toList, some .close⟩] := by
    decide +kernel
  have visited : Visited ⟨Table.provider (.ofEntries [("n", .list [.null])]), .skip⟩
      (Template.ofText "#foreach ($i in $n)\n#if ($b)\n#if\n#end\n#else\nx\n#end").lines
      ⟨⟨6, [⟨"x".toList, none⟩, ⟨"#end".toList, some .close⟩]⟩,
        ⟨[.empty, .empty, .single "i" (.string "null"), .empty]⟩⟩ := by
    have reads : Header.loop? "#foreach ($i in $n)".toList = some ⟨"i", "n"⟩ := by decide +kernel
    have iterates : (Scopes.lookup (Table.provider (.ofEntries [("n", .list [.null])]))
        Scopes.root.push "n").bind Value.items? = some [.null] := by cbv
    have header : Header.conditionPath? "#if ($b)".toList = some "b" := by decide +kernel
    have fails : ((Scopes.lookup (Table.provider (.ofEntries [("n", .list [.null])]))
        ⟨[.empty, .single "i" (.string "null"), .empty]⟩ "b").map Value.isTrue).getD false =
        false := by cbv
    rw [Visited, lines]
    exact .inside rfl (.pass rfl reads iterates .first)
      (.inside rfl (.no rfl header fails rfl rfl) .here)
  obtain ⟨known, -⟩ := visited_in_open_loops
    (Template.ofText "#foreach ($i in $n)\n#if ($b)\n#if\n#end\n#else\nx\n#end")
    (Table.provider (.ofEntries [("n", .list [.null])])) .standard
  obtain ⟨-, -, names, bindings⟩ := known _ visited
  have blocks : (Survey.ofLines ((Template.ofText
      "#foreach ($i in $n)\n#if ($b)\n#if\n#end\n#else\nx\n#end").lines.take 5)).blocks =
      [none, some "i"] := by decide +kernel
  have inOrder := congrArg (fun blocks => blocks.reverse.reduceOption) blocks
  refine ⟨_, visited, rfl, names.trans inOrder, ?_⟩
  intro scope member
  refine (bindings scope member).imp_right ?_
  rintro ⟨name, bound, value⟩
  replace bound : name ∈ (Survey.ofLines (List.take 5 _)).blocks.reduceOption := bound
  rw [blocks] at bound
  exact List.mem_singleton.mp bound ▸ value

end LineTemplate
