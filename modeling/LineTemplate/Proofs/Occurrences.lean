import LineTemplate.Proofs.AnyOrder
import LineTemplate.Proofs.Segments

/-!
# Where a name is written

The scan accepts a reference by its place: a run is one when all of it is a name in braces. A name
is then replaced wherever its reference is written, also where more of the run follows. The two are
the same on a line that spells its names at their references only (`SpellsOnlyReferences`).

Such a line is formatted in a single pass when no display has a dollar sign or a closing brace
(`format_eq_of_spells`): what is shown then completes no reference either. The proof follows the
names over the segments of the line; `close_not_mem_filled` is the invariant that carries it.
-/

namespace LineTemplate.Reference

/-- On the line, a name that is referred to and has a value is written at references only. -/
def SpellsOnlyReferences (provider : Provider) (scopes : Scopes) (line : List Char) : Prop :=
  ∀ name ∈ names line, (shown provider scopes name).isSome →
    ∀ back, '$' :: back <:+ line → braced name <+: back → behind? back = some name

variable {provider : Provider} {scopes : Scopes} {name : String} {text rest : List Char}
  {segments : List Segment} {done : List String}

namespace Segment

/-- A run shows a name that is done and has a value, or it stays. -/
theorem filled_run (provider : Provider) (scopes : Scopes) (done : List String)
    (text : List Char) :
    (∃ other found, Reference.name? text = some other ∧ other ∈ done ∧
      shown provider scopes other = some found ∧
      (run text).filled provider scopes done = found) ∨
    (run text).filled provider scopes done = '$' :: text ∧
      ∀ other ∈ done, Reference.name? text = some other → shown provider scopes other = none := by
  cases reference : Reference.name? text with
  | none => exact .inr ⟨filled_plain reference, fun other _ same => nomatch same⟩
  | some other =>
    by_cases member : other ∈ done
    · cases shows : shown provider scopes other with
      | none =>
        right
        constructor
        · rw [filled_done reference member, inserted, shows, Option.getD_none, written_eq,
            (name?_eq_some.mp reference).1]
        · rintro _ - ⟨⟩
          exact shows
      | some found =>
        refine .inl ⟨other, found, rfl, member, shows, ?_⟩
        rw [filled_done reference member, inserted, shows, Option.getD_some]
    · right
      constructor
      · simp only [filled, reference, if_neg member]
      · rintro _ member' ⟨⟩
        exact absurd member' member

theorem filled_nil (segment : Segment) : segment.filled provider scopes [] = segment.spell := by
  cases segment with
  | char c => rfl
  | run text =>
    rcases filled_run provider scopes [] text with ⟨other, -, -, member, -⟩ | ⟨now, -⟩
    · exact (List.not_mem_nil member).elim
    · exact now

/-- One more name changes no segment but its own references, and these only if it has a value. -/
theorem filled_concat {segment : Segment}
    (other : segment.name? = some name → shown provider scopes name = none) :
    segment.filled provider scopes (done ++ [name]) = segment.filled provider scopes done := by
  cases segment with
  | char c => rfl
  | run text =>
    have unchanged (reference : Reference.name? text = some name) :
        inserted provider scopes name = '$' :: text := by
      rw [inserted, other reference, Option.getD_none, written_eq, (name?_eq_some.mp reference).1]
    cases reference : Reference.name? text with
    | none => rw [filled_plain reference, filled_plain reference]
    | some found =>
      by_cases same : found = name
      · subst same
        simp only [filled, reference, unchanged reference, ite_self]
      · simp only [filled, reference, List.mem_append, List.mem_singleton, same, or_false]

end Segment

/-- No closing brace is reached over from the end of a run, neither in the line nor in what is shown
there. -/
theorem close_not_mem_filled (plain : ShowsNo provider scopes '}') (maximal : Maximal segments)
    (stops : Stops (joined segments)) :
    '}' ∉ (segments.flatMap (Segment.filled provider scopes done)).takeWhile goesOn := by
  induction segments with
  | nil => exact List.not_mem_nil
  | cons segment segments ih =>
    rw [List.flatMap_cons]
    cases segment with
    | char c =>
      have ends : ¬ goesOn c = true := by
        rw [stops c rfl]
        exact nofun
      show '}' ∉ (c :: (_ : List Char)).takeWhile goesOn
      rw [List.takeWhile_cons_of_neg ends]
      exact List.not_mem_nil
    | run text =>
      obtain ⟨-, stops', maximal⟩ := maximal
      rcases Segment.filled_run provider scopes done text with
        ⟨other, found, -, -, shows, now⟩ | ⟨now, -⟩
      · rw [now, List.takeWhile_append]
        split
        · rw [List.mem_append, not_or]
          exact ⟨plain _ _ shows, ih maximal stops'⟩
        · intro inside
          exact plain _ _ shows ((List.takeWhile_prefix goesOn).subset inside)
      · rw [now, List.cons_append, List.takeWhile_cons_of_neg (by decide)]
        exact List.not_mem_nil

/-- What is shown for a name is left alone, when it has no dollar sign. -/
theorem replaceAll_plain {front : List Char} (plain : '$' ∉ front) (value : List Char) :
    Text.replaceAll (written name) value (front ++ rest) =
      front ++ Text.replaceAll (written name) value rest := by
  induction front with
  | nil => rfl
  | cons c front ih =>
    have begins : ¬ written name <+: c :: (front ++ rest) := by
      intro occurs
      exact plain ((List.cons_prefix_cons.mp occurs).1 ▸ List.mem_cons_self)
    rw [List.cons_append, Text.replaceAll_cons begins,
      ih fun member => plain (List.mem_cons_of_mem c member), List.cons_append]

/-- A run that does not spell the name is left alone, when no closing brace can be reached over from
its end. -/
theorem replaceAll_run (runs : ∀ c ∈ braced name, goesOn c = true)
    (missing : ¬ braced name <+: text) (plain : ∀ c ∈ text, c ≠ '$')
    (far : '}' ∉ rest.takeWhile goesOn) (value : List Char) :
    Text.replaceAll (written name) value ('$' :: text ++ rest) =
      '$' :: text ++ Text.replaceAll (written name) value rest := by
  have begins : ¬ written name <+: '$' :: (text ++ rest) := by
    intro occurs
    have inside : braced name <+: text ++ rest := (List.cons_prefix_cons.mp occurs).2
    rcases List.prefix_or_prefix_of_prefix inside (List.prefix_append text rest) with
      within | ⟨beyond, parts⟩
    · exact missing within
    · -- the name would run on behind the run, up to its closing brace
      rw [← parts, List.prefix_append_right_inj] at inside
      obtain ⟨back, rfl⟩ := inside
      have stretch : ∀ c ∈ beyond, goesOn c = true := by
        intro c member
        exact runs c (parts ▸ List.mem_append_right text member)
      rw [List.takeWhile_append_of_pos stretch, List.mem_append, not_or] at far
      have nonempty : beyond ≠ [] := by
        rintro rfl
        rw [List.append_nil] at parts
        exact missing (parts ▸ List.prefix_refl _)
      have last : (braced name).getLast? = some '}' := by
        rw [braced, ← List.cons_append, List.getLast?_concat]
      rw [← parts, List.getLast?_append_of_ne_nil _ nonempty] at last
      exact far.1 (List.mem_of_getLast? last)
  have noDollar : '$' ∉ text := fun member => plain '$' member rfl
  rw [List.cons_append, Text.replaceAll_cons begins, replaceAll_plain noDollar value,
    List.cons_append]

/-- **One step**: a name is replaced at its references only. -/
theorem replaceAll_segments (plain : ShowsNo provider scopes '$')
    (plain' : ShowsNo provider scopes '}') (runs : ∀ c ∈ braced name, goesOn c = true)
    {value : List Char} (shows : shown provider scopes name = some value)
    (maximal : Maximal segments)
    (own : ∀ text, .run text ∈ segments → braced name <+: text → name? text = some name) :
    Text.replaceAll (written name) value (segments.flatMap (Segment.filled provider scopes done)) =
      segments.flatMap (Segment.filled provider scopes (done ++ [name])) := by
  induction segments with
  | nil => rfl
  | cons segment segments ih =>
    have own' (text : List Char) (member : .run text ∈ segments) :=
      own text (List.mem_cons_of_mem _ member)
    rw [List.flatMap_cons, List.flatMap_cons]
    cases segment with
    | char c =>
      have missing : '$' ∉ [c] := by
        intro member
        exact maximal.1 (List.mem_singleton.mp member).symm
      exact (replaceAll_plain missing value).trans (congrArg _ (ih maximal.2 own'))
    | run text =>
      obtain ⟨runs', stops, maximal⟩ := maximal
      have rest := ih maximal own'
      rcases Segment.filled_run provider scopes done text with
        ⟨other, found, reference, member, shows', now⟩ | ⟨now, -⟩
      · have next : (Segment.run text).filled provider scopes (done ++ [name]) = found := by
          rw [Segment.filled_done reference (List.mem_append_left _ member), inserted, shows',
            Option.getD_some]
        rw [now, next, replaceAll_plain (plain _ _ shows') value, rest]
      · by_cases same : name? text = some name
        · have next : (Segment.run text).filled provider scopes (done ++ [name]) = value := by
            rw [Segment.filled_done same (List.mem_append_right _ List.mem_cons_self), inserted,
              shows, Option.getD_some]
          obtain ⟨rfl, -⟩ := name?_eq_some.mp same
          rw [now, next, ← written_eq, Text.replaceAll_mark (written_ne_nil name), rest]
        · have kept : (Segment.run text).filled provider scopes (done ++ [name]) =
              (Segment.run text).filled provider scopes done :=
            Segment.filled_concat fun reference => absurd reference same
          have missing : ¬ braced name <+: text := fun spelled =>
            same (own text List.mem_cons_self spelled)
          rw [kept, now, replaceAll_run runs missing (ne_dollar_of_runs runs')
            (close_not_mem_filled plain' maximal stops) value, rest]

theorem substitute_segments (plain : ShowsNo provider scopes '$')
    (plain' : ShowsNo provider scopes '}') (runs : ∀ c ∈ braced name, goesOn c = true)
    (maximal : Maximal segments)
    (own : (shown provider scopes name).isSome → ∀ text, .run text ∈ segments →
      braced name <+: text → name? text = some name) :
    substitute provider scopes (segments.flatMap (Segment.filled provider scopes done)) name =
      segments.flatMap (Segment.filled provider scopes (done ++ [name])) := by
  rcases substitute_cases provider scopes (segments.flatMap (Segment.filled provider scopes done))
    name with ⟨hides, unchanged⟩ | ⟨value, shows, replaced⟩
  · have same : Segment.filled provider scopes (done ++ [name]) =
        Segment.filled provider scopes done :=
      funext fun segment => Segment.filled_concat fun _ => hides
    rw [unchanged, same]
  · rw [replaced]
    exact replaceAll_segments plain plain' runs shows maximal (own (by rw [shows]; rfl))

/-- A line that spells its names at their references only has no run that begins with another of
its names. -/
theorem SpellsOnlyReferences.run (spells : SpellsOnlyReferences provider scopes (joined segments))
    (maximal : Maximal segments) (member : name ∈ names (joined segments))
    (some : (shown provider scopes name).isSome) {text : List Char} (inside : .run text ∈ segments)
    (begins : braced name <+: text) : name? text = Option.some name := by
  obtain ⟨runs, rest, stands, stops⟩ := maximal.exists_rest inside
  have found := spells name member some _ stands (begins.trans (List.prefix_append text rest))
  rwa [behind?_run runs stops] at found

/-- **When the place does not matter**: a line that spells its names at their references only is
formatted in a single pass, if no display has a dollar sign or a closing brace. -/
theorem format_eq_of_spells (plain : ShowsNo provider scopes '$')
    (plain' : ShowsNo provider scopes '}') {line : List Char}
    (spells : SpellsOnlyReferences provider scopes line) :
    format provider scopes line = singlePass provider scopes line := by
  obtain ⟨segments, maximal, rfl⟩ := exists_segments line
  have steps (done todo : List String) (inLine : ∀ name ∈ todo, name ∈ names (joined segments)) :
      todo.foldl (substitute provider scopes)
          (segments.flatMap (Segment.filled provider scopes done)) =
        segments.flatMap (Segment.filled provider scopes (done ++ todo)) := by
    induction todo generalizing done with
    | nil => rw [List.foldl_nil, List.append_nil]
    | cons name todo ih =>
      have member := inLine name List.mem_cons_self
      rw [List.foldl_cons, substitute_segments plain plain' (goesOn_of_mem_names member).2 maximal
        fun some text => spells.run maximal member some, List.append_cons done name todo]
      exact ih (done ++ [name]) fun other inside => inLine other (List.mem_cons_of_mem name inside)
  have start : segments.flatMap (Segment.filled provider scopes []) = joined segments :=
    congrArg (segments.flatMap ·) (funext Segment.filled_nil)
  have formats := steps [] (names (joined segments)) fun name => id
  rw [start] at formats
  exact formats.trans (singlePass_joined maximal (mem_names_of_segment maximal)).symm

end LineTemplate.Reference
