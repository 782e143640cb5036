import Mathlib.Data.List.ReduceOption
import LineTemplate.Proofs.LoopNames

/-!
# The paths that a render asks for

**The law** (`Template.render_eq_of_variables`): a path that a render looks up is answered by a loop
when the survey takes it for bound there, and is listed when the survey does not. So providers that
agree on the listed paths, and on the properties and the display of values, give the same render.

The survey and the scopes of a render know the same loops (`visited_matches`), and a render depends
on nothing but the look-ups in the states it visits (`run_congr`). What is shown here is that a
look-up under a loop name stays inside the loop, and that the survey lists every other one.
-/

namespace LineTemplate

open Render (State Visited)

/-! ## The paths of a survey -/

namespace Survey

theorem subset_note (survey : Survey) (path : String) :
    survey.paths ⊆ (survey.note path).paths := by
  unfold note
  split
  · exact List.Subset.refl _
  · exact List.subset_append_left _ _

theorem subset_notes (paths : List String) (survey : Survey) :
    survey.paths ⊆ (paths.foldl note survey).paths := by
  induction paths generalizing survey with
  | nil => exact List.Subset.refl _
  | cons path paths ih => exact List.Subset.trans (subset_note survey path) (ih _)

theorem subset_visit (survey : Survey) (line : Line) :
    survey.paths ⊆ (survey.visit line).paths := by
  unfold visit
  split
  · exact subset_notes _ survey
  · split
    · exact subset_note survey _
    · exact List.Subset.refl _
  · split
    · exact subset_note survey _
    · exact List.Subset.refl _
  · exact List.Subset.refl _
  · exact List.Subset.refl _

theorem subset_visits (lines : List Line) (survey : Survey) :
    survey.paths ⊆ (lines.foldl visit survey).paths := by
  induction lines generalizing survey with
  | nil => exact List.Subset.refl _
  | cons line lines ih => exact List.Subset.trans (subset_visit survey line) (ih _)

theorem isBound_congr {first second : Survey} (same : first.blocks = second.blocks)
    (path : String) : first.isBound path = second.isBound path := by
  unfold isBound
  rw [same]

theorem mem_note {survey : Survey} {path : String} (free : survey.isBound path = false) :
    path ∈ (survey.note path).paths := by
  unfold note
  rw [free, Bool.false_or]
  split
  next noted => exact List.contains_iff_mem.mp noted
  next => exact List.mem_append_right _ (List.mem_singleton_self path)

theorem mem_notes {paths : List String} {path : String} (member : path ∈ paths) {survey : Survey}
    (free : survey.isBound path = false) : path ∈ (paths.foldl note survey).paths := by
  induction paths generalizing survey with
  | nil => exact (List.not_mem_nil member).elim
  | cons first paths ih =>
    rcases List.mem_cons.mp member with rfl | later
    · exact subset_notes paths _ (mem_note free)
    · refine ih later ?_
      rw [isBound_congr (note_blocks survey first), free]

/-- **A path that a line reads is listed**, unless an open loop binds it. -/
theorem mem_visit {survey : Survey} {line : Line} {path : String} (member : path ∈ line.reads)
    (free : survey.isBound path = false) : path ∈ (survey.visit line).paths := by
  unfold Line.reads at member
  unfold visit
  split at member
  next found =>
    rw [found]
    exact mem_notes member free
  next found =>
    rw [Option.mem_toList] at member
    rw [found, member]
    exact mem_note free
  next found =>
    rw [Option.mem_toList, Option.map_eq_some_iff] at member
    obtain ⟨header, reads, rfl⟩ := member
    rw [found, reads]
    exact mem_note free
  next => exact (List.not_mem_nil member).elim
  next => exact (List.not_mem_nil member).elim

end Survey

/-! ## Look-ups -/

/-- A provider's answers below a value follow from its properties of values. -/
theorem Provider.navigate_congr {p q : Provider}
    (properties : ∀ value name,
      present (p.property (some value) name) = present (q.property (some value) name))
    (segments : List String) (value : Value) :
    p.navigate segments value = q.navigate segments value := by
  induction segments generalizing value with
  | nil => rfl
  | cons segment segments ih =>
    rw [Provider.navigate, Provider.navigate, properties]
    cases present (q.property (some value) segment) with
    | none => rfl
    | some found => exact ih found

namespace Environment

/-- A name that is bound is answered, whatever the provider has for it. -/
theorem head?_of_mem {env : Environment} (values : ∀ binding ∈ env, binding.2.isNull = false)
    {name : String} (member : name ∈ env.map Prod.fst) :
    ∃ value, ∀ provider, env.scopes.head? provider name = some value := by
  have answered : ∃ value,
      (env.scopes.inner.findSome? fun scope => present (scope.get? name)) = some value := by
    induction env with
    | nil => exact (List.not_mem_nil member).elim
    | cons binding env ih =>
      obtain ⟨key, value⟩ := binding
      rw [scopes, List.map_cons, List.findSome?_cons]
      by_cases same : key = name
      · have some : present (some value) = some value := by
          rw [present, Option.filter_some, values _ List.mem_cons_self]
          rfl
        rw [Dict.get?_single, if_pos same, some]
        exact ⟨value, rfl⟩
      · rw [Dict.get?_single, if_neg same]
        have later : name ∈ env.map Prod.fst :=
          (List.mem_cons.mp member).resolve_left (Ne.symm same)
        exact ih (fun binding inner => values binding (List.mem_cons_of_mem _ inner)) later
  obtain ⟨value, answered⟩ := answered
  exact ⟨value, fun provider => by rw [Scopes.head?, answered, Option.some_or]⟩

/-- A name that is not bound is left to the provider. -/
theorem head?_of_not_mem {env : Environment} {name : String} (free : name ∉ env.map Prod.fst)
    (provider : Provider) : env.scopes.head? provider name = Scopes.root.head? provider name := by
  have unanswered :
      (env.scopes.inner.findSome? fun scope => present (scope.get? name)) = none := by
    rw [List.findSome?_eq_none_iff]
    intro scope member
    obtain ⟨binding, bound, rfl⟩ := List.mem_map.mp member
    have other : binding.1 ≠ name := by
      rintro rfl
      exact free (List.mem_map_of_mem bound)
    rw [Dict.get?_single, if_neg other]
    rfl
  rw [Scopes.head?, unanswered]
  rfl

end Environment

namespace Scopes.Matches

variable {scopes : Scopes} {survey : Survey} {path : String}

/-- A path under the name of an open loop is looked up inside the loop. -/
theorem lookup_bound (same : scopes.Matches survey.blocks) (bound : survey.isBound path = true)
    {p q : Provider} (properties : ∀ value name,
      present (p.property (some value) name) = present (q.property (some value) name)) :
    scopes.lookup p path = scopes.lookup q path := by
  obtain ⟨env, binds, names, values⟩ := same
  rw [binds.lookup_eq, binds.lookup_eq]
  unfold Environment.lookup Scopes.lookup
  unfold Survey.isBound at bound
  cases h : pathSegments path with
  | nil => rfl
  | cons first rest =>
    rw [h] at bound
    have member : first ∈ env.map Prod.fst := by
      rw [names, List.reduceOption_mem_iff]
      exact List.contains_iff_mem.mp bound
    obtain ⟨value, answered⟩ := Environment.head?_of_mem values member
    simp only [answered]
    exact Provider.navigate_congr properties rest value

/-- Every other path is looked up at the root. -/
theorem lookup_free (same : scopes.Matches survey.blocks) (free : survey.isBound path = false)
    (provider : Provider) : scopes.lookup provider path = root.lookup provider path := by
  obtain ⟨env, binds, names, -⟩ := same
  rw [binds.lookup_eq]
  unfold Environment.lookup Scopes.lookup
  unfold Survey.isBound at free
  cases h : pathSegments path with
  | nil => rfl
  | cons first rest =>
    rw [h] at free
    have absent : first ∉ env.map Prod.fst := by
      rw [names, List.reduceOption_mem_iff]
      intro member
      exact Bool.eq_false_iff.mp free (List.contains_iff_mem.mpr member)
    simp only [Environment.head?_of_not_mem absent]

end Scopes.Matches

/-! ## The law -/

/-- A path that is looked up in a visited state is listed, unless an open loop binds it there. -/
theorem Render.visited_listed {setting : Render.Setting} {all : List Line} {m : State}
    (visited : Visited setting all m) {path : String} (member : path ∈ m.reads)
    (free : (Survey.ofLines (all.take (m.cursor.line - 1))).isBound path = false) :
    path ∈ (Survey.ofLines all).paths := by
  obtain ⟨whole, -⟩ := visited_matches visited
  unfold State.reads at member
  cases next : m.cursor.rest with
  | nil =>
    rw [next] at member
    exact (List.not_mem_nil member).elim
  | cons line rest =>
    rw [next] at member whole
    have listed : path ∈ ((Survey.ofLines (all.take (m.cursor.line - 1))).visit line).paths :=
      Survey.mem_visit member free
    rw [← whole, Survey.ofLines, List.foldl_append, List.foldl_cons]
    exact Survey.subset_visits rest _ listed

/-- **The survey lists all that a render asks the root for.** Providers that agree on the listed
paths, on the properties of values, and on their display give the same render. In every state that a
render visits, a path that is looked up is listed, unless an open loop binds its first segment; then
no root can change the answer. -/
theorem Template.render_eq_of_variables (template : Template) (config : Config) :
    (∀ p q : Provider, p.display = q.display →
      (∀ value name,
        present (p.property (some value) name) = present (q.property (some value) name)) →
      (∀ path ∈ template.variables,
        Scopes.root.lookup p path = Scopes.root.lookup q path) →
      template.render p config = template.render q config) ∧
    ∀ (p : Provider) (m : State), Visited ⟨p, config.strays⟩ template.lines m →
      ∀ path ∈ m.reads,
        if (Survey.ofLines (template.lines.take (m.cursor.line - 1))).isBound path then
          ∀ q : Provider,
            (∀ value name, q.property (some value) name = p.property (some value) name) →
            m.scopes.lookup q path = m.scopes.lookup p path
        else path ∈ template.variables := by
  constructor
  · intro p q display properties listed
    have agree (m : State) (visited : Visited ⟨p, config.strays⟩ template.lines m) (path : String)
        (member : path ∈ m.reads) : m.scopes.lookup p path = m.scopes.lookup q path := by
      obtain ⟨-, same⟩ := Render.visited_matches visited
      cases bound : (Survey.ofLines (template.lines.take (m.cursor.line - 1))).isBound path with
      | true => exact same.lookup_bound bound properties
      | false =>
        rw [same.lookup_free bound, same.lookup_free bound]
        exact listed path (Render.visited_listed visited member bound)
    have outcome := Render.run_congr display agree
    simp only [Template.render, Template.outcome, outcome]
  · intro p m visited path member
    obtain ⟨-, same⟩ := Render.visited_matches visited
    split
    next bound =>
      intro q properties
      exact same.lookup_bound bound fun value name => by rw [properties]
    next free => exact Render.visited_listed visited member (Bool.eq_false_iff.mpr free)

/-- A root value with the name of a loop item is not shown in the loop. -/
theorem Template.render_eq_of_variables_shadowed :
    let template := Template.ofText "#foreach ($i in $n)\n$\x7bi\x7d$\x7bs\x7d\n#end"
    let free := Table.provider (.ofEntries [("n", .list [.int 1]), ("s", .string "-")])
    let shadowed :=
      Table.provider (.ofEntries [("i", .int 7), ("n", .list [.int 1]), ("s", .string "-")])
    template.render free .standard = template.render shadowed .standard ∧
    ∃ m, Visited ⟨free, .skip⟩ template.lines m ∧ m.cursor.line = 2 ∧
      m.scopes.lookup shadowed "i" = m.scopes.lookup free "i" := by
  intro template free shadowed
  have lines : template.lines =
      [⟨"#foreach ($i in $n)".toList, some .loop⟩, ⟨"$\x7bi\x7d$\x7bs\x7d".toList, none⟩,
        ⟨"#end".toList, some .close⟩] := by decide +kernel
  obtain ⟨equal, answers⟩ := render_eq_of_variables template .standard
  constructor
  · refine equal _ _ rfl (fun _ _ => rfl) ?_
    have listed : template.variables = ["n", "s"] := by decide +kernel
    rw [listed]
    intro path member
    rcases List.mem_pair.mp member with rfl | rfl <;> cbv
  · have reads : Header.loop? "#foreach ($i in $n)".toList = some ⟨"i", "n"⟩ := by decide +kernel
    have iterates : (Scopes.root.push.lookup free "n").bind Value.items? = some [.int 1] := by cbv
    have visited : Visited ⟨free, .skip⟩ template.lines
        ⟨⟨2, [⟨"$\x7bi\x7d$\x7bs\x7d".toList, none⟩, ⟨"#end".toList, some .close⟩]⟩,
          ⟨[.empty, .single "i" (.int 1), .empty]⟩⟩ := by
      rw [Visited, lines]
      exact .inside rfl (.pass rfl reads iterates .first) .here
    refine ⟨_, visited, rfl, ?_⟩
    have bound := answers _ _ visited "i" (by decide +kernel)
    rw [if_pos (by decide +kernel)] at bound
    exact bound _ fun _ _ => rfl

end LineTemplate
