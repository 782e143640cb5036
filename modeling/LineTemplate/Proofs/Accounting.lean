import Mathlib.Algebra.GroupWithZero.Nat
import Mathlib.Algebra.Order.BigOperators.Group.List
import LineTemplate.Proofs.Occurrences

/-!
# What formatting takes away

When no display has some character, every occurrence of that character in the result was one in the
line, and what is gone was part of a reference that has been replaced. There are two such accounts:
of the names one after the other (`count_foldl_substitute`), and of a single pass
(`count_singlePass`).

Compared for the dollar sign and for the closing brace, they show that a line which is formatted as
in a single pass spells its names at references only (`spells_of_format_eq`). With the converse this
is the law `format_eq_singlePass_iff_spells`.
-/

namespace LineTemplate.Reference

/-- The texts behind the dollar signs. -/
def behindDollars : List Char → List (List Char)
  | [] => []
  | c :: cs => if c = '$' then cs :: behindDollars cs else behindDollars cs

/-- How often a character stands in references to these names. -/
def weight (c : Char) (names : List String) : Nat :=
  (names.map fun name => (written name).count c).sum

variable (provider : Provider) (scopes : Scopes)

/-- The name of the reference that stands behind a dollar sign, if it has a value. -/
def resolved? (back : List Char) : Option String :=
  (behind? back).filter fun name => (shown provider scopes name).isSome

/-- The first of some names that has a value and is written behind a dollar sign. -/
def spelled? (todo : List String) (back : List Char) : Option String :=
  todo.find? fun name => (shown provider scopes name).isSome && (braced name).isPrefixOf back

/-- The names that are replaced when these names are substituted one after the other, each as often
as it is replaced. -/
def replaced : List String → List Char → List String
  | [], _ => []
  | name :: todo, text =>
    (behindDollars text).filterMap (spelled? provider scopes [name]) ++
      replaced todo (substitute provider scopes text name)

variable {provider scopes} {name other : String} {text back rest : List Char}
  {todo : List String} {c : Char}

/-! ## Places behind dollar signs -/

theorem mem_behindDollars : back ∈ behindDollars text ↔ '$' :: back <:+ text := by
  induction text with
  | nil => simp [behindDollars]
  | cons c cs ih =>
    rw [List.suffix_cons_iff, List.cons.injEq, behindDollars]
    by_cases dollar : c = '$'
    · rw [if_pos dollar, List.mem_cons, ih, and_iff_right dollar.symm]
    · rw [if_neg dollar, ih]
      exact (or_iff_right fun h => dollar h.1.symm).symm

instance (line : List Char) : Decidable (SpellsOnlyReferences provider scopes line) :=
  decidable_of_iff (∀ name ∈ names line, (shown provider scopes name).isSome →
    ∀ back ∈ behindDollars line, braced name <+: back → behind? back = some name) <| by
    simp only [mem_behindDollars, SpellsOnlyReferences]

theorem behindDollars_append {front : List Char} (plain : '$' ∉ front) (rest : List Char) :
    behindDollars (front ++ rest) = behindDollars rest := by
  induction front with
  | nil => rfl
  | cons c front ih =>
    have other : ¬ c = '$' := fun same => plain (same ▸ List.mem_cons_self)
    rw [List.cons_append, behindDollars, if_neg other,
      ih fun member => plain (List.mem_cons_of_mem c member)]

/-- **The scan reads the references behind all dollar signs.** -/
theorem scanFrom_eq (line : List Char) :
    scanFrom none line = (behindDollars line).filterMap behind? := by
  induction line with
  | nil => rfl
  | cons c cs ih =>
    rw [behindDollars]
    by_cases dollar : c = '$'
    · subst dollar
      rw [scanFrom_dollar, if_pos rfl, ih, List.filterMap_cons]
      cases behind? cs <;> rfl
    · rw [scanFrom_other dollar, if_neg dollar, ih]

theorem mem_names_of_behind? {line : List Char} (place : back ∈ behindDollars line)
    (reference : behind? back = some name) : name ∈ names line := by
  rw [mem_names, scanFrom_eq]
  exact List.mem_filterMap.mpr ⟨back, place, reference⟩

theorem weight_append (c : Char) (front back : List String) :
    weight c (front ++ back) = weight c front + weight c back := by
  rw [weight, List.map_append, List.sum_append]
  rfl

theorem weight_cons (c : Char) (name : String) (names : List String) :
    weight c (name :: names) = (written name).count c + weight c names := rfl

/-! ## Names that begin alike -/

/-- A name that is written in the beginning of another one comes before it. -/
theorem le_of_braced_begins (begins : braced name <+: braced other) : name ≤ other := by
  have inner : name.toList ++ ['}'] <+: other.toList ++ ['}'] := (List.cons_prefix_cons.mp begins).2
  have within : name.toList <+: other.toList := by
    have whole : name.toList <+: other.toList ++ ['}'] := (List.prefix_append _ _).trans inner
    apply List.prefix_of_prefix_length_le whole (List.prefix_append _ _)
    have short := inner.length_le
    rw [List.length_append, List.length_append, List.length_singleton] at short
    omega
  have notAfter : ¬ other < name := within.le
  exact not_lt.mp notAfter

/-- A name that is written in the beginning of another one has fewer closing braces. -/
theorem eq_of_braced_begins (begins : braced name <+: braced other)
    (same : (braced name).count '}' = (braced other).count '}') : name = other := by
  obtain ⟨beyond, parts⟩ := begins
  have none : beyond = [] := by
    by_contra nonempty
    have last : (braced other).getLast? = some '}' := by
      rw [braced, ← List.cons_append, List.getLast?_concat]
    rw [← parts, List.getLast?_append_of_ne_nil _ nonempty] at last
    have more := List.count_pos_iff.mpr (List.mem_of_getLast? last)
    rw [← parts, List.count_append] at same
    omega
  rw [none, List.append_nil] at parts
  exact String.toList_inj.mp (List.append_cancel_right (List.cons.inj parts).2)

theorem comparable (first : braced name <+: text) (second : braced other <+: text) :
    braced name <+: braced other ∨ braced other <+: braced name :=
  List.prefix_or_prefix_of_prefix first second

/-! ## The name that is spelled -/

theorem spelled?_eq_some (found : spelled? provider scopes todo back = some name) :
    name ∈ todo ∧ (shown provider scopes name).isSome ∧ braced name <+: back := by
  have holds := List.find?_some found
  rw [Bool.and_eq_true, List.isPrefixOf_iff_prefix] at holds
  exact ⟨List.mem_of_find?_eq_some found, holds⟩

/-- A name that is spelled is not before the one that is found. -/
theorem exists_spelled (increasing : todo.Pairwise (· < ·)) (member : name ∈ todo)
    (value : (shown provider scopes name).isSome) (begins : braced name <+: back) :
    ∃ first, spelled? provider scopes todo back = some first ∧ first ≤ name := by
  have holds : ((shown provider scopes name).isSome && (braced name).isPrefixOf back) = true := by
    rw [Bool.and_eq_true, List.isPrefixOf_iff_prefix]
    exact ⟨value, begins⟩
  have some : (spelled? provider scopes todo back).isSome :=
    List.find?_isSome.mpr ⟨name, member, holds⟩
  obtain ⟨first, found⟩ := Option.isSome_iff_exists.mp some
  refine ⟨first, found, ?_⟩
  obtain ⟨-, before, behind, rfl, missing⟩ := List.find?_eq_some_iff_append.mp found
  obtain ⟨-, later, -⟩ := List.pairwise_append.mp increasing
  rcases List.mem_append.mp member with inside | inside
  · have fails := missing name inside
    rw [holds] at fails
    exact nomatch fails
  · rcases List.mem_cons.mp inside with rfl | inside
    · exact le_refl _
    · exact le_of_lt ((List.pairwise_cons.mp later).1 name inside)

/-- The name that is found stays found where it is still written. -/
theorem spelled?_of_begins (increasing : todo.Pairwise (· < ·))
    (found : spelled? provider scopes todo back = some name) (begins : braced name <+: rest) :
    spelled? provider scopes todo rest = some name := by
  obtain ⟨member, value, begins'⟩ := spelled?_eq_some found
  obtain ⟨first, found', before⟩ := exists_spelled increasing member value begins
  obtain ⟨member', value', first'⟩ := spelled?_eq_some found'
  rcases comparable first' begins with shorter | longer
  · -- the first one there is spelled here too, so it is not before the one that is found here
    obtain ⟨second, found'', after⟩ :=
      exists_spelled increasing member' value' (shorter.trans begins')
    obtain rfl : second = name := Option.some.inj (found''.symm.trans found)
    rw [found', le_antisymm before after]
  · rw [found', le_antisymm before (le_of_braced_begins longer)]

/-! ## The account of the names, one after the other -/

/-- A text without a dollar sign stays in the beginning. -/
theorem prefix_replaceAll {front : List Char} (plain : '$' ∉ front) (begins : front <+: text)
    (value : List Char) : front <+: Text.replaceAll (written name) value text := by
  obtain ⟨rest, rfl⟩ := begins
  rw [replaceAll_plain plain]
  exact List.prefix_append _ _

theorem spelled?_cons_of_not (missing : ¬ ((shown provider scopes name).isSome ∧
    braced name <+: back)) :
    spelled? provider scopes (name :: todo) back = spelled? provider scopes todo back := by
  apply List.find?_cons_of_neg
  rwa [Bool.and_eq_true, List.isPrefixOf_iff_prefix]

theorem spelled?_cons_self (value : (shown provider scopes name).isSome)
    (begins : braced name <+: back) :
    spelled? provider scopes (name :: todo) back = some name := by
  apply List.find?_cons_of_pos
  rw [Bool.and_eq_true, List.isPrefixOf_iff_prefix]
  exact ⟨value, begins⟩

/-- A name that is substituted takes its references away, and puts none of the characters there
that no display has. -/
theorem count_replaceAll {value : List Char} (shows : shown provider scopes name = some value)
    (noDollar : '$' ∉ braced name) (absent : c ∉ value) (text : List Char) :
    (Text.replaceAll (written name) value text).count c +
      weight c ((behindDollars text).filterMap (spelled? provider scopes [name])) =
      text.count c := by
  have hasValue : (shown provider scopes name).isSome := by rw [shows]; rfl
  induction text using Text.mark_induction (written_ne_nil name) with
  | nil => rfl
  | found back ih =>
    have places : behindDollars (written name ++ back) =
        (braced name ++ back) :: behindDollars back := by
      rw [written_eq, List.cons_append, behindDollars, if_pos rfl, behindDollars_append noDollar]
    rw [Text.replaceAll_mark (written_ne_nil name), places,
      List.filterMap_cons_some (spelled?_cons_self hasValue (List.prefix_append _ _)), weight_cons,
      List.count_append, List.count_append, List.count_eq_zero_of_not_mem absent]
    omega
  | other d cs missing ih =>
    have places : (behindDollars (d :: cs)).filterMap (spelled? provider scopes [name]) =
        (behindDollars cs).filterMap (spelled? provider scopes [name]) := by
      rw [behindDollars]
      split
      next dollar =>
        apply List.filterMap_cons_none
        apply spelled?_cons_of_not
        rintro ⟨-, begins⟩
        exact missing (by rw [dollar]; exact List.cons_prefix_cons.mpr ⟨rfl, begins⟩)
      next => rfl
    rw [Text.replaceAll_cons missing, places, List.count_cons, List.count_cons]
    omega

/-- What is spelled is replaced by the name itself, or is still spelled behind the replacement. -/
theorem spelled_subperm {value : List Char} (shows : shown provider scopes name = some value)
    (noDollar : ∀ other ∈ name :: todo, '$' ∉ braced other) (plain : '$' ∉ value)
    (increasing : todo.Pairwise (· < ·)) (text : List Char) :
    ((behindDollars text).filterMap (spelled? provider scopes (name :: todo))).Subperm
      ((behindDollars text).filterMap (spelled? provider scopes [name]) ++
        (behindDollars (Text.replaceAll (written name) value text)).filterMap
          (spelled? provider scopes todo)) := by
  have hasValue : (shown provider scopes name).isSome := by rw [shows]; rfl
  have own := noDollar name List.mem_cons_self
  induction text using Text.mark_induction (written_ne_nil name) with
  | nil => exact List.Subperm.refl _
  | found back ih =>
    have places : behindDollars (written name ++ back) =
        (braced name ++ back) :: behindDollars back := by
      rw [written_eq, List.cons_append, behindDollars, if_pos rfl, behindDollars_append own]
    have here (todo : List String) :
        spelled? provider scopes (name :: todo) (braced name ++ back) = some name :=
      spelled?_cons_self hasValue (List.prefix_append _ _)
    rw [Text.replaceAll_mark (written_ne_nil name), places, behindDollars_append plain,
      List.filterMap_cons_some (here todo), List.filterMap_cons_some (here []), List.cons_append]
    exact (List.subperm_cons name).mpr ih
  | other d cs missing ih =>
    rw [Text.replaceAll_cons missing, behindDollars, behindDollars]
    by_cases dollar : d = '$'
    · have notHere : ¬ ((shown provider scopes name).isSome ∧ braced name <+: cs) := by
        rintro ⟨-, begins⟩
        exact missing (by rw [dollar]; exact List.cons_prefix_cons.mpr ⟨rfl, begins⟩)
      have notFound : spelled? provider scopes [name] cs = none := spelled?_cons_of_not notHere
      rw [if_pos dollar, if_pos dollar, List.filterMap_cons_none notFound]
      cases found : spelled? provider scopes todo cs with
      | none =>
        -- here the replacement can only have completed a reference
        rw [List.filterMap_cons_none ((spelled?_cons_of_not notHere).trans found)]
        refine ih.trans (List.Sublist.subperm (List.Sublist.append_left ?_ _))
        exact (List.sublist_cons_self _ _).filterMap _
      | some first =>
        obtain ⟨member, -, begins⟩ := spelled?_eq_some found
        have still : spelled? provider scopes todo (Text.replaceAll (written name) value cs) =
            some first :=
          spelled?_of_begins increasing found
            (prefix_replaceAll (noDollar first (List.mem_cons_of_mem name member)) begins value)
        rw [List.filterMap_cons_some ((spelled?_cons_of_not notHere).trans found),
          List.filterMap_cons_some still]
        exact (List.perm_middle.symm.subperm_left).mp ((List.subperm_cons first).mpr ih)
    · rw [if_neg dollar, if_neg dollar]
      exact ih

theorem spelled?_without_value (hides : shown provider scopes name = none) (back : List Char) :
    spelled? provider scopes (name :: todo) back = spelled? provider scopes todo back := by
  apply spelled?_cons_of_not
  rintro ⟨value, -⟩
  rw [hides] at value
  exact nomatch value

/-- **The account of the names**: what is gone was part of the references that were replaced. -/
theorem count_foldl_substitute (noDollar : ∀ name ∈ todo, '$' ∉ braced name)
    (plain : ShowsNo provider scopes c) (text : List Char) :
    (todo.foldl (substitute provider scopes) text).count c +
      weight c (replaced provider scopes todo text) = text.count c := by
  induction todo generalizing text with
  | nil => rfl
  | cons name todo ih =>
    have rest := ih (fun other member => noDollar other (List.mem_cons_of_mem name member))
      (substitute provider scopes text name)
    have step : (substitute provider scopes text name).count c +
        weight c ((behindDollars text).filterMap (spelled? provider scopes [name])) =
        text.count c := by
      rcases substitute_cases provider scopes text name with
        ⟨hides, unchanged⟩ | ⟨value, shows, replaced⟩
      · have nothing : (behindDollars text).filterMap (spelled? provider scopes [name]) = [] :=
          List.filterMap_eq_nil_iff.mpr fun back _ => spelled?_without_value hides back
        rw [unchanged, nothing]
        rfl
      · rw [replaced]
        exact count_replaceAll shows (noDollar name List.mem_cons_self) (plain _ _ shows) text
    rw [List.foldl_cons, replaced, weight_append]
    omega

/-- Whatever is spelled in the beginning is replaced. -/
theorem spelled_subperm_replaced (noDollar : ∀ name ∈ todo, '$' ∉ braced name)
    (plain : ShowsNo provider scopes '$') (increasing : todo.Pairwise (· < ·)) (text : List Char) :
    ((behindDollars text).filterMap (spelled? provider scopes todo)).Subperm
      (replaced provider scopes todo text) := by
  induction todo generalizing text with
  | nil =>
    have nothing : (behindDollars text).filterMap (spelled? provider scopes []) = [] :=
      List.filterMap_eq_nil_iff.mpr fun back _ => rfl
    rw [nothing]
    exact List.nil_subperm
  | cons name todo ih =>
    have later := (List.pairwise_cons.mp increasing).2
    have rest := ih (fun other member => noDollar other (List.mem_cons_of_mem name member)) later
      (substitute provider scopes text name)
    have step : ((behindDollars text).filterMap (spelled? provider scopes (name :: todo))).Subperm
        ((behindDollars text).filterMap (spelled? provider scopes [name]) ++
          (behindDollars (substitute provider scopes text name)).filterMap
            (spelled? provider scopes todo)) := by
      rcases substitute_cases provider scopes text name with
        ⟨hides, unchanged⟩ | ⟨value, shows, replaced⟩
      · rw [unchanged, funext (spelled?_without_value hides)]
        exact (List.sublist_append_right _ _).subperm
      · rw [replaced]
        exact spelled_subperm shows noDollar (plain _ _ shows) later text
    exact step.trans ((List.subperm_append_left _).mpr rest)

/-! ## The account of a single pass -/

/-- **The account of a single pass**: what is gone was part of the references with a value. -/
theorem count_singlePass (plain : ShowsNo provider scopes c) (line : List Char) :
    (singlePass provider scopes line).count c +
      weight c ((behindDollars line).filterMap (resolved? provider scopes)) = line.count c := by
  obtain ⟨segments, maximal, rfl⟩ := exists_segments line
  have all := mem_names_of_segment maximal
  rw [singlePass_joined maximal all]
  generalize names (joined segments) = done at all
  induction segments with
  | nil => rfl
  | cons segment segments ih =>
    have later (segment : Segment) (member : segment ∈ segments) :=
      all segment (List.mem_cons_of_mem _ member)
    cases segment with
    | char d =>
      have rest := ih maximal.2 later
      have missing : '$' ∉ [d] := fun member => maximal.1 (List.mem_singleton.mp member).symm
      show ([d] ++ segments.flatMap (Segment.filled provider scopes done)).count c +
        weight c ((behindDollars ([d] ++ joined segments)).filterMap _) =
          ([d] ++ joined segments).count c
      rw [behindDollars_append missing, List.count_append, List.count_append]
      omega
    | run text =>
      obtain ⟨runs, stops, maximal⟩ := maximal
      have rest := ih maximal later
      have missing : '$' ∉ text := fun member => ne_dollar_of_runs runs '$' member rfl
      have here : resolved? provider scopes (text ++ joined segments) =
          (name? text).filter fun name => (shown provider scopes name).isSome := by
        rw [resolved?, behind?_run runs stops]
      show ((Segment.run text).filled provider scopes done ++
        segments.flatMap (Segment.filled provider scopes done)).count c +
        weight c ((behindDollars ('$' :: (text ++ joined segments))).filterMap _) =
          ('$' :: text ++ joined segments).count c
      rw [behindDollars, if_pos rfl, behindDollars_append missing, List.count_append,
        List.count_append]
      rcases Segment.filled_run provider scopes done text with
        ⟨other, found, reference, -, shows, now⟩ | ⟨now, hides⟩
      · have names : resolved? provider scopes (text ++ joined segments) = some other := by
          rw [here, reference, Option.filter_some, shows]
          rfl
        have absent := List.count_eq_zero_of_not_mem (plain _ _ shows)
        rw [List.filterMap_cons_some names, weight_cons, now, written_eq,
          ← (name?_eq_some.mp reference).1]
        omega
      · have none : resolved? provider scopes (text ++ joined segments) = none := by
          rw [here]
          cases reference : name? text with
          | none => rfl
          | some other =>
            have done := all _ List.mem_cons_self other reference
            rw [Option.filter_some, hides other done reference]
            rfl
        rw [List.filterMap_cons_none none, now]
        omega

/-! ## The comparison -/

/-- A reference with a value is spelled, by its own name or by one that it begins with. -/
theorem exists_spelled_of_resolved {line : List Char} (place : back ∈ behindDollars line)
    (resolved : resolved? provider scopes back = some name) :
    ∃ first, spelled? provider scopes (names line) back = some first ∧
      braced first <+: braced name := by
  obtain ⟨reference, value⟩ := Option.filter_eq_some_iff.mp resolved
  have member := mem_names_of_behind? place reference
  have begins : braced name <+: back :=
    (name?_eq_some.mp reference).1 ▸ List.takeWhile_prefix goesOn
  obtain ⟨first, found, before⟩ := exists_spelled (names_increasing line) member value begins
  refine ⟨first, found, ?_⟩
  rcases comparable (spelled?_eq_some found).2.2 begins with shorter | longer
  · exact shorter
  · rw [le_antisymm before (le_of_braced_begins longer)]

/-- Numbers of which none is larger, with a sum that is not smaller, are the same. -/
theorem eq_of_sum_le {α : Type} {places : List α} {f g : α → Nat}
    (le : ∀ place ∈ places, f place ≤ g place)
    (sums : (places.map g).sum ≤ (places.map f).sum) : ∀ place ∈ places, f place = g place := by
  intro place member
  by_contra ne
  have less := List.sum_lt_sum f g le ⟨place, member, lt_of_le_of_ne (le place member) ne⟩
  omega

theorem sum_filterMap {α : Type} (f : α → Option String) (w : String → Nat) (places : List α) :
    ((places.filterMap f).map w).sum = (places.map fun place => (f place).elim 0 w).sum := by
  induction places with
  | nil => rfl
  | cons place places ih =>
    rw [List.filterMap_cons, List.map_cons, List.sum_cons, ← ih]
    cases f place with
    | none => exact (Nat.zero_add _).symm
    | some name => rw [List.map_cons, List.sum_cons, Option.elim_some]

theorem length_filterMap {α : Type} (f : α → Option String) (places : List α) :
    (places.filterMap f).length = (places.map fun place => (f place).elim 0 fun _ => 1).sum := by
  rw [← sum_filterMap, List.map_const', List.sum_replicate_nat, Nat.mul_one]

/-- The names of a line have no dollar sign. -/
theorem not_mem_braced {line : List Char} (member : name ∈ names line) : '$' ∉ braced name := by
  intro inside
  exact ne_dollar_of_goesOn ((goesOn_of_mem_names member).2 '$' inside) rfl

theorem length_le_weight (names : List String) : names.length ≤ weight '$' names := by
  induction names with
  | nil => exact Nat.zero_le _
  | cons name names ih =>
    rw [weight_cons, written_eq, List.count_cons_self, List.length_cons]
    omega

theorem weight_eq_length {names : List String} (plain : ∀ name ∈ names, '$' ∉ braced name) :
    weight '$' names = names.length := by
  induction names with
  | nil => rfl
  | cons name names ih =>
    have absent := List.count_eq_zero_of_not_mem (plain name List.mem_cons_self)
    rw [weight_cons, written_eq, List.count_cons_self, absent, List.length_cons,
      ih fun other member => plain other (List.mem_cons_of_mem name member), Nat.zero_add,
      Nat.add_comm]

/-- Where a reference with a value stands, a name is spelled. -/
theorem resolved_le_spelled {line : List Char} (place : back ∈ behindDollars line) :
    ((resolved? provider scopes back).elim 0 fun _ => 1) ≤
      (spelled? provider scopes (names line) back).elim 0 fun _ => 1 := by
  cases resolved : resolved? provider scopes back with
  | none => exact Nat.zero_le _
  | some name =>
    obtain ⟨first, found, -⟩ := exists_spelled_of_resolved place resolved
    rw [found]
    exact le_refl _

/-- A name is spelled at references only, if there are references enough. -/
theorem exists_resolved_of_spelled {line : List Char}
    (enough : ((behindDollars line).filterMap (spelled? provider scopes (names line))).length ≤
      ((behindDollars line).filterMap (resolved? provider scopes)).length)
    (place : back ∈ behindDollars line)
    (found : spelled? provider scopes (names line) back = some name) :
    ∃ whole, resolved? provider scopes back = some whole ∧ braced name <+: braced whole := by
  rw [length_filterMap, length_filterMap] at enough
  have one := eq_of_sum_le (fun _ => resolved_le_spelled) enough back place
  rw [found] at one
  cases resolved : resolved? provider scopes back with
  | none =>
    rw [resolved] at one
    exact nomatch one
  | some whole =>
    obtain ⟨first, found', begins⟩ := exists_spelled_of_resolved place resolved
    rw [found] at found'
    exact ⟨whole, rfl, Option.some.inj found' ▸ begins⟩

/-- Where both accounts are the same, each dollar sign at which a name is spelled begins a
reference, and to that name. -/
theorem resolved_of_spelled {line : List Char}
    (included : ((behindDollars line).filterMap (spelled? provider scopes (names line))).Subperm
      (replaced provider scopes (names line) line))
    (dollars : weight '$' (replaced provider scopes (names line) line) =
      weight '$' ((behindDollars line).filterMap (resolved? provider scopes)))
    (braces : weight '}' (replaced provider scopes (names line) line) =
      weight '}' ((behindDollars line).filterMap (resolved? provider scopes)))
    (place : back ∈ behindDollars line)
    (found : spelled? provider scopes (names line) back = some name) :
    resolved? provider scopes back = some name := by
  have plain (name : String)
      (member : name ∈ (behindDollars line).filterMap (resolved? provider scopes)) :
      '$' ∉ braced name := by
    obtain ⟨back, place, resolved⟩ := List.mem_filterMap.mp member
    obtain ⟨reference, -⟩ := Option.filter_eq_some_iff.mp resolved
    exact not_mem_braced (mem_names_of_behind? place reference)
  -- by the dollar signs, there are references at the same places
  have lengths : (replaced provider scopes (names line) line).length ≤
      ((behindDollars line).filterMap (resolved? provider scopes)).length := by
    rw [← weight_eq_length plain, ← dollars]
    exact length_le_weight _
  have enough := included.length_le.trans lengths
  have perm : ((behindDollars line).filterMap (spelled? provider scopes (names line))).Perm
      (replaced provider scopes (names line) line) := by
    apply included.perm_of_length_le (lengths.trans _)
    rw [length_filterMap, length_filterMap]
    exact List.sum_le_sum fun _ => resolved_le_spelled
  -- and by the closing braces, to the same names
  have closing : ∀ back ∈ behindDollars line,
      ((spelled? provider scopes (names line) back).elim 0 fun name => (written name).count '}') =
        (resolved? provider scopes back).elim 0 fun name => (written name).count '}' := by
    apply eq_of_sum_le
    · intro back place
      cases found : spelled? provider scopes (names line) back with
      | none => exact Nat.zero_le _
      | some name =>
        obtain ⟨whole, resolved, begins⟩ := exists_resolved_of_spelled enough place found
        rw [resolved]
        exact (List.cons_prefix_cons.mpr ⟨rfl, begins⟩ : written name <+: written whole).count_le _
    · rw [← sum_filterMap, ← sum_filterMap]
      exact le_of_eq (braces.symm.trans (perm.map _).sum_eq.symm)
  obtain ⟨whole, resolved, begins⟩ := exists_resolved_of_spelled enough place found
  have counts := closing back place
  rw [found, resolved] at counts
  have same : (braced name).count '}' = (braced whole).count '}' := by
    simpa [written_eq] using counts
  rw [resolved, eq_of_braced_begins begins same]

/-- **A line that is formatted as in a single pass spells its names at references only.** -/
theorem spells_of_format_eq (plain : ShowsNo provider scopes '$')
    (plain' : ShowsNo provider scopes '}') {line : List Char}
    (same : format provider scopes line = singlePass provider scopes line) :
    SpellsOnlyReferences provider scopes line := by
  have noDollar (name : String) (member : name ∈ names line) : '$' ∉ braced name :=
    not_mem_braced member
  have increasing := names_increasing line
  have weights {c : Char} (absent : ShowsNo provider scopes c) :
      weight c (replaced provider scopes (names line) line) =
        weight c ((behindDollars line).filterMap (resolved? provider scopes)) := by
    have first : (format provider scopes line).count c + _ = _ :=
      count_foldl_substitute noDollar absent line
    have second : (singlePass provider scopes line).count c + _ = _ := count_singlePass absent line
    rw [same] at first
    omega
  intro name member value back place begins
  obtain ⟨first, found, before⟩ := exists_spelled increasing member value begins
  have resolved := resolved_of_spelled (spelled_subperm_replaced noDollar plain increasing line)
    (weights plain) (weights plain') (mem_behindDollars.mpr place) found
  obtain ⟨reference, -⟩ := Option.filter_eq_some_iff.mp resolved
  have run := (name?_eq_some.mp reference).1
  -- the name stands in the run, which is the first name in braces
  have inside : braced name <+: braced first := by
    obtain ⟨rest, rfl⟩ := begins
    rw [List.takeWhile_append_of_pos (goesOn_of_mem_names member).2] at run
    exact run ▸ List.prefix_append _ _
  rw [reference, le_antisymm before (le_of_braced_begins inside)]

/-- **Where formatting is a single pass**, when no display has a dollar sign or a closing brace:
exactly on the lines that spell their names at references only. -/
theorem format_eq_singlePass_iff_spells (plain : ShowsNo provider scopes '$')
    (plain' : ShowsNo provider scopes '}') (line : List Char) :
    format provider scopes line = singlePass provider scopes line ↔
      SpellsOnlyReferences provider scopes line :=
  ⟨spells_of_format_eq plain plain', format_eq_of_spells plain plain'⟩

end LineTemplate.Reference
