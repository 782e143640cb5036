import LineTemplate.Proofs.Cuts
import LineTemplate.Proofs.Dependencies

/-!
# Bindings hide each other

The innermost level of a stack that has a value for the first segment of a path decides the whole
path (`Scopes.lookup_eq_resolve`). What a binding does to look-ups follows from what it does to the
value of single names.

**The laws** (`Scopes.store_laws`): a binding is seen by the paths that begin with its name, and by
no others. A path under a name that is bound to a value is followed from that value, wherever it
leads; a name that is bound to `null` is looked for further out. `Provider.Leads` says where a path
of properties leads without the search for it.
-/

namespace LineTemplate

/-- Entries of other names can be left out. -/
theorem Dict.get?_ofList_filter {α : Type} {name : String} {keep : String × α → Bool}
    (kept : ∀ a, keep (name, a) = true) (dict : Dict α) :
    (ofList (dict.toList.filter keep)).get? name = dict.get? name := by
  have distinct : ((dict.toList.filter keep).map Prod.fst).Nodup :=
    (List.filter_sublist.map Prod.fst).nodup dict.names_nodup
  apply Option.ext
  intro a
  rw [get?_ofList distinct, List.mem_filter, Entries.get?_eq_some_iff]
  exact and_iff_left (kept a)

/-! ## Paths -/

/-- No segment has a dot. -/
theorem dot_not_mem_segment {path segment : String} (member : segment ∈ pathSegments path) :
    '.' ∉ segment.toList := by
  obtain ⟨piece, inside, rfl⟩ := List.mem_map.mp member
  rw [String.toList_ofList]
  intro dot
  exact nomatch (Text.of_mem_splitOnP inside dot).2

/-- A segment is a path of its own. -/
theorem pathSegments_segment {path segment : String} (member : segment ∈ pathSegments path) :
    pathSegments segment = [segment] := by
  have whole : segment.toList.splitOnP (· == '.') = [segment.toList] := by
    refine List.splitOnP_eq_singleton fun c inside => beq_eq_false_iff_ne.mpr ?_
    rintro rfl
    exact dot_not_mem_segment member inside
  rw [pathSegments, whole, List.map_singleton, String.ofList_toList]

theorem present_eq_none_iff {answer : Option Value} :
    present answer = none ↔ ∀ v, answer = some v → v = .null := by
  rw [Option.eq_none_iff_forall_ne_some]
  simp only [ne_eq, present_eq_some_iff, not_and_not_right]

namespace Provider

/-- **A path of properties leads from one value to another**, and nothing on the way is `null`. -/
inductive Leads (provider : Provider) : Value → List String → Value → Prop
  | here {v : Value} : Leads provider v [] v
  | step {v w x : Value} {segment : String} {rest : List String}
    (found : provider.property (some v) segment = some w) (notNull : w ≠ .null)
    (leads : Leads provider w rest x) : Leads provider v (segment :: rest) x

theorem navigate_eq_some_iff {provider : Provider} {path : List String} {v x : Value} :
    provider.navigate path v = some x ↔ provider.Leads v path x := by
  induction path generalizing v with
  | nil =>
    rw [navigate, Option.some.injEq]
    constructor
    · rintro rfl
      exact .here
    · rintro ⟨⟩
      rfl
  | cons segment rest ih =>
    rw [navigate, Option.bind_eq_some_iff]
    constructor
    · rintro ⟨w, found, leads⟩
      obtain ⟨found, notNull⟩ := present_eq_some_iff.mp found
      exact .step found notNull (ih.mp leads)
    · rintro (_ | ⟨found, notNull, leads⟩)
      exact ⟨_, present_eq_some_iff.mpr ⟨found, notNull⟩, ih.mpr leads⟩

end Provider

namespace Scopes

variable {provider : Provider} {scopes : Scopes} {path name first : String} {rest : List String}

/-! ## One level alone -/

/-- The value of a name at one level of a stack; the level without a dictionary is the root. -/
def valueAt (provider : Provider) (name : String) : Option (Dict Value) → Option Value
  | some scope => present (scope.get? name)
  | none => present (provider.property none name)

/-- The value of a path at one level of a stack. -/
def resolve (provider : Provider) (path : String) (level : Option (Dict Value)) : Option Value :=
  match pathSegments path with
  | [] => none
  | first :: rest => (valueAt provider first level).bind (provider.navigate rest)

theorem resolve_cons (segments : pathSegments path = first :: rest)
    (level : Option (Dict Value)) :
    resolve provider path level = (valueAt provider first level).bind (provider.navigate rest) := by
  rw [resolve, segments]

/-- A first segment resolves where it has a value. -/
theorem resolve_first (segments : pathSegments path = first :: rest)
    (level : Option (Dict Value)) :
    resolve provider first level = valueAt provider first level := by
  have alone : pathSegments first = [first] :=
    pathSegments_segment (segments ▸ List.mem_cons_self : first ∈ pathSegments path)
  rw [resolve_cons alone]
  cases valueAt provider first level <;> rfl

theorem lookup_cons (segments : pathSegments path = first :: rest) :
    scopes.lookup provider path = (scopes.head? provider first).bind (provider.navigate rest) := by
  rw [lookup, segments]

theorem head?_eq_findSome? (provider : Provider) (scopes : Scopes) (name : String) :
    scopes.head? provider name = scopes.levels.findSome? (valueAt provider name) := by
  rw [levels, List.findSome?_append, List.findSome?_map, List.findSome?_singleton]
  rfl

/-- **The innermost level that knows the first segment resolves the whole path.** -/
theorem lookup_eq_resolve (segments : pathSegments path = first :: rest) :
    scopes.lookup provider path =
      (scopes.levels.find? fun level => (resolve provider first level).isSome).bind
        (resolve provider path) := by
  simp only [lookup_cons segments, head?_eq_findSome?, resolve_first segments]
  induction scopes.levels with
  | nil => rfl
  | cons level levels ih =>
    rw [List.findSome?_cons, List.find?_cons]
    cases known : valueAt provider first level with
    | none => exact ih
    | some v =>
      rw [Option.isSome_some, Option.bind_some, Option.bind_some, resolve_cons segments, known,
        Option.bind_some]

/-- Where the first segment of a path has the same value, so has the path. -/
theorem lookup_congr_head {scopes' : Scopes}
    (same : ∀ first ∈ (pathSegments path).head?,
      scopes.head? provider first = scopes'.head? provider first) :
    scopes.lookup provider path = scopes'.lookup provider path := by
  cases segments : pathSegments path with
  | nil => rw [lookup, lookup, segments]
  | cons first rest =>
    rw [lookup_cons segments, lookup_cons segments, same first (by rw [segments]; rfl)]

/-! ## The value of a name -/

theorem head?_bind_of_ne {other : String} (different : other ≠ name) (value : Value) :
    (scopes.bind name value).head? provider other = scopes.head? provider other := by
  obtain ⟨_ | ⟨scope, outer⟩⟩ := scopes
  · rfl
  · simp only [bind, head?, List.findSome?_cons, Dict.get?_insert_of_ne different]

theorem head?_bind_self (nonempty : scopes.inner ≠ []) {value : Value} (notNull : value ≠ .null) :
    (scopes.bind name value).head? provider name = some value := by
  obtain ⟨_ | ⟨scope, outer⟩⟩ := scopes
  · exact (nonempty rfl).elim
  · have known : present (some value) = some value := present_eq_some_iff.mpr ⟨rfl, notNull⟩
    simp only [bind, head?, List.findSome?_cons, Dict.get?_insert_self, known, Option.some_or]

/-- A name that is bound to `null` is looked for further out. -/
theorem head?_bind_null (nonempty : scopes.inner ≠ []) :
    (scopes.bind name .null).head? provider name = scopes.pop.head? provider name := by
  obtain ⟨_ | ⟨scope, outer⟩⟩ := scopes
  · exact (nonempty rfl).elim
  · have unknown : present (some .null) = none := rfl
    simp only [bind, pop, head?, List.findSome?_cons, Dict.get?_insert_self, unknown,
      List.tail_cons]

theorem head?_of_unbound
    (unbound : ∀ scope ∈ scopes.inner, ∀ v, scope.get? name = some v → v = .null) :
    scopes.head? provider name = present (provider.property none name) := by
  have unknown : (scopes.inner.findSome? fun scope => present (scope.get? name)) = none := by
    rw [List.findSome?_eq_none_iff]
    intro scope member
    exact present_eq_none_iff.mpr (unbound scope member)
  rw [head?, unknown, Option.none_or]

/-- A binding whose name is a single segment. -/
def isPlain (entry : String × Value) : Bool :=
  !entry.1.toList.contains '.'

/-- The scopes without the bindings of dotted names. -/
def withoutDotted (scopes : Scopes) : Scopes :=
  ⟨scopes.inner.map fun scope => .ofList (scope.toList.filter isPlain)⟩

theorem head?_withoutDotted (plain : '.' ∉ name.toList) :
    scopes.withoutDotted.head? provider name = scopes.head? provider name := by
  have kept (value : Value) : isPlain (name, value) = true := by
    simpa only [isPlain, List.contains_eq_mem, Bool.not_eq_true', decide_eq_false_iff_not]
      using plain
  simp only [withoutDotted, head?, List.findSome?_map, Function.comp_def,
    Dict.get?_ofList_filter kept]

/-! ## The laws -/

/-- **What look-ups give behind a binding** in the innermost of some scopes. -/
structure Bound (provider : Provider) (before : Scopes) (name : String) (value : Value) :
    Prop where
  /-- A path that begins with another name is looked up as before. -/
  others : ∀ path, (pathSegments path).head? ≠ some name →
    (before.bind name value).lookup provider path = before.lookup provider path
  /-- A path that begins with the name is followed from the value. -/
  below : value ≠ .null → ∀ path rest, pathSegments path = name :: rest → ∀ x,
    (before.bind name value).lookup provider path = some x ↔ provider.Leads value rest x
  /-- No outer scope and no root is asked then. -/
  alone : value ≠ .null → ∀ path rest, pathSegments path = name :: rest →
    ∀ (provider' : Provider) (before' : Scopes), before'.inner ≠ [] →
      (∀ v segment, provider'.property (some v) segment = provider.property (some v) segment) →
      (before'.bind name value).lookup provider' path =
        (before.bind name value).lookup provider path
  /-- A binding to `null` hides the one that it replaces, and nothing below. -/
  null : value = .null → ∀ path rest, pathSegments path = name :: rest →
    (before.bind name value).lookup provider path = before.pop.lookup provider path
  /-- A second binding of a name leaves no trace of the first. -/
  again : ∀ first, (before.bind name first).bind name value = before.bind name value
  /-- A dotted name is not seen. -/
  dotted : '.' ∈ name.toList → ∀ path,
    (before.bind name value).lookup provider path = before.lookup provider path

theorem bound (provider : Provider) (nonempty : scopes.inner ≠ []) (name : String)
    (value : Value) : Bound provider scopes name value := by
  have others (path : String) (different : (pathSegments path).head? ≠ some name) :
      (scopes.bind name value).lookup provider path = scopes.lookup provider path := by
    refine lookup_congr_head fun first begins => head?_bind_of_ne ?_ value
    rintro rfl
    exact different begins
  have followed (notNull : value ≠ .null) {path : String} {rest : List String}
      (segments : pathSegments path = name :: rest) (provider' : Provider) {before : Scopes}
      (nonempty' : before.inner ≠ []) :
      (before.bind name value).lookup provider' path = provider'.navigate rest value := by
    rw [lookup_cons segments, head?_bind_self nonempty' notNull, Option.bind_some]
  refine ⟨others, ?below, ?alone, ?null, ?again, ?dotted⟩
  case below =>
    intro notNull path rest segments x
    rw [followed notNull segments provider nonempty, Provider.navigate_eq_some_iff]
  case alone =>
    intro notNull path rest segments provider' before' nonempty' properties
    rw [followed notNull segments provider' nonempty',
      followed notNull segments provider nonempty]
    exact Provider.navigate_congr (fun v segment => by rw [properties]) rest value
  case null =>
    rintro rfl path rest segments
    rw [lookup_cons segments, lookup_cons segments, head?_bind_null nonempty]
  case again =>
    intro first
    obtain ⟨_ | ⟨scope, outer⟩⟩ := scopes
    · rfl
    · simp only [bind, Dict.insert_insert]
  case dotted =>
    intro dot path
    refine others path fun begins => ?_
    exact dot_not_mem_segment (List.mem_of_mem_head? begins) dot

/-- **The laws of the scope stack.** The innermost level that knows the first segment of a path
resolves the whole path. A binding is seen by the paths that begin with its name (`Bound`). Where no
scope binds the first segment to a value, the path is followed from the root. No look-up answers
`null`, and none sees a dotted name. -/
theorem store_laws (provider : Provider) (scopes : Scopes) :
    (∀ path first rest, pathSegments path = first :: rest →
      scopes.lookup provider path =
        (scopes.levels.find? fun level => (resolve provider first level).isSome).bind
          (resolve provider path)) ∧
    (scopes.inner ≠ [] → ∀ name value, Bound provider scopes name value) ∧
    (∀ path first rest, pathSegments path = first :: rest →
      (∀ scope ∈ scopes.inner, ∀ v, scope.get? first = some v → v = .null) →
      ∀ x, scopes.lookup provider path = some x ↔
        ∃ v, provider.property none first = some v ∧ v ≠ .null ∧ provider.Leads v rest x) ∧
    (∀ path, scopes.lookup provider path ≠ some .null) ∧
    ∀ path, scopes.withoutDotted.lookup provider path = scopes.lookup provider path := by
  refine ⟨fun _ _ _ => lookup_eq_resolve, bound provider, ?_, ?_, ?_⟩
  · intro path first rest segments unbound x
    rw [lookup_cons segments, head?_of_unbound unbound, Option.bind_eq_some_iff]
    simp only [present_eq_some_iff, Provider.navigate_eq_some_iff, and_assoc]
  · intro path found
    exact lookup_ne_null found rfl
  · intro path
    refine lookup_congr_head fun first begins => head?_withoutDotted ?_
    exact dot_not_mem_segment (List.mem_of_mem_head? begins)

/-- A map hides the root, also where it lacks the property that the root has. Bound to `null`, the
name is looked for at the root again, in spite of the number that it had been bound to. -/
theorem store_laws_shadowed :
    let provider := Table.provider (.ofEntries [("user", .ofEntries [("name", .string "Ada")])])
    let scopes : Scopes := ⟨[.single "user" (.int 1), .single "i" (.int 2)]⟩
    scopes.inner ≠ [] ∧ pathSegments "user.name" = ["user", "name"] ∧
    (scopes.bind "user" (.ofEntries [("name", .null)])).lookup provider "user.name" = none ∧
    (scopes.bind "user" .null).lookup provider "user.name" = some (.string "Ada") := by
  intro provider scopes
  have nonempty : scopes.inner ≠ [] := List.cons_ne_nil _ _
  have segments : pathSegments "user.name" = ["user", "name"] := by cbv
  have laws := (store_laws provider scopes).2.1 nonempty "user"
  refine ⟨nonempty, segments, ?_, ?_⟩
  · rw [Option.eq_none_iff_forall_ne_some]
    intro x found
    have notNull : Value.ofEntries [("name", .null)] ≠ .null := by
      simp [Value.ofEntries]
    have leads := ((laws _).below notNull _ _ segments x).mp found
    rcases leads with _ | ⟨answer, present, -⟩
    have isNull : provider.property (some (.ofEntries [("name", .null)])) "name" = some .null := rfl
    exact present (Option.some.inj (answer.symm.trans isNull))
  · rw [(laws .null).null rfl _ _ segments]
    have unbound : ∀ scope ∈ scopes.pop.inner, ∀ v, scope.get? "user" = some v → v = .null := by
      intro scope member v found
      obtain rfl := List.mem_singleton.mp member
      simp [Dict.get?_single] at found
    refine ((store_laws provider scopes.pop).2.2.1 _ _ _ segments unbound _).mpr ?_
    exact ⟨_, rfl, by simp [Value.ofEntries], .step rfl (by simp) .here⟩

end Scopes

end LineTemplate
