import LineTemplate.Provider

/-!
# Scopes

The bindings that are visible at a point of a render: a stack of dictionaries, innermost first, over
the root, which is the provider. The innermost scope that knows the first segment of a path decides
the whole path; a property missing further on is not looked for in outer scopes.
-/

namespace LineTemplate

/-- The segments of a dotted path. There is always a first one, and it may be empty. -/
def pathSegments (path : String) : List String :=
  (path.toList.splitOnP (· == '.')).map String.ofList

/-- A stack of scopes, innermost first. The root is left out: it takes no bindings, so there is
nothing to keep of it, and it stands at the bottom of every stack. -/
structure Scopes where
  inner : List (Dict Value)
deriving Repr

namespace Scopes

/-- The root alone. -/
def root : Scopes := ⟨[]⟩

/-- Opens an empty scope. -/
def push (scopes : Scopes) : Scopes :=
  ⟨.empty :: scopes.inner⟩

/-- Closes the innermost scope; the root stays. -/
def pop (scopes : Scopes) : Scopes :=
  ⟨scopes.inner.tail⟩

/-- Binds a name in the innermost scope; the root takes no bindings. -/
def bind (name : String) (value : Value) : Scopes → Scopes
  | ⟨[]⟩ => ⟨[]⟩
  | ⟨scope :: outer⟩ => ⟨scope.insert name value :: outer⟩

/-- The value of a single name: the innermost binding that is not `null`, else the root's. -/
def head? (provider : Provider) (scopes : Scopes) (name : String) : Option Value :=
  (scopes.inner.findSome? fun scope => present (scope.get? name)).or
    (present (provider.property none name))

/-- The value of a dotted path. -/
def lookup (provider : Provider) (scopes : Scopes) (path : String) : Option Value :=
  match pathSegments path with
  | [] => none
  | first :: rest => (scopes.head? provider first).bind (provider.navigate rest)

@[simp] theorem pop_push (scopes : Scopes) : scopes.push.pop = scopes := rfl

theorem head?_ne_null {provider : Provider} {scopes : Scopes} {name : String} {v : Value}
    (found : scopes.head? provider name = some v) : v ≠ .null := by
  unfold head? at found
  rcases Option.or_eq_some_iff.mp found with bound | ⟨-, root⟩
  · obtain ⟨scope, -, bound⟩ := List.exists_of_findSome?_eq_some bound
    exact (present_eq_some_iff.mp bound).2
  · exact (present_eq_some_iff.mp root).2

/-- **A look-up never answers `null`.** -/
theorem lookup_ne_null {provider : Provider} {scopes : Scopes} {path : String} {v : Value}
    (found : scopes.lookup provider path = some v) : v ≠ .null := by
  unfold lookup at found
  split at found
  · exact nomatch found
  · obtain ⟨first, head, leads⟩ := Option.bind_eq_some_iff.mp found
    exact Provider.navigate_ne_null (head?_ne_null head) leads

end Scopes

end LineTemplate
