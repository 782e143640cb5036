import LineTemplate.Proofs.Refinement

/-!
# The scopes that a render opens

A render opens scopes above those that it finds. A block opens one for itself, which stays empty. A
loop opens one for its item, and binds it there again in every pass. `OpenScope` has no other
scopes, so that a stack of them cannot be ill-formed.

Look-ups see the innermost loop over a name, or else the scopes below (`Scopes.lookup_above`).
-/

namespace LineTemplate

open Render (loopItem)

namespace Scopes

/-- What a loop binds is not `null`. -/
theorem loopItem_isNull (item : Value) : (loopItem item).isNull = false := by
  unfold loopItem
  split
  next => rfl
  next present => exact Bool.eq_false_iff.mpr present

theorem loopItem_ne_null (item : Value) : loopItem item ≠ .null := by
  intro null
  have isNull := loopItem_isNull item
  rw [null] at isNull
  exact nomatch isNull

theorem present_loopItem (item : Value) :
    present (some (loopItem item)) = some (loopItem item) := by
  rw [present, Option.filter_some, loopItem_isNull]
  rfl

end Scopes

/-- A scope that a render opens: that of a block, or that of a loop over a name, with the item of
the present pass once there is one. -/
inductive OpenScope where
  | block
  | loop (name : String) (item : Option Value)

namespace OpenScope

/-- The scope as it is opened: for a block, or for a loop over a name. -/
def fresh : (owner : Option String) → OpenScope
  | none => .block
  | some name => .loop name none

/-- What is bound in the scope. -/
def bindings : OpenScope → Dict Value
  | .block | .loop _ none => .empty
  | .loop name (some item) => .single name (loopItem item)

/-- The value of a name in the scope. -/
def value? (name : String) : OpenScope → Option Value
  | .block => none
  | .loop bound item => if bound = name then item.map loopItem else none

theorem present_get?_bindings (name : String) (scope : OpenScope) :
    present (scope.bindings.get? name) = scope.value? name := by
  cases scope with
  | block => rfl
  | loop bound item =>
    cases item with
    | none => exact (ite_self none).symm
    | some item =>
      show present (if bound = name then some (loopItem item) else none) =
        if bound = name then some (loopItem item) else none
      split
      · exact Scopes.present_loopItem item
      · rfl

end OpenScope

namespace Scopes

variable {scopes : Scopes} {opened : List OpenScope} {name : String}

/-- The scopes with others opened above them, the innermost first. -/
def above (scopes : Scopes) (opened : List OpenScope) : Scopes :=
  ⟨opened.map OpenScope.bindings ++ scopes.inner⟩

theorem inner_root_above (opened : List OpenScope) :
    (root.above opened).inner = opened.map OpenScope.bindings :=
  List.append_nil _

/-- All levels of the stack, innermost first. The root, which stands at the bottom, is the level
without a dictionary. -/
def levels (scopes : Scopes) : List (Option (Dict Value)) :=
  scopes.inner.map some ++ [none]

theorem levels_above : (scopes.above opened).levels =
    opened.map (fun scope => some scope.bindings) ++ scopes.levels := by
  rw [levels, above, List.map_append, List.map_map, List.append_assoc]
  rfl

theorem levels_root (scopes : Scopes) : scopes.levels.countP Option.isNone = 1 ∧
    scopes.levels.getLast? = some none := by
  constructor
  · have inner : scopes.inner.countP (Option.isNone ∘ some) = 0 :=
      List.countP_eq_zero.mpr fun _ _ => Bool.false_ne_true
    rw [levels, List.countP_append, List.countP_map, inner]
    rfl
  · exact List.getLast?_concat

theorem push_above (owner : Option String) :
    (scopes.above opened).push = scopes.above (.fresh owner :: opened) := by
  cases owner <;> rfl

/-- A pass of a loop binds its item in place of the one before. -/
theorem bind_above (item : Option Value) (next : Value) :
    (scopes.above (.loop name item :: opened)).bind name (loopItem next) =
      scopes.above (.loop name (some next) :: opened) := by
  have loopScope : Render.LoopScope name (OpenScope.loop name item).bindings := by
    cases item with
    | none => exact .inl rfl
    | some item => exact .inr ⟨_, rfl⟩
  show Scopes.mk ((OpenScope.loop name item).bindings.insert name _ :: _) = _
  rw [loopScope.insert]
  rfl

theorem head?_above (provider : Provider) : (scopes.above opened).head? provider name =
    (opened.findSome? (OpenScope.value? name)).or (scopes.head? provider name) := by
  have opens : (opened.map OpenScope.bindings).findSome?
      (fun scope => present (scope.get? name)) = opened.findSome? (OpenScope.value? name) := by
    rw [List.findSome?_map]
    congr 1
    funext scope
    exact OpenScope.present_get?_bindings name scope
  unfold head? above
  rw [List.findSome?_append, opens, Option.or_assoc]

/-- **A look-up sees the innermost loop over its first name**, or else the scopes below. -/
theorem lookup_above (provider : Provider) {path : String} {rest : List String}
    (segments : pathSegments path = name :: rest) :
    (scopes.above opened).lookup provider path =
      match opened.findSome? (OpenScope.value? name) with
      | some value => provider.navigate rest value
      | none => scopes.lookup provider path := by
  unfold lookup
  rw [segments]
  simp only [head?_above]
  cases opened.findSome? (OpenScope.value? name) <;> rfl

end Scopes

end LineTemplate
