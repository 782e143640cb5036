import LineTemplate.Proofs.Comparison
import LineTemplate.Proofs.LoopNames

/-!
# How data is represented does not matter

Data can be packed: an array of one item type stands for the list of its items, and a character for
a text of length one. A loop takes an item that is `null` for the text of `null`. `Value.unpacked`
writes all of this out.

**The law** (`Template.render_unpacked`): a table and its unpacked form give the same render, up to
the kind that a failure reports of a character.

Looking up, going through items, deciding and displaying all commute with unpacking. The comparison
of the two evaluations carries this through the tree: what the loops bind on the one side is
unpacked on the other.
-/

namespace LineTemplate

open Render (Setting loopItem)

/-- A function on lists that goes through the items one by one. -/
theorem eq_map_of_cons {α β : Type} {f : α → β} {g : List α → List β} (nil : g [] = [])
    (cons : ∀ a as, g (a :: as) = f a :: g as) (as : List α) : g as = as.map f := by
  induction as with
  | nil => exact nil
  | cons a as ih => rw [cons, ih, List.map_cons]

/-! ## Unpacked values -/

/-- A scalar as a value that is not packed: a character as a text. -/
def Scalar.unpacked : Scalar → Value
  | .bool b => .bool b
  | .int n => .int n
  | .float x => .float x
  | .char c => .string c.toString

namespace Value

mutual

/-- The value with arrays as lists, characters as texts, and each item of a list that is `null` as
the text of `null`. -/
def unpacked : Value → Value
  | .null => .null
  | .bool b => .bool b
  | .int n => .int n
  | .float x => .float x
  | .char c => .string c.toString
  | .string s => .string s
  | .list items => .list (unpackedItems items)
  | .array items => .list (items.scalars.map Scalar.unpacked)
  | .map entries => .map (unpackedEntries entries)

/-- The unpacked items of a list. -/
def unpackedItems : List Value → List Value
  | [] => []
  | item :: items => (if item.isNull then .string "null" else unpacked item) :: unpackedItems items

/-- The unpacked entries of a map; an entry that is `null` stays so. -/
def unpackedEntries : {low : Option String} → Entries Value low → Entries Value low
  | _, .nil => .nil
  | _, .cons name behind value entries =>
    .cons name behind (unpacked value) (unpackedEntries entries)

end

-- What becomes of a value that has no parts is read off the definitions.
attribute [local simp] unpacked display displayItems displayEntries

theorem unpacked_ofScalar (scalar : Scalar) : (ofScalar scalar).unpacked = scalar.unpacked := by
  cases scalar <;> simp [ofScalar, Scalar.unpacked]

/-- The items of a list are unpacked as a loop takes them. -/
theorem unpackedItems_eq (items : List Value) :
    unpackedItems items = items.map fun item => (loopItem item).unpacked := by
  refine eq_map_of_cons unpackedItems.eq_1 (fun item items => ?_) items
  rw [unpackedItems, loopItem]
  split
  · rw [unpacked]
  · rfl

theorem unpackedEntries_eq (entries : Dict Value) :
    unpackedEntries entries = entries.map unpacked :=
  Entries.eq_map_of_cons (unpackedEntries.eq_1 _) (unpackedEntries.eq_2 _) entries

theorem isNull_unpacked (v : Value) : v.unpacked.isNull = v.isNull := by
  cases v <;> simp [isNull]

theorem isTrue_unpacked (v : Value) : v.unpacked.isTrue = v.isTrue := by
  cases v <;> simp [isTrue]

theorem loopItem_ofScalar (scalar : Scalar) : loopItem (ofScalar scalar) = ofScalar scalar := by
  cases scalar <;> rfl

/-- An array is unpacked to the list of its unpacked items. -/
theorem unpacked_array (items : Packed) : (Value.array items).unpacked =
    .list ((items.scalars.map ofScalar).map fun item => (loopItem item).unpacked) := by
  simp [loopItem_ofScalar, unpacked_ofScalar]

/-- **The items of a value** are unpacked as a loop takes them. -/
theorem items?_unpacked (v : Value) :
    v.unpacked.items? = v.items?.map (List.map fun item => (loopItem item).unpacked) := by
  cases v with
  | list items => rw [unpacked, unpackedItems_eq]; rfl
  | array items => rw [unpacked_array]; rfl
  | _ => rw [unpacked]; rfl

/-- A loop binds an unpacked item as it is. -/
theorem loopItem_unpacked (item : Value) :
    loopItem (loopItem item).unpacked = (loopItem item).unpacked := by
  have present : (loopItem item).unpacked.isNull = false := by
    rw [isNull_unpacked, Scopes.loopItem_isNull]
  rw [loopItem, present, if_neg Bool.false_ne_true]

theorem entries?_unpacked (v : Value) :
    v.unpacked.entries? = v.entries?.map (Entries.map unpacked) := by
  cases v with
  | map entries => rw [unpacked, unpackedEntries_eq]; rfl
  | _ => rw [unpacked]; rfl

theorem display_unpackedScalars (scalars : List Scalar) :
    displayItems (scalars.map Scalar.unpacked) = scalars.map Scalar.display := by
  induction scalars with
  | nil => simp
  | cons scalar scalars ih =>
    cases scalar <;> simp [ih, Scalar.unpacked, Scalar.display]

mutual

/-- **A value and its unpacked form have one text.** -/
theorem display_unpacked (v : Value) : v.unpacked.display = v.display := by
  match v with
  | .null | .bool _ | .int _ | .float _ | .string _ => rw [unpacked]
  | .char c => rw [unpacked, display, display, Scalar.display]
  | .list items => rw [unpacked, display, display, displayItems_unpacked items]
  | .array items => rw [unpacked, display, display, display_unpackedScalars]
  | .map entries => rw [unpacked, display, display, displayEntries_unpacked entries]

theorem displayItems_unpacked (items : List Value) :
    displayItems (unpackedItems items) = displayItems items := by
  match items with
  | [] => rw [unpackedItems]
  | item :: items =>
    rw [unpackedItems, displayItems, displayItems, displayItems_unpacked items]
    split
    next null =>
      obtain rfl := isNull_iff.mp null
      rw [display, display]
    next => rw [display_unpacked item]

theorem displayEntries_unpacked {low : Option String} (entries : Entries Value low) :
    displayEntries (unpackedEntries entries) = displayEntries entries := by
  match entries with
  | .nil => rw [unpackedEntries]
  | .cons name behind value entries =>
    rw [unpackedEntries, displayEntries, displayEntries, display_unpacked value,
      displayEntries_unpacked entries]

end

end Value

/-! ## Look-ups in unpacked data -/

theorem present_map_unpacked (answer : Option Value) :
    present (answer.map Value.unpacked) = (present answer).map Value.unpacked := by
  cases answer with
  | none => rfl
  | some v =>
    simp only [present, Option.map_some, Option.filter_some, Value.isNull_unpacked]
    split <;> rfl

/-- The table with unpacked root values. -/
def Table.unpacked (table : Table) : Table :=
  ⟨table.root.map Value.unpacked⟩

/-- The bindings with unpacked values. -/
def Environment.unpacked (env : Environment) : Environment :=
  env.map fun (name, value) => (name, value.unpacked)

section Lookup

variable (table : Table) (env : Environment)

theorem Table.property_unpacked (container : Option Value) (name : String) :
    table.unpacked.property (container.map Value.unpacked) name =
      (table.property container name).map Value.unpacked := by
  cases container with
  | none => exact Entries.get?_map Value.unpacked name table.root
  | some v =>
    simp only [Option.map_some, property, Value.entries?_unpacked]
    cases v.entries? with
    | none => rfl
    | some entries => exact Entries.get?_map Value.unpacked name entries

theorem Table.navigate_unpacked (path : List String) (v : Value) :
    table.unpacked.provider.navigate path v.unpacked =
      (table.provider.navigate path v).map Value.unpacked := by
  induction path generalizing v with
  | nil => rfl
  | cons segment path ih =>
    have step : present (table.unpacked.property (some v.unpacked) segment) =
        (present (table.property (some v) segment)).map Value.unpacked := by
      rw [← present_map_unpacked, ← Table.property_unpacked]
      rfl
    show (present (table.unpacked.property (some v.unpacked) segment)).bind _ =
      ((present (table.property (some v) segment)).bind _).map _
    rw [step]
    cases present (table.property (some v) segment) with
    | none => rfl
    | some next => exact ih next

theorem Environment.head?_unpacked (name : String) :
    env.unpacked.scopes.head? table.unpacked.provider name =
      (env.scopes.head? table.provider name).map Value.unpacked := by
  have root : present (table.unpacked.property none name) =
      (present (table.property none name)).map Value.unpacked := by
    rw [← present_map_unpacked, ← Table.property_unpacked]
    rfl
  have bound : (env.unpacked.scopes.inner.findSome? fun scope => present (scope.get? name)) =
      (env.scopes.inner.findSome? fun scope => present (scope.get? name)).map Value.unpacked := by
    simp only [scopes, unpacked, List.map_map, List.findSome?_map, List.map_findSome?]
    congr 1
    funext (bound, value)
    exact (congrArg present (Entries.get?_map Value.unpacked name (Dict.single bound value))).trans
      (present_map_unpacked _)
  unfold Scopes.head?
  rw [bound]
  show Option.or _ (present (table.unpacked.property none name)) = _
  rw [root, ← Option.map_or]
  rfl

/-- **Unpacked data answers with unpacked values.** -/
theorem Environment.lookup_unpacked (path : String) :
    env.unpacked.lookup table.unpacked.provider path =
      (env.lookup table.provider path).map Value.unpacked := by
  unfold Environment.lookup Scopes.lookup
  cases pathSegments path with
  | nil => rfl
  | cons first rest =>
    simp only [Environment.head?_unpacked]
    cases env.scopes.head? table.provider first with
    | none => rfl
    | some v => exact table.navigate_unpacked rest v

theorem Environment.format_unpacked (text : List Char) :
    Reference.format table.unpacked.provider env.unpacked.scopes text =
      Reference.format table.provider env.scopes text := by
  have substitutes : Reference.substitute table.unpacked.provider env.unpacked.scopes =
      Reference.substitute table.provider env.scopes := by
    funext text name
    have answers : env.unpacked.scopes.lookup table.unpacked.provider name =
        (env.scopes.lookup table.provider name).map Value.unpacked :=
      env.lookup_unpacked table name
    unfold Reference.substitute
    rw [answers]
    cases env.scopes.lookup table.provider name with
    | none => rfl
    | some v =>
      show Text.replaceAll _ v.unpacked.display.toList text =
        Text.replaceAll _ v.display.toList text
      rw [Value.display_unpacked]
  rw [Reference.format, substitutes, Reference.format]

theorem Environment.unresolved_unpacked (text : List Char) :
    Reference.unresolved table.unpacked.provider env.unpacked.scopes text =
      Reference.unresolved table.provider env.scopes text := by
  apply List.filter_congr
  intro name _
  have answers : env.unpacked.scopes.lookup table.unpacked.provider name =
      (env.scopes.lookup table.provider name).map Value.unpacked := env.lookup_unpacked table name
  rw [answers, Option.isNone_map]

/-- Unpacked containers have unpacked items. -/
theorem Environment.items_unpacked (path : String) :
    (env.unpacked.lookup table.unpacked.provider path).bind Value.items? =
      ((env.lookup table.provider path).bind Value.items?).map
        (List.map fun item => (loopItem item).unpacked) := by
  rw [env.lookup_unpacked table]
  cases env.lookup table.provider path with
  | none => rfl
  | some v => exact v.items?_unpacked

end Lookup

/-! ## Renders of unpacked data -/

/-- The failure with unpacked data: what was found as a character is found as a text. -/
def Failure.unpacked : Failure → Failure
  | .notIterable line path (some .char) => .notIterable line path (some .string)
  | failure => failure

/-- The report with unpacked data. -/
def Report.unpacked (report : Report) : Report :=
  ⟨report.log, report.failure.map Failure.unpacked⟩

theorem Report.unpacked_andThen (first second : Report) :
    (first.andThen second).unpacked = first.unpacked.andThen second.unpacked := by
  obtain ⟨log, failure⟩ := first
  cases failure <;> rfl

theorem Report.result_unpacked (separator : String) (report : Report) :
    report.unpacked.result separator =
      (report.result separator).mapError Failure.unpacked := by
  obtain ⟨log, failure⟩ := report
  cases failure <;> rfl

/-- The kind of what has no items changes for a character alone. -/
theorem Value.unpacked_notIterable (v : Value) (none : v.items? = none) (line : Nat)
    (path : String) :
    Failure.notIterable line path (some v.unpacked.kind) =
      (Failure.notIterable line path (some v.kind)).unpacked := by
  cases v with
  | list items => exact nomatch none
  | array items => exact nomatch none
  | _ => rw [Value.unpacked]; rfl

/-- **An evaluation with a table and one with its unpacked form**, line by line. -/
theorem Comparison.unpacked (table : Table) (strays : Strays) :
    Comparison ⟨table.provider, strays⟩ ⟨table.unpacked.provider, strays⟩ 0
      (fun env env' => env' = env.unpacked) (fun report report' => report' = report.unpacked) where
  nothing := rfl
  andThen now later := by rw [now, later, Report.unpacked_andThen]
  fault _ _ := rfl
  condition _ _ _ := rfl
  loop _ _ _ _ := rfl
  stray directive text line env env' := by
    rw [Node.eval, Node.eval]
    cases strays <;> rfl
  plain {env _} same text line := by
    subst same
    rw [Node.eval, Node.eval]
    simp only [env.format_unpacked table, env.unresolved_unpacked table]
    rfl
  holds {env _} same path := by
    subst same
    simp only [Environment.holds, env.lookup_unpacked table]
    cases env.lookup table.provider path with
    | none => rfl
    | some v => exact (v.isTrue_unpacked).symm
  items {env _} same path := by
    subst same
    simp only [env.items_unpacked table]
    cases (env.lookup table.provider path).bind Value.items? with
    | none => exact .none
    | some items =>
      refine .some (List.forall₂_map_right_iff.mpr (List.forall₂_same.mpr fun item _ name => ?_))
      rw [Value.loopItem_unpacked]
      rfl
  missing {env _} same path none line := by
    subst same
    simp only [env.lookup_unpacked table] at none ⊢
    cases answer : env.lookup table.provider path with
    | none => rfl
    | some v =>
      rw [answer] at none
      exact congrArg Report.failed (v.unpacked_notIterable none line path)

/-- **Rendering does not depend on how data is represented.** A template renders with a table as it
does with its unpacked form: to the same text, or with the same failure, up to the kind of a
character. -/
theorem Template.render_unpacked (template : Template) (table : Table) (config : Config) :
    template.render table.unpacked.provider config =
      (template.render table.provider config).mapError Failure.unpacked := by
  have root : ([] : Environment) = Environment.unpacked [] := rfl
  have reports := (Comparison.unpacked table config.strays).evalAll (treeOf template.lines) 1 root
  rw [render_of_report (Render.report_run ⟨table.provider, config.strays⟩ template.lines),
    ← Report.result_unpacked, ← reports]
  exact render_of_report (Render.report_run _ template.lines)

end LineTemplate
