import LineTemplate.Value.Display

/-!
# Providers

A provider answers which property a value has and how a value is shown. The renderer never looks
into a container by itself, so any data can stand behind a provider. A property that is missing and
one that is `null` are the same to the renderer (`present`).
-/

namespace LineTemplate

/-- A source of values. `property none name` is the property of that name at the root. -/
structure Provider where
  property : Option Value → String → Option Value
  display : Option Value → String

/-- How values are shown unless a provider has its own way; nothing is shown as `null`. -/
def Value.standardDisplay : Option Value → String
  | some v => v.display
  | none => "null"

/-- An answer, unless it is `null`. -/
def present (answer : Option Value) : Option Value :=
  answer.filter fun v => !v.isNull

theorem present_eq_some_iff {answer : Option Value} {v : Value} :
    present answer = some v ↔ answer = some v ∧ v ≠ .null := by
  cases answer with
  | none => simp [present]
  | some w =>
    cases w <;> simp [present, Value.isNull, Option.filter] <;> rintro rfl <;> simp

namespace Provider

/-- A provider that only answers for properties. -/
def ofProperties (property : Option Value → String → Option Value) : Provider :=
  ⟨property, Value.standardDisplay⟩

/-- Follows a path of properties from a value; a missing step ends the search. -/
def navigate (provider : Provider) : List String → Value → Option Value
  | [], v => some v
  | segment :: rest, v =>
    (present (provider.property (some v) segment)).bind (provider.navigate rest)

/-- A path never leads to `null`. -/
theorem navigate_ne_null {provider : Provider} {path : List String} {v w : Value}
    (notNull : v ≠ .null) (leads : provider.navigate path v = some w) : w ≠ .null := by
  induction path generalizing v with
  | nil => exact Option.some.inj leads ▸ notNull
  | cons segment path ih =>
    obtain ⟨next, found, leads⟩ := Option.bind_eq_some_iff.mp leads
    exact ih (present_eq_some_iff.mp found).2 leads

end Provider

/-- Named values at the root. -/
structure Table where
  root : Dict Value
deriving Repr

namespace Table

def empty : Table := ⟨.empty⟩

/-- Adds a root value in place of an earlier one of that name. -/
def insert (name : String) (value : Value) (table : Table) : Table :=
  ⟨table.root.insert name value⟩

/-- The table of a list of named values; of two with one name the later one stays. -/
def ofEntries (entries : List (String × Value)) : Table :=
  ⟨Dict.ofList entries⟩

def get? (name : String) (table : Table) : Option Value :=
  table.root.get? name

/-- A property is a root value, or an entry of a map; other values have none. -/
def property (table : Table) : Option Value → String → Option Value
  | none, name => table.get? name
  | some container, name => container.entries?.bind (·.get? name)

def provider (table : Table) : Provider :=
  .ofProperties table.property

end Table

end LineTemplate
