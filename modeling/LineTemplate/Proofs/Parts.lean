import LineTemplate.Proofs.Representation

/-!
# Parts of values

The parts of a value are its items and its entries, their items and entries, and so on. A part
stands at a path of places (`Value.at?`). The names of a map are different from each other, so each
of its entries has a place of its own.

A value is built from its parts, and `Value.induction` is the induction that follows this: what is
to be shown of a list may be assumed of its items, and of a map of the values of its entries.
-/

namespace LineTemplate

theorem map_eq_self_iff {α : Type} {f : α → α} {as : List α} :
    as.map f = as ↔ ∀ a ∈ as, f a = a := by
  conv_lhs => rhs; rw [← List.map_id as]
  exact List.map_inj_left

namespace Value

/-! ## Induction on the parts -/

theorem sizeOf_item_lt {items : List Value} {item : Value} (member : item ∈ items) :
    sizeOf item < sizeOf (Value.list items) := by
  have inside := List.sizeOf_lt_of_mem member
  rw [list.sizeOf_spec]
  omega

theorem sizeOf_lt_of_mem_toList {low : Option String} {entries : Entries Value low}
    {entry : String × Value} (member : entry ∈ entries.toList) :
    sizeOf entry.2 < sizeOf entries := by
  induction entries with
  | nil => exact absurd member List.not_mem_nil
  | cons name behind value rest ih =>
    rw [Entries.cons.sizeOf_spec]
    rcases List.mem_cons.mp member with rfl | later
    · show sizeOf value < _
      omega
    · have inside := ih later
      omega

theorem sizeOf_entry_lt {entries : Dict Value} {entry : String × Value}
    (member : entry ∈ entries.toList) : sizeOf entry.2 < sizeOf (Value.map entries) := by
  have inside := sizeOf_lt_of_mem_toList member
  rw [map.sizeOf_spec]
  omega

/-- Induction on values, with the items of a list and the entries of a map as parts. -/
@[elab_as_elim, induction_eliminator]
theorem induction {motive : Value → Prop} (null : motive .null) (bool : ∀ b, motive (.bool b))
    (int : ∀ n, motive (.int n)) (float : ∀ x, motive (.float x)) (char : ∀ c, motive (.char c))
    (string : ∀ s, motive (.string s))
    (list : ∀ items, (∀ item ∈ items, motive item) → motive (.list items))
    (array : ∀ items, motive (.array items))
    (map : ∀ entries : Dict Value, (∀ entry ∈ entries.toList, motive entry.2) →
      motive (.map entries)) :
    (v : Value) → motive v
  | .null => null
  | .bool b => bool b
  | .int n => int n
  | .float x => float x
  | .char c => char c
  | .string s => string s
  | .list items => list items fun item _ =>
    induction null bool int float char string list array map item
  | .array items => array items
  | .map entries => map entries fun entry _ =>
    induction null bool int float char string list array map entry.2
termination_by v => sizeOf v
decreasing_by
  · exact sizeOf_item_lt ‹_›
  · exact sizeOf_entry_lt ‹_›

/-! ## Parts and their places -/

/-- Where a part stands in a value. -/
inductive Place where
  | item (index : Nat)
  | entry (name : String)
deriving DecidableEq, Repr

/-- The part at a place. -/
def part? (v : Value) : Place → Option Value
  | .item index => v.items?.bind fun items => items[index]?
  | .entry name => v.entries?.bind (Entries.get? name)

/-- The part at the end of a path of places. -/
def at? (v : Value) : List Place → Option Value
  | [] => some v
  | place :: path => (v.part? place).bind fun part => part.at? path

/-- The value has the other one as a part, at any depth. -/
def Contains (v part : Value) : Prop :=
  ∃ path, v.at? path = some part

theorem contains_self (v : Value) : v.Contains v :=
  ⟨[], rfl⟩

theorem Contains.of_part? {v w part : Value} {place : Place} (found : v.part? place = some w)
    (contains : w.Contains part) : v.Contains part := by
  obtain ⟨path, leads⟩ := contains
  refine ⟨place :: path, ?_⟩
  rw [at?, found, Option.bind_some, leads]

/-- Every item of a list has a place. -/
theorem exists_place_of_item {items : List Value} {item : Value} (member : item ∈ items) :
    ∃ place, (Value.list items).part? place = some item := by
  obtain ⟨index, found⟩ := List.mem_iff_getElem?.mp member
  exact ⟨.item index, found⟩

/-- Every entry of a map has a place. -/
theorem exists_place_of_entry {entries : Dict Value} {entry : String × Value}
    (member : entry ∈ entries.toList) : ∃ place, (Value.map entries).part? place = some entry.2 :=
  ⟨.entry entry.1, Entries.get?_eq_some_iff.mpr member⟩

end Value

end LineTemplate
