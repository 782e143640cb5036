/-!
# Dictionaries with ordered names

A dictionary holds entries by name, in increasing order of the names. Names are ordered by code
point, which is the order in which maps are printed. The order is part of the type: an entry comes
with the proof that its name stands behind the name of the entry in front of it, so there is no
dictionary that is out of order, and none with two entries of one name.

`insert` is pinned down by two laws: the name just inserted is found (`get?_insert_self`), every
other name is found as before (`get?_insert_of_ne`).
-/

namespace LineTemplate

/-- A name stands behind another one, if there is another one. -/
def Behind (low : Option String) (name : String) : Prop :=
  ∀ other ∈ low, other < name

/-- Entries in increasing order of their names, which all stand behind `low`. -/
inductive Entries (α : Type) : (low : Option String) → Type
  | nil {low : Option String} : Entries α low
  | cons {low : Option String} (name : String) (behind : Behind low name) (a : α)
    (rest : Entries α (some name)) : Entries α low
deriving Repr

/-- Entries by name. -/
abbrev Dict (α : Type) : Type := Entries α none

theorem Behind.none (name : String) : Behind none name :=
  nofun

theorem Behind.some {name other : String} (less : other < name) : Behind (some other) name := by
  rintro _ ⟨⟩
  exact less

/-- Of two different names one stands behind the other. -/
theorem Behind.of_not_lt {name other : String} (notBefore : ¬ name < other)
    (different : other ≠ name) : Behind (.some other) name := by
  refine .some (Decidable.byContradiction fun notBehind => different ?_)
  exact String.le_antisymm (String.not_lt.mp notBefore) (String.not_lt.mp notBehind)

namespace Entries

variable {α : Type} {low : Option String} {name other : String}

/-- The entries in their order. -/
def toList : {low : Option String} → Entries α low → List (String × α)
  | _, nil => []
  | _, cons name _ a rest => (name, a) :: rest.toList

/-- The names, in order. -/
def names (entries : Entries α low) : List String :=
  entries.toList.map Prod.fst

/-- The entry of a name. -/
def get? (name : String) : {low : Option String} → Entries α low → Option α
  | _, nil => none
  | _, cons key _ a rest => if key = name then some a else rest.get? name

/-- Puts an entry at its place in the order, in place of an earlier one of that name. -/
def insert (name : String) (a : α) :
    {low : Option String} → Behind low name → Entries α low → Entries α low
  | _, behind, nil => cons name behind a nil
  | _, behind, cons key behind' b rest =>
    if before : name < key then cons name behind a (cons key (.some before) b rest)
    else if here : key = name then cons key behind' a rest
    else cons key behind' b (rest.insert name a (.of_not_lt before here))

@[simp] theorem toList_nil : (nil : Entries α low).toList = [] := rfl

@[simp] theorem toList_cons {behind : Behind low name} {a : α} {rest : Entries α (some name)} :
    (cons name behind a rest).toList = (name, a) :: rest.toList := rfl

@[simp] theorem get?_nil : (nil : Entries α low).get? name = none := rfl

theorem get?_cons_self {behind : Behind low name} {a : α} {rest : Entries α (some name)} :
    (cons name behind a rest).get? name = some a :=
  if_pos rfl

theorem get?_cons_of_ne (different : other ≠ name) {behind : Behind low other} {a : α}
    {rest : Entries α (some other)} :
    (cons other behind a rest).get? name = rest.get? name :=
  if_neg different

theorem get?_insert_self (a : α) (behind : Behind low name) (entries : Entries α low) :
    (entries.insert name a behind).get? name = some a := by
  induction entries with
  | nil => exact get?_cons_self
  | cons key behind' b rest ih =>
    rw [insert]
    split
    next => exact get?_cons_self
    next notBefore =>
      split
      next here =>
        subst here
        exact get?_cons_self
      next different => exact (get?_cons_of_ne different).trans (ih _)

theorem get?_insert_of_ne (different : other ≠ name) (a : α) (behind : Behind low name)
    (entries : Entries α low) : (entries.insert name a behind).get? other = entries.get? other := by
  induction entries with
  | nil => exact get?_cons_of_ne (Ne.symm different)
  | cons key behind' b rest ih =>
    rw [insert]
    split
    next => exact get?_cons_of_ne (Ne.symm different)
    next notBefore =>
      split
      next here =>
        subst here
        rw [get?_cons_of_ne (Ne.symm different), get?_cons_of_ne (Ne.symm different)]
      next =>
        rw [get?, get?, ih]

end Entries

namespace Dict

variable {α : Type}

def empty : Dict α := .nil

/-- The dictionary with one entry. -/
def single (name : String) (a : α) : Dict α :=
  .cons name (.none name) a .nil

/-- Puts an entry at its place in the order, in place of an earlier one of that name. -/
def insert (name : String) (a : α) (dict : Dict α) : Dict α :=
  Entries.insert name a (.none name) dict

/-- The dictionary of a list of entries; of two entries with one name the later one stays. -/
def ofList (entries : List (String × α)) : Dict α :=
  entries.foldl (fun dict (name, a) => dict.insert name a) empty

theorem get?_insert_self (name : String) (a : α) (dict : Dict α) :
    (dict.insert name a).get? name = some a :=
  Entries.get?_insert_self a _ dict

theorem get?_insert_of_ne {name other : String} (different : other ≠ name) (a : α)
    (dict : Dict α) : (dict.insert name a).get? other = dict.get? other :=
  Entries.get?_insert_of_ne different a _ dict

end Dict

end LineTemplate
