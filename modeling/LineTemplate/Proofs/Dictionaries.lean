import Mathlib.Data.List.Basic
import Mathlib.Data.String.Basic
import LineTemplate.Dict

/-!
# Laws of dictionaries

A dictionary is known by what is found in it (`Entries.ext_get?`). So it is the same in whatever
order its entries are put in, if no name comes twice (`Dict.ofList_of_perm`), and its own list of
entries gives it back (`Dict.ofList_toList`).
-/

namespace LineTemplate

namespace Entries

variable {α : Type} {low : Option String} {name : String}

def isEmpty : Entries α low → Bool
  | nil => true
  | cons .. => false

/-! ## The order of the names -/

theorem behind_of_mem_names {entries : Entries α low} (member : name ∈ entries.names) :
    Behind low name := by
  induction entries with
  | nil => exact absurd member List.not_mem_nil
  | cons key behind a rest ih =>
    rcases List.mem_cons.mp member with rfl | later
    · exact behind
    · intro other isLow
      exact lt_trans (behind other isLow) (ih later key rfl)

theorem names_increasing (entries : Entries α low) : entries.names.Pairwise (· < ·) := by
  induction entries with
  | nil => exact List.Pairwise.nil
  | cons key behind a rest ih =>
    refine List.pairwise_cons.mpr ⟨?_, ih⟩
    intro other later
    exact behind_of_mem_names later key rfl

theorem names_nodup (entries : Entries α low) : entries.names.Nodup :=
  entries.names_increasing.imp ne_of_lt

/-! ## What is found -/

theorem mem_names_of_get? {entries : Entries α low} {a : α} (found : entries.get? name = some a) :
    name ∈ entries.names := by
  induction entries with
  | nil => exact absurd found (Option.some_ne_none a).symm
  | cons key behind b rest ih =>
    rw [get?] at found
    split at found
    next here => exact List.mem_cons.mpr (.inl here.symm)
    next => exact List.mem_cons_of_mem _ (ih found)

theorem get?_of_not_behind {entries : Entries α low} (before : ¬ Behind low name) :
    entries.get? name = none := by
  cases found : entries.get? name with
  | none => rfl
  | some a => exact absurd (behind_of_mem_names (mem_names_of_get? found)) before

theorem not_behind_self (name : String) : ¬ Behind (some name) name :=
  fun behind => lt_irrefl name (behind name rfl)

theorem get?_eq_some_iff {entries : Entries α low} {a : α} :
    entries.get? name = some a ↔ (name, a) ∈ entries.toList := by
  induction entries with
  | nil => simp
  | cons key behind b rest ih =>
    rw [toList_cons, List.mem_cons, ← ih, get?]
    split
    next here =>
      subst here
      rw [get?_of_not_behind (not_behind_self key)]
      simp [eq_comm]
    next different => simp [Ne.symm different]

theorem mem_names_iff {entries : Entries α low} :
    name ∈ entries.names ↔ (entries.get? name).isSome := by
  rw [Option.isSome_iff_exists]
  constructor
  · intro member
    obtain ⟨⟨_, a⟩, found, rfl⟩ := List.mem_map.mp member
    exact ⟨a, get?_eq_some_iff.mpr found⟩
  · rintro ⟨a, found⟩
    exact mem_names_of_get? found

/-- Each of two first names is found on the other side, so neither is in front. -/
theorem first_eq {other : String} {behind : Behind low name} {behind' : Behind low other}
    {a b : α} {rest : Entries α (some name)} {rest' : Entries α (some other)}
    (same : ∀ key, (cons name behind a rest).get? key = (cons other behind' b rest').get? key) :
    name = other := by
  have here := mem_names_of_get? ((same name).symm.trans get?_cons_self)
  have there := mem_names_of_get? ((same other).trans get?_cons_self)
  rcases List.mem_cons.mp here with equal | later
  · exact equal
  · rcases List.mem_cons.mp there with equal | later'
    · exact equal.symm
    · have less := behind_of_mem_names later other rfl
      exact absurd (behind_of_mem_names later' name rfl) (lt_asymm less)

/-- **Entries are known by what is found in them.** -/
theorem ext_get? {entries others : Entries α low}
    (same : ∀ name, entries.get? name = others.get? name) : entries = others := by
  induction entries with
  | nil =>
    cases others with
    | nil => rfl
    | cons key behind a rest => exact absurd (same key) (by simp [get?])
  | cons key behind a rest ih =>
    cases others with
    | nil => exact absurd (same key) (by simp [get?])
    | cons key' behind' a' rest' =>
      have first := first_eq same
      subst first
      have value : a = a' := by
        simpa [get?] using same key
      subst value
      congr 1
      apply ih
      intro name
      by_cases here : key = name
      · subst here
        rw [get?_of_not_behind (not_behind_self key), get?_of_not_behind (not_behind_self key)]
      · simpa only [get?_cons_of_ne here] using same name

/-! ## The same names with other values -/

variable {β : Type}

/-- The same names with other values. -/
def map (f : α → β) : {low : Option String} → Entries α low → Entries β low
  | _, nil => nil
  | _, cons name behind a rest => cons name behind (f a) (rest.map f)

theorem get?_map (f : α → β) (name : String) (entries : Entries α low) :
    (entries.map f).get? name = (entries.get? name).map f := by
  induction entries with
  | nil => rfl
  | cons key behind a rest ih =>
    rw [map, get?, get?]
    split
    · rfl
    · exact ih

theorem toList_map (f : α → β) (entries : Entries α low) :
    (entries.map f).toList = entries.toList.map fun (name, a) => (name, f a) := by
  induction entries with
  | nil => rfl
  | cons key behind a rest ih => exact congrArg ((key, f a) :: ·) ih

/-- A function on entries that keeps the names and goes through the values one by one. -/
theorem eq_map_of_cons {f : α → β} {g : {low : Option String} → Entries α low → Entries β low}
    (nil : ∀ {low}, g (nil : Entries α low) = nil)
    (cons : ∀ {low} name a rest (behind : Behind low name),
      g (cons name behind a rest) = cons name behind (f a) (g rest))
    (entries : Entries α low) : g entries = entries.map f := by
  induction entries with
  | nil => exact nil
  | cons key behind a rest ih => rw [cons, ih, map]

theorem map_map {γ : Type} (g : β → γ) (f : α → β) (entries : Entries α low) :
    (entries.map f).map g = entries.map fun a => g (f a) := by
  induction entries with
  | nil => rfl
  | cons key behind a rest ih => rw [map, map, map, ih]

theorem map_congr {f g : α → β} {entries : Entries α low}
    (same : ∀ entry ∈ entries.toList, f entry.2 = g entry.2) : entries.map f = entries.map g := by
  induction entries with
  | nil => rfl
  | cons key behind a rest ih =>
    rw [toList_cons, List.forall_mem_cons] at same
    rw [map, map, same.1, ih same.2]

theorem map_eq_self_iff {f : α → α} {entries : Entries α low} :
    entries.map f = entries ↔ ∀ entry ∈ entries.toList, f entry.2 = entry.2 := by
  induction entries with
  | nil => simp [map]
  | cons key behind a rest ih =>
    rw [map, toList_cons, List.forall_mem_cons, ← ih]
    simp

end Entries

namespace Dict

variable {α : Type} {name : String}

/-! ## Entries put in one after the other -/

theorem get?_single (name other : String) (a : α) :
    (single name a).get? other = if name = other then some a else none := rfl

theorem get?_insert (name other : String) (a : α) (dict : Dict α) :
    (dict.insert name a).get? other = if other = name then some a else dict.get? other := by
  split
  next here => rw [here, get?_insert_self]
  next different => exact get?_insert_of_ne different a dict

/-- Of two entries with one name the later one stays. -/
theorem insert_insert (name : String) (a b : α) (dict : Dict α) :
    (dict.insert name a).insert name b = dict.insert name b := by
  apply Entries.ext_get?
  intro other
  rw [get?_insert, get?_insert, get?_insert]
  split <;> rfl

/-- What is found after several entries were put in, no two with one name. -/
theorem get?_foldl_insert {entries : List (String × α)} (distinct : (entries.map Prod.fst).Nodup)
    (dict : Dict α) (a : α) :
    (entries.foldl (fun dict (name, a) => dict.insert name a) dict).get? name = some a ↔
      (name, a) ∈ entries ∨ name ∉ entries.map Prod.fst ∧ dict.get? name = some a := by
  induction entries generalizing dict with
  | nil => simp
  | cons entry entries ih =>
    obtain ⟨fresh, distinct⟩ := List.nodup_cons.mp distinct
    rw [List.foldl_cons, ih distinct, get?_insert]
    split
    next here =>
      subst here
      have notLater : (entry.1, a) ∉ entries := fun later =>
        fresh (List.mem_map.mpr ⟨_, later, rfl⟩)
      simp [fresh, notLater, Prod.ext_iff, eq_comm]
    next different => simp [Prod.ext_iff, different]

theorem get?_ofList {entries : List (String × α)} (distinct : (entries.map Prod.fst).Nodup)
    (a : α) : (ofList entries).get? name = some a ↔ (name, a) ∈ entries := by
  rw [ofList, get?_foldl_insert distinct]
  exact or_iff_left fun found => absurd found.2 (Option.some_ne_none a).symm

/-- The entries of a dictionary, put in in whatever order, give it back. -/
theorem ofList_of_perm {entries : List (String × α)} {dict : Dict α}
    (order : entries.Perm dict.toList) : ofList entries = dict := by
  have distinct : (entries.map Prod.fst).Nodup :=
    (order.map Prod.fst).nodup_iff.mpr dict.names_nodup
  apply Entries.ext_get?
  intro name
  apply Option.ext
  intro a
  rw [get?_ofList distinct, Entries.get?_eq_some_iff, order.mem_iff]

theorem ofList_toList (dict : Dict α) : ofList dict.toList = dict :=
  ofList_of_perm (List.Perm.refl _)

theorem mem_names_insert {other : String} {a : α} {dict : Dict α} :
    other ∈ (dict.insert name a).names ↔ other = name ∨ other ∈ dict.names := by
  rw [Entries.mem_names_iff, Entries.mem_names_iff, get?_insert]
  split
  next here => simp [here]
  next different => simp [different]

theorem mem_names_ofList {entries : List (String × α)} :
    name ∈ (ofList entries).names ↔ name ∈ entries.map Prod.fst := by
  have members (dict : Dict α) :
      name ∈ (entries.foldl (fun dict (name, a) => dict.insert name a) dict).names ↔
        name ∈ dict.names ∨ name ∈ entries.map Prod.fst := by
    induction entries generalizing dict with
    | nil => simp
    | cons entry entries ih =>
      rw [List.foldl_cons, ih, mem_names_insert, List.map_cons, List.mem_cons, or_comm (a := _ = _),
        or_assoc]
  exact (members empty).trans (or_iff_right List.not_mem_nil)

end Dict

end LineTemplate
