import Mathlib.Data.Finset.Card
import LineTemplate.Proofs.Substitution

/-!
# Inserted text that is read again

A line is formatted one name after the other, so a name can be found in what earlier names have
shown. It depends on the values and on the order of the names whether that happens.

**The law** (`format_eq_singlePass_iff`): on all regular lines with names of some kind, formatting
is a single pass exactly when no name of that kind can be spelled by what the names before it show.
When one can, a line that refers to these names in a row shows the difference (`probe`).
-/

namespace LineTemplate.Reference

variable {provider : Provider} {scopes : Scopes} {name : String} {text : List Char}
  {done : List String}

/-- References to names in a row, and one more reference apart from them. -/
def probe (earlier : List (String × List Char)) (name : String) : List Piece :=
  earlier.map (fun other => .reference other.1) ++ [.char ' ', .reference name]

theorem probe_proper (isName : IsName name) {earlier : List (String × List Char)}
    (isNames : ∀ other ∈ earlier, IsName other.1) : Proper (probe earlier name) := by
  induction earlier with
  | nil => exact ⟨by decide, isName, nofun, trivial⟩
  | cons other earlier ih =>
    refine ⟨isNames other List.mem_cons_self, ?_,
      ih fun o h => isNames o (List.mem_cons_of_mem _ h)⟩
    intro c head
    cases earlier with
    | nil =>
      obtain rfl : ' ' = c := Option.some.inj head
      decide
    | cons next earlier =>
      obtain rfl : '$' = c := Option.some.inj head
      decide

theorem mem_probe {earlier : List (String × List Char)} {other : String} :
    .reference other ∈ probe earlier name ↔ other ∈ earlier.map Prod.fst ∨ other = name := by
  simp [probe]

theorem filled_probe {earlier : List (String × List Char)}
    (before : ∀ other ∈ earlier, other.1 ∈ done ∧ shown provider scopes other.1 = some other.2) :
    filled provider scopes done (probe earlier name) =
      earlier.flatMap Prod.snd ++
        ' ' :: (if name ∈ done then inserted provider scopes name else written name) := by
  induction earlier with
  | nil =>
    show [' '] ++ (_ ++ []) = _
    rw [List.append_nil]
    rfl
  | cons other earlier ih =>
    obtain ⟨member, shows⟩ := before other List.mem_cons_self
    have first : (Piece.reference other.1).filled provider scopes done = other.2 := by
      rw [Piece.filled, if_pos member, inserted, shows]
      rfl
    show (Piece.reference other.1).filled provider scopes done ++
      filled provider scopes done (probe earlier name) = _
    rw [first, ih fun o h => before o (List.mem_cons_of_mem _ h), List.flatMap_cons,
      List.append_assoc]

/-- The greatest of some names in increasing order is the last one. -/
theorem exists_init {all : List String} (increasing : all.Pairwise (· < ·)) (member : name ∈ all)
    (greatest : ∀ other ∈ all, other ≤ name) :
    ∃ init, all = init ++ [name] ∧ ∀ other ∈ init, other < name := by
  obtain ⟨init, back, rfl⟩ := List.append_of_mem member
  obtain ⟨-, later, less⟩ := List.pairwise_append.mp increasing
  cases back with
  | nil => exact ⟨init, rfl, fun other inside => less other inside name List.mem_cons_self⟩
  | cons next back =>
    have more : name < next := (List.pairwise_cons.mp later).1 next List.mem_cons_self
    have most : next ≤ name := greatest next (by simp)
    exact absurd more (not_lt.mpr most)

/-- The last step of the probe finds the name in what the others show. -/
theorem replaceAll_probe (isName : IsName name) (front : List Char) :
    Text.replaceAll (written name) text (front ++ ' ' :: written name) =
      Text.replaceAll (written name) text front ++ ' ' :: text := by
  have stops : Stops (' ' :: written name) := by
    intro c head
    obtain rfl : ' ' = c := Option.some.inj head
    decide
  have begins : ¬ written name <+: ' ' :: written name := by
    intro occurs
    exact absurd (List.cons_prefix_cons.mp occurs).1 (by decide)
  have last : Text.replaceAll (written name) text (written name) = text := by
    have replaced : Text.replaceAll (written name) text (written name ++ []) = text ++ [] :=
      Text.replaceAll_mark (written_ne_nil name) []
    rwa [List.append_nil, List.append_nil] at replaced
  rw [Text.replaceAll_append (written_ne_nil name) fun tail nonempty _ occurs =>
    prefix_of_stops isName stops nonempty occurs, Text.replaceAll_cons begins, last]

/-- The names of a probe are those in the row, and the one behind them is the last. -/
theorem exists_names_probe (isName : IsName name) {earlier : List (String × List Char)}
    (before : ∀ other ∈ earlier, IsName other.1 ∧ other.1 < name) :
    ∃ init, names (spell (probe earlier name)) = init ++ [name] ∧
      ∀ found, found ∈ init ↔ found ∈ earlier.map Prod.fst := by
  have inLine (found : String) : found ∈ names (spell (probe earlier name)) ↔
      found ∈ earlier.map Prod.fst ∨ found = name :=
    (mem_names_spell (probe_proper isName fun other here => (before other here).1)).trans mem_probe
  have smaller {found : String} (inside : found ∈ earlier.map Prod.fst) : found < name := by
    obtain ⟨pair, here, rfl⟩ := List.mem_map.mp inside
    exact (before pair here).2
  have greatest (found : String) (inside : found ∈ names (spell (probe earlier name))) :
      found ≤ name := by
    rcases (inLine found).mp inside with inside | rfl
    · exact le_of_lt (smaller inside)
    · exact le_refl _
  obtain ⟨init, all, less⟩ :=
    exists_init (names_increasing _) ((inLine name).mpr (.inr rfl)) greatest
  refine ⟨init, all, ?_⟩
  intro found
  constructor
  · intro inside
    have either := (inLine found).mp (by rw [all]; exact List.mem_append_left _ inside)
    exact either.resolve_right (ne_of_lt (less found inside))
  · intro inside
    have here := (inLine found).mpr (.inl inside)
    rw [all, List.mem_append, List.mem_singleton] at here
    exact here.resolve_right (ne_of_lt (smaller inside))

/-- **A probe shows what is read again.** Up to its last name it is formatted as in a single pass;
if the others spell that name, the last step changes what they show. -/
theorem format_probe_ne (isName : IsName name) (shows : shown provider scopes name = some text)
    (other : text ≠ written name) {earlier : List (String × List Char)}
    (before : ∀ other ∈ earlier, IsName other.1 ∧ other.1 < name ∧
      shown provider scopes other.1 = some other.2)
    {init : List String} (all : names (spell (probe earlier name)) = init ++ [name])
    (same : ∀ found, found ∈ init ↔ found ∈ earlier.map Prod.fst)
    (steps : init.foldl (substitute provider scopes) (spell (probe earlier name)) =
      filled provider scopes init (probe earlier name))
    (occurs : written name <:+: earlier.flatMap Prod.snd) :
    format provider scopes (spell (probe earlier name)) ≠
      singlePass provider scopes (spell (probe earlier name)) := by
  have proper := probe_proper isName fun other here => (before other here).1
  have filledRow {done : List String} (more : ∀ found ∈ init, found ∈ done)
      (pair : String × List Char) (here : pair ∈ earlier) :
      pair.1 ∈ done ∧ shown provider scopes pair.1 = some pair.2 :=
    ⟨more _ ((same _).mpr (List.mem_map_of_mem here)), (before pair here).2.2⟩
  have absent : name ∉ init := by
    intro inside
    obtain ⟨pair, here, equal⟩ := List.mem_map.mp ((same name).mp inside)
    exact lt_irrefl name (equal ▸ (before pair here).2.1)
  have step (front : List Char) : substitute provider scopes front name =
      Text.replaceAll (written name) text front := by
    obtain ⟨value, found, rfl⟩ := Option.map_eq_some_iff.mp shows
    simp only [substitute, found]
  have formats : format provider scopes (spell (probe earlier name)) =
      Text.replaceAll (written name) text (earlier.flatMap Prod.snd) ++ ' ' :: text := by
    rw [format, all, List.foldl_append, steps, List.foldl_cons, List.foldl_nil, step,
      filled_probe (filledRow fun _ => id), if_neg absent, replaceAll_probe isName]
  have passes : singlePass provider scopes (spell (probe earlier name)) =
      earlier.flatMap Prod.snd ++ ' ' :: text := by
    have last : name ∈ init ++ [name] := List.mem_append_right _ List.mem_cons_self
    rw [singlePass_spell proper fun found here => all ▸ (mem_names_spell proper).mpr here,
      filled_probe (filledRow fun _ => List.mem_append_left _), if_pos last, inserted, shows]
    rfl
  intro agree
  rw [formats, passes] at agree
  exact Text.replaceAll_ne_self (written_ne_nil name) other occurs (List.append_cancel_right agree)

/-- There are fewer names before an earlier name. -/
theorem card_lt_card {first second : List (String × List Char)}
    (member : name ∈ second.map Prod.fst)
    (before : ∀ other ∈ first, other.1 ∈ second.map Prod.fst ∧ other.1 < name) :
    (first.map Prod.fst).toFinset.card < (second.map Prod.fst).toFinset.card := by
  apply Finset.card_lt_card
  constructor
  · intro found here
    obtain ⟨pair, inside, rfl⟩ := List.mem_map.mp (List.mem_toFinset.mp here)
    exact List.mem_toFinset.mpr (before pair inside).1
  · intro all
    have again := List.mem_toFinset.mp (all (List.mem_toFinset.mpr member))
    obtain ⟨pair, inside, equal⟩ := List.mem_map.mp again
    exact lt_irrefl name (equal ▸ (before pair inside).2)

/-- Where formatting is a single pass on all lines of a kind, no name is spelled by earlier ones. -/
theorem not_spelled {among : String → Prop}
    (agree : ∀ line, Regular line → (∀ name ∈ names line, among name) →
      format provider scopes line = singlePass provider scopes line)
    (isName : IsName name) (member : among name) (shows : shown provider scopes name = some text)
    (other : text ≠ written name) {earlier : List (String × List Char)}
    (before : ∀ other ∈ earlier, IsName other.1 ∧ among other.1 ∧ other.1 < name ∧
      shown provider scopes other.1 = some other.2) :
    ¬ written name <:+: earlier.flatMap Prod.snd := by
  -- by induction on the count of names in the row: among themselves nothing is read again
  induction h : (earlier.map Prod.fst).toFinset.card using Nat.strong_induction_on
    generalizing name text earlier with
  | h count ih =>
    subst h
    intro occurs
    have row (pair : String × List Char) (here : pair ∈ earlier) : IsName pair.1 ∧ pair.1 < name :=
      ⟨(before pair here).1, (before pair here).2.2.1⟩
    have proper := probe_proper isName fun other here => (row other here).1
    obtain ⟨init, all, same⟩ := exists_names_probe isName row
    have known {found : String} (inside : found ∈ init) : IsName found ∧ among found := by
      obtain ⟨pair, here, rfl⟩ := List.mem_map.mp ((same found).mp inside)
      exact ⟨(before pair here).1, (before pair here).2.1⟩
    have increasing : ([] ++ init).Pairwise (· < ·) :=
      (List.pairwise_append.mp (all ▸ names_increasing _)).1
    have steps : init.foldl (substitute provider scopes)
        (filled provider scopes [] (probe earlier name)) =
          filled provider scopes init (probe earlier name) := by
      refine foldl_filled lt_irrefl [] init increasing (fun found inside => (known inside).1) ?_
        proper
      intro found inside smaller within text' shows'
      by_cases own : text' = written found
      · exact .inl own
      · right
        intro earlier' inside'
        have fewer := card_lt_card ((same found).mp inside) fun other here =>
          ⟨(same _).mp (within _ (inside' other here).1).1, (within _ (inside' other here).1).2⟩
        refine ih _ fewer (known inside).1 (known inside).2 shows' own ?_ rfl
        intro pair here
        obtain ⟨inInit, less⟩ := within _ (inside' pair here).1
        exact ⟨(known inInit).1, (known inInit).2, less, (inside' pair here).2⟩
    rw [filled_nil] at steps
    refine format_probe_ne isName shows other ?_ all same steps occurs ?_
    · intro pair here
      exact ⟨(before pair here).1, (before pair here).2.2⟩
    · apply agree _ proper.regular
      intro found inside
      rw [all, List.mem_append, List.mem_singleton] at inside
      rcases inside with inside | rfl
      · exact (known inside).2
      · exact member

/-- **When inserted text is not read again.** On all regular lines with names of some kind,
formatting is a single pass exactly when no name of that kind is spelled by what such names before
it show, one directly behind the other, unless the name shows its own reference. -/
theorem format_eq_singlePass_iff (provider : Provider) (scopes : Scopes) (among : String → Prop) :
    (∀ line, Regular line → (∀ name ∈ names line, among name) →
      format provider scopes line = singlePass provider scopes line) ↔
    Separate provider scopes among := by
  constructor
  · intro agree name text isName member shows
    by_cases own : text = written name
    · exact .inl own
    · right
      intro earlier before
      exact not_spelled agree isName member shows own before
  · intro separate line regular kind
    exact format_eq_of_separate separate regular kind

/-- The value of the first name spells the second one, and is read again. -/
theorem format_rereads :
    Regular "$\x7ba\x7d $\x7bb\x7d".toList ∧
      format (Table.provider (.ofEntries [("a", .string "$\x7bb\x7d"), ("b", .string "X")])) .root
        "$\x7ba\x7d $\x7bb\x7d".toList = "X X".toList ∧
      singlePass (Table.provider (.ofEntries [("a", .string "$\x7bb\x7d"), ("b", .string "X")]))
        .root "$\x7ba\x7d $\x7bb\x7d".toList = "$\x7bb\x7d X".toList := by
  have isName (c : Char) (runs : goesOn c = true ∧ c ≠ '{' ∧ c ≠ '}') :
      IsName (String.ofList [c]) := by
    refine ⟨by rw [String.toList_ofList]; exact List.cons_ne_nil c [], fun d member => ?_⟩
    rw [String.toList_ofList, List.mem_singleton] at member
    rwa [member]
  have proper : Proper (probe [("a", [])] "b") :=
    probe_proper (isName 'b' (by decide)) fun other here => by
      rw [List.mem_singleton.mp here]
      exact isName 'a' (by decide)
  exact ⟨proper.regular, by cbv, by cbv⟩

end LineTemplate.Reference
