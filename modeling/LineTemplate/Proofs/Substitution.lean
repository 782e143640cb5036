import LineTemplate.Proofs.Pieces
import LineTemplate.Proofs.Replacement

/-!
# Substitution and a single pass

`singlePass` reads a line once from left to right. It puts what a name shows in place of each
reference and goes on behind the reference, so what it has put there is not read again. A line is
formatted otherwise, one name after the other, and every name is looked for in all of the text that
the earlier names have left.

The two agree on a regular line when no name is spelled by what the names before it show
(`format_eq_of_separate`). The proof follows the names: behind those that are done, the line is its
pieces with these names filled in, and the next name is found at its own references only
(`replaceAll_filled`).
-/

namespace LineTemplate.Reference

variable (provider : Provider) (scopes : Scopes)

/-- What is shown for a name, if it has a value. -/
def shown (name : String) : Option (List Char) :=
  (scopes.lookup provider name).map fun value => (provider.display (some value)).toList

/-- A reference after substitution: a name without a value stays as it is written. -/
def inserted (name : String) : List Char :=
  (shown provider scopes name).getD (written name)

/-- Inserts what the references of a text show; the first `skip` characters belong to a reference
that has been read. -/
def passFrom : (skip : Nat) → List Char → List Char
  | _, [] => []
  | skip + 1, _ :: cs => passFrom skip cs
  | 0, c :: cs =>
    match (opened c).bind fun _ => behind? cs with
    | some name => inserted provider scopes name ++ passFrom (braced name).length cs
    | none => c :: passFrom 0 cs

/-- The line with every reference replaced by what its name shows, in one pass. -/
def singlePass (line : List Char) : List Char :=
  passFrom provider scopes 0 line

/-- No name of this kind is spelled by what such names before it show, one directly behind the
other, unless the name shows its own reference. -/
def Separate (among : String → Prop) : Prop :=
  ∀ name text, IsName name → among name → shown provider scopes name = some text →
    text = written name ∨
      ∀ earlier : List (String × List Char),
        (∀ other ∈ earlier, IsName other.1 ∧ among other.1 ∧ other.1 < name ∧
          shown provider scopes other.1 = some other.2) →
        ¬ written name <:+: earlier.flatMap Prod.snd

/-! ## Pieces after some names -/

namespace Piece

/-- A piece when the names that are done have been substituted. -/
def filled (done : List String) : Piece → List Char
  | .char c => [c]
  | .reference name => if name ∈ done then inserted provider scopes name else written name

end Piece

/-- Pieces in a row when the names that are done have been substituted. -/
def filled (done : List String) (pieces : List Piece) : List Char :=
  pieces.flatMap (Piece.filled provider scopes done)

variable {provider scopes} {name : String} {text rest : List Char} {pieces : List Piece}
  {done : List String}

theorem filled_nil : filled provider scopes [] pieces = spell pieces := by
  have same : Piece.filled provider scopes [] = Piece.spell := by
    funext piece
    cases piece with
    | char c => rfl
    | reference name =>
      rw [Piece.filled, if_neg List.not_mem_nil]
      rfl
  rw [filled, same, spell]

theorem passFrom_skip (front : List Char) :
    passFrom provider scopes front.length (front ++ rest) = passFrom provider scopes 0 rest := by
  induction front with
  | nil => rfl
  | cons c front ih => exact ih

/-- **A single pass fills in all references.** -/
theorem singlePass_spell (proper : Proper pieces)
    (all : ∀ name, .reference name ∈ pieces → name ∈ done) :
    singlePass provider scopes (spell pieces) = filled provider scopes done pieces := by
  unfold singlePass
  induction pieces with
  | nil => rfl
  | cons piece pieces ih =>
    have later (name : String) (member : .reference name ∈ pieces) : name ∈ done :=
      all name (List.mem_cons_of_mem _ member)
    cases piece with
    | char c =>
      have plain : opened c = none := if_neg proper.1
      show passFrom provider scopes 0 (c :: spell pieces) = c :: filled provider scopes done pieces
      rw [passFrom, plain, Option.bind_none, ih proper.2 later]
    | reference name =>
      obtain ⟨isName, stops, proper⟩ := proper
      have here : name ∈ done := all name List.mem_cons_self
      show passFrom provider scopes 0 ('$' :: (braced name ++ spell pieces)) =
        (if name ∈ done then inserted provider scopes name else written name) ++
          filled provider scopes done pieces
      rw [passFrom, opened, if_pos rfl, Option.bind_some, behind?_braced isName stops, if_pos here]
      simp only [passFrom_skip, ih proper later]

/-! ## One name after the other -/

/-- A name with a value is replaced everywhere; one without changes nothing. -/
theorem substitute_cases (provider : Provider) (scopes : Scopes) (text : List Char)
    (name : String) :
    shown provider scopes name = none ∧ substitute provider scopes text name = text ∨
      ∃ value, shown provider scopes name = some (provider.display (some value)).toList ∧
        substitute provider scopes text name =
          Text.replaceAll (written name) (provider.display (some value)).toList text := by
  unfold shown substitute
  cases scopes.lookup provider name with
  | none => exact .inl ⟨rfl, rfl⟩
  | some value => exact .inr ⟨value, rfl, rfl⟩

theorem written_ne_nil (name : String) : written name ≠ [] := List.cons_ne_nil _ _

/-- An occurrence of a reference does not reach over the place where a run stops. -/
theorem prefix_of_stops (isName : IsName name) (stops : Stops rest) {tail : List Char}
    (nonempty : tail ≠ []) (occurs : written name <+: tail ++ rest) : written name <+: tail := by
  rcases List.prefix_or_prefix_of_prefix occurs (List.prefix_append tail rest) with
    inside | ⟨beyond, parts⟩
  · exact inside
  · rw [← parts, List.prefix_append_right_inj] at occurs
    cases beyond with
    | nil => rw [← parts, List.append_nil]
    | cons c beyond =>
      -- the first character behind the seam would run on in the name
      exfalso
      obtain ⟨behind, rfl⟩ := occurs
      have stopped : goesOn c = false := stops c rfl
      have member : c ∈ braced name := by
        cases tail with
        | nil => exact absurd rfl nonempty
        | cons first tail =>
          rw [written_eq, List.cons_append] at parts
          rw [← (List.cons.inj parts).2]
          exact List.mem_append_right _ List.mem_cons_self
      rw [goesOn_of_mem_braced isName member] at stopped
      exact nomatch stopped

/-- A reference that is found where another one is written is that one. -/
theorem eq_of_written_begins {other : String} (isName : IsName name) (isName' : IsName other)
    (occurs : written name <+: written other ++ rest) : name = other := by
  have runs {first second : List Char} (plain : '}' ∉ first) (plain' : '}' ∉ second)
      (same : first ++ ['}'] <+: second ++ '}' :: rest) : first = second := by
    induction first generalizing second with
    | nil =>
      cases second with
      | nil => rfl
      | cons d second =>
        rw [List.nil_append, List.cons_append, List.cons_prefix_cons] at same
        exact absurd (same.1 ▸ List.mem_cons_self) plain'
    | cons c first ih =>
      cases second with
      | nil =>
        rw [List.nil_append, List.cons_append, List.cons_prefix_cons] at same
        exact absurd (same.1 ▸ List.mem_cons_self) plain
      | cons d second =>
        rw [List.cons_append, List.cons_append, List.cons_prefix_cons] at same
        rw [same.1, ih (fun h => plain (List.mem_cons_of_mem _ h))
          (fun h => plain' (List.mem_cons_of_mem _ h)) same.2]
  have inner : name.toList ++ ['}'] <+: other.toList ++ '}' :: rest := by
    simpa [written, List.cons_prefix_cons] using occurs
  exact String.toList_inj.mp (runs isName.not_mem_close isName'.not_mem_close inner)

/-- Another reference is left alone. -/
theorem replaceAll_other {other : String} (isName : IsName name) (isName' : IsName other)
    (ne : name ≠ other) : Text.replaceAll (written name) text (written other ++ rest) =
      written other ++ Text.replaceAll (written name) text rest := by
  have begins : ¬ written name <+: '$' :: (braced other ++ rest) := by
    intro occurs
    exact ne (eq_of_written_begins isName isName' occurs)
  have apart (tail : List Char) (nonempty : tail ≠ []) (inside : tail <:+ braced other)
      (occurs : written name <+: tail ++ rest) : written name <+: tail := by
    exfalso
    cases tail with
    | nil => exact nonempty rfl
    | cons c tail =>
      rw [written_eq, List.cons_append, List.cons_prefix_cons] at occurs
      exact ne_dollar_of_mem_braced isName' c (inside.subset List.mem_cons_self) occurs.1.symm
  have alone : ¬ written name <:+: braced other := by
    intro inside
    exact ne_dollar_of_mem_braced isName' '$' (inside.subset List.mem_cons_self) rfl
  show Text.replaceAll (written name) text ('$' :: (braced other ++ rest)) =
    '$' :: (braced other ++ _)
  rw [Text.replaceAll_cons begins, Text.replaceAll_append (written_ne_nil name) apart,
    Text.replaceAll_of_not_infix alone]

/-- What names in a row have shown is left alone, when it does not spell the name. -/
theorem replaceAll_shown (isName : IsName name) {front : List Char}
    (missing : ¬ written name <:+: front) (stops : front ≠ [] → Stops rest) :
    Text.replaceAll (written name) text (front ++ rest) =
      front ++ Text.replaceAll (written name) text rest := by
  have apart (tail : List Char) (nonempty : tail ≠ []) (inside : tail <:+ front)
      (occurs : written name <+: tail ++ rest) : written name <+: tail := by
    have some : front ≠ [] := by
      rintro rfl
      exact nonempty (List.suffix_nil.mp inside)
    exact prefix_of_stops isName (stops some) nonempty occurs
  rw [Text.replaceAll_append (written_ne_nil name) apart, Text.replaceAll_of_not_infix missing]

theorem filled_cons (piece : Piece) (pieces : List Piece) :
    filled provider scopes done (piece :: pieces) =
      piece.filled provider scopes done ++ filled provider scopes done pieces := rfl

theorem stops_written (name : String) (rest : List Char) : Stops (written name ++ rest) := by
  intro c head
  obtain rfl : '$' = c := Option.some.inj head
  decide

/-- A reference shows the value of its name when that is done, and stays as written otherwise. -/
theorem filled_reference (other : String) :
    (Piece.reference other).filled provider scopes done = written other ∨
      ∃ found, other ∈ done ∧ shown provider scopes other = some found ∧
        (Piece.reference other).filled provider scopes done = found := by
  simp only [Piece.filled]
  by_cases member : other ∈ done
  · rw [if_pos member, inserted]
    cases shows : shown provider scopes other with
    | none => exact .inl rfl
    | some found => exact .inr ⟨found, member, rfl, rfl⟩
  · rw [if_neg member]
    exact .inl rfl

/-- **One step**: behind the names that are done, a name is substituted at its own references only,
when what those names show does not spell it. -/
theorem replaceAll_filled (isName : IsName name) (shows : shown provider scopes name = some text)
    (absent : name ∉ done)
    (missing : ∀ earlier : List (String × List Char),
      (∀ other ∈ earlier, other.1 ∈ done ∧ shown provider scopes other.1 = some other.2) →
      ¬ written name <:+: earlier.flatMap Prod.snd)
    (earlier : List (String × List Char))
    (before : ∀ other ∈ earlier, other.1 ∈ done ∧ shown provider scopes other.1 = some other.2)
    (proper : Proper pieces) (stops : earlier.flatMap Prod.snd ≠ [] → Stops (spell pieces)) :
    Text.replaceAll (written name) text
        (earlier.flatMap Prod.snd ++ filled provider scopes done pieces) =
      earlier.flatMap Prod.snd ++ filled provider scopes (done ++ [name]) pieces := by
  have alone := missing earlier before
  induction pieces generalizing earlier with
  | nil =>
    rw [filled, List.flatMap_nil, List.append_nil, Text.replaceAll_of_not_infix alone]
    exact (List.append_nil _).symm
  | cons piece pieces ih =>
    -- the names in a row end at every piece but another one of them
    have fresh (proper : Proper pieces) : Text.replaceAll (written name) text
        (filled provider scopes done pieces) = filled provider scopes (done ++ [name]) pieces :=
      ih [] nofun proper (fun h => absurd rfl h) (missing [] nofun)
    rw [filled_cons, filled_cons]
    cases piece with
    | char c =>
      have begins : ¬ written name <+: c :: filled provider scopes done pieces := by
        intro occurs
        exact proper.1 (List.cons_prefix_cons.mp occurs).1.symm
      have ends (h : earlier.flatMap Prod.snd ≠ []) :
          Stops (c :: filled provider scopes done pieces) := stops h
      have now (done : List String) : (Piece.char c).filled provider scopes done = [c] := rfl
      rw [now, now, List.singleton_append, replaceAll_shown isName alone ends,
        Text.replaceAll_cons begins, fresh proper.2, List.singleton_append]
    | reference other =>
      obtain ⟨isName', stops', proper⟩ := proper
      by_cases same : other = name
      · subst same
        have now : (Piece.reference other).filled provider scopes done = written other :=
          if_neg absent
        have next : (Piece.reference other).filled provider scopes (done ++ [other]) = text := by
          rw [Piece.filled, if_pos (List.mem_append_right done List.mem_cons_self), inserted, shows]
          rfl
        rw [now, next, replaceAll_shown isName alone fun _ => stops_written other _,
          Text.replaceAll_mark (written_ne_nil other), fresh proper]
      · have next : (Piece.reference other).filled provider scopes (done ++ [name]) =
            (Piece.reference other).filled provider scopes done := by
          simp only [Piece.filled, List.mem_append, List.mem_singleton, same, or_false]
        rw [next]
        rcases filled_reference other with now | ⟨found, member, shows', now⟩
        · rw [now, replaceAll_shown isName alone fun _ => stops_written other _,
            replaceAll_other isName isName' (Ne.symm same), fresh proper]
        · have before' (pair : String × List Char) (inside : pair ∈ earlier ++ [(other, found)]) :
              pair.1 ∈ done ∧ shown provider scopes pair.1 = some pair.2 := by
            rcases List.mem_append.mp inside with inside | last
            · exact before pair inside
            · rw [List.mem_singleton.mp last]
              exact ⟨member, shows'⟩
          have further := ih (earlier ++ [(other, found)]) before' proper (fun _ => stops')
            (missing _ before')
          rw [List.flatMap_append, List.flatMap_singleton, List.append_assoc, List.append_assoc]
            at further
          rw [now, further]

/-- A name whose references stay as they are written changes nothing. -/
theorem filled_concat (same : inserted provider scopes name = written name) :
    filled provider scopes (done ++ [name]) pieces = filled provider scopes done pieces := by
  have unchanged :
      Piece.filled provider scopes (done ++ [name]) = Piece.filled provider scopes done := by
    funext piece
    cases piece with
    | char c => rfl
    | reference other =>
      by_cases here : other = name
      · subst here
        simp only [Piece.filled, same, ite_self]
      · simp only [Piece.filled, List.mem_append, List.mem_singleton, here, or_false]
  rw [filled, unchanged, filled]

/-- What is done before a name does not spell it, or the name shows its own reference. -/
def Undisturbed (provider : Provider) (scopes : Scopes) (done : List String) (name : String) :
    Prop :=
  ∀ text, shown provider scopes name = some text →
    text = written name ∨ ∀ earlier : List (String × List Char),
      (∀ other ∈ earlier, other.1 ∈ done ∧ shown provider scopes other.1 = some other.2) →
      ¬ written name <:+: earlier.flatMap Prod.snd

theorem substitute_filled (isName : IsName name) (absent : name ∉ done)
    (undisturbed : Undisturbed provider scopes done name) (proper : Proper pieces) :
    substitute provider scopes (filled provider scopes done pieces) name =
      filled provider scopes (done ++ [name]) pieces := by
  rcases substitute_cases provider scopes (filled provider scopes done pieces) name with
    ⟨hides, unchanged⟩ | ⟨value, shows, replaced⟩
  · have stays : inserted provider scopes name = written name := by
      rw [inserted, hides, Option.getD_none]
    rw [unchanged, filled_concat stays]
  · rcases undisturbed _ shows with same | missing
    · have stays : inserted provider scopes name = written name := by
        rw [inserted, shows, same, Option.getD_some]
      rw [replaced, same, Text.replaceAll_self (written_ne_nil name), filled_concat stays]
    · rw [replaced]
      exact replaceAll_filled isName shows absent missing [] nofun proper fun h => absurd rfl h

/-- **A run of steps**: names that come after each other in some order, each once, are substituted
at their own references. -/
theorem foldl_filled {before : String → String → Prop} (irreflexive : ∀ name, ¬ before name name)
    (done todo : List String) (ordered : (done ++ todo).Pairwise before)
    (isNames : ∀ name ∈ todo, IsName name)
    (undisturbed : ∀ name ∈ todo, ∀ front : List String,
      (∀ other ∈ front, other ∈ done ++ todo ∧ before other name) →
      Undisturbed provider scopes front name)
    (proper : Proper pieces) :
    todo.foldl (substitute provider scopes) (filled provider scopes done pieces) =
      filled provider scopes (done ++ todo) pieces := by
  induction todo generalizing done with
  | nil => rw [List.foldl_nil, List.append_nil]
  | cons name todo ih =>
    have earlier (other : String) (member : other ∈ done) : before other name :=
      (List.pairwise_append.mp ordered).2.2 other member name List.mem_cons_self
    have absent : name ∉ done := by
      intro member
      exact irreflexive name (earlier name member)
    have here : Undisturbed provider scopes done name := by
      apply undisturbed name List.mem_cons_self
      intro other member
      exact ⟨List.mem_append_left _ member, earlier other member⟩
    rw [List.foldl_cons, substitute_filled (isNames name List.mem_cons_self) absent here proper]
    have parts := List.append_cons done name todo
    rw [parts] at ordered undisturbed ⊢
    exact ih (done ++ [name]) ordered
      (fun other member => isNames other (List.mem_cons_of_mem _ member))
      (fun other member => undisturbed other (List.mem_cons_of_mem _ member))

/-- Names of this kind are not disturbed by those before them. -/
theorem Separate.undisturbed {among : String → Prop} (separate : Separate provider scopes among)
    (isName : IsName name) (member : among name)
    (before : ∀ other ∈ done, IsName other ∧ among other ∧ other < name) :
    Undisturbed provider scopes done name := by
  intro text shows
  refine (separate name text isName member shows).imp_right ?_
  intro missing earlier inside
  apply missing earlier
  intro other here
  obtain ⟨inDone, shows'⟩ := inside other here
  obtain ⟨isName', member', less⟩ := before _ inDone
  exact ⟨isName', member', less, shows'⟩

/-- Where no name is spelled by what names before it show, a line is formatted in a single pass. -/
theorem format_eq_of_separate {among : String → Prop} (separate : Separate provider scopes among)
    {line : List Char} (regular : Regular line) (kind : ∀ name ∈ names line, among name) :
    format provider scopes line = singlePass provider scopes line := by
  obtain ⟨pieces, proper, rfl⟩ := regular.exists_pieces
  have isNames (name : String) (member : name ∈ names (spell pieces)) : IsName name :=
    proper.isName ((mem_names_spell proper).mp member)
  have steps : (names (spell pieces)).foldl (substitute provider scopes)
      (filled provider scopes [] pieces) =
        filled provider scopes (names (spell pieces)) pieces := by
    refine foldl_filled lt_irrefl [] _ (names_increasing _) isNames ?_ proper
    intro name member before inside
    apply separate.undisturbed (isNames name member) (kind name member)
    intro other here
    obtain ⟨inLine, less⟩ := inside other here
    exact ⟨isNames other inLine, kind other inLine, less⟩
  rw [filled_nil] at steps
  rw [format, steps, singlePass_spell proper fun name => (mem_names_spell proper).mpr]

end LineTemplate.Reference
