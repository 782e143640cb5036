import Mathlib.Data.List.TakeWhile
import LineTemplate.Proofs.References

/-!
# A line as its pieces

A line is regular when every dollar sign in it begins a reference, and no name has a brace of its
own. Such a line is a row of characters and references (`Regular.exists_pieces`), and a reference is
never followed by a character that would run on in its name. The names of the line are those of its
references (`mem_names_spell`).
-/

namespace LineTemplate.Reference

/-- A name without braces, as it can stand in a reference. -/
structure IsName (name : String) : Prop where
  nonempty : name.toList ≠ []
  runs : ∀ c ∈ name.toList, goesOn c = true ∧ c ≠ '{' ∧ c ≠ '}'

instance (name : String) : Decidable (IsName name) :=
  decidable_of_iff
    (name.toList ≠ [] ∧ (name.toList.all fun c => goesOn c && c != '{' && c != '}') = true) <| by
      rw [List.all_eq_true]
      simp only [Bool.and_eq_true, bne_iff_ne, and_assoc]
      exact ⟨fun ⟨nonempty, runs⟩ => ⟨nonempty, runs⟩, fun ⟨nonempty, runs⟩ => ⟨nonempty, runs⟩⟩

theorem IsName.not_mem_open {name : String} (isName : IsName name) : '{' ∉ name.toList := by
  intro member
  exact (isName.runs _ member).2.1 rfl

theorem IsName.not_mem_close {name : String} (isName : IsName name) : '}' ∉ name.toList := by
  intro member
  exact (isName.runs _ member).2.2 rfl

/-- Every dollar sign begins a reference, and no name has a brace of its own. -/
def Regular (line : List Char) : Prop :=
  ∀ back, '$' :: back <:+ line →
    ∃ name, behind? back = some name ∧ '{' ∉ name.toList ∧ '}' ∉ name.toList

/-- No candidate runs on into the text. -/
def Stops (text : List Char) : Prop :=
  ∀ c ∈ text.head?, goesOn c = false

inductive Piece where
  | char (c : Char)
  | reference (name : String)

namespace Piece

def spell : Piece → List Char
  | .char c => [c]
  | .reference name => written name

def name? : Piece → Option String
  | .char _ => none
  | .reference name => some name

end Piece

/-- The text of pieces in a row. -/
def spell (pieces : List Piece) : List Char :=
  pieces.flatMap Piece.spell

/-- The pieces can stand in a row: a dollar sign is no single character, and each reference ends
where the next piece begins. -/
def Proper : List Piece → Prop
  | [] => True
  | .char c :: pieces => c ≠ '$' ∧ Proper pieces
  | .reference name :: pieces => IsName name ∧ Stops (spell pieces) ∧ Proper pieces

/-! ## Runs -/

theorem takeWhile_run {text rest : List Char} (runs : ∀ c ∈ text, goesOn c = true)
    (stops : Stops rest) : (text ++ rest).takeWhile goesOn = text := by
  have ends : rest.takeWhile goesOn = [] := by
    cases rest with
    | nil => rfl
    | cons c rest => rw [List.takeWhile_cons_of_neg (by rw [stops c rfl]; exact nofun)]
  rw [List.takeWhile_append_of_pos runs, ends, List.append_nil]

/-- The reference that a dollar sign begins is told by its run. -/
theorem behind?_run {text rest : List Char} (runs : ∀ c ∈ text, goesOn c = true)
    (stops : Stops rest) : behind? (text ++ rest) = name? text := by
  rw [behind?, takeWhile_run runs stops]

theorem stops_dropWhile (text : List Char) : Stops (text.dropWhile goesOn) := by
  intro c head
  have ends := List.head?_dropWhile_not goesOn text
  rw [Option.mem_def.mp head] at ends
  exact ends

/-! ## A name in braces -/

/-- What stands behind the dollar sign of a reference. -/
def braced (name : String) : List Char :=
  '{' :: (name.toList ++ ['}'])

variable {name : String} {line rest : List Char} {pieces : List Piece}

theorem written_eq (name : String) : written name = '$' :: braced name := rfl

theorem goesOn_of_mem_braced (isName : IsName name) {c : Char} (member : c ∈ braced name) :
    goesOn c = true := by
  rcases List.mem_cons.mp member with rfl | member
  · decide
  · rcases List.mem_append.mp member with member | last
    · exact (isName.runs c member).1
    · rw [List.mem_singleton.mp last]
      decide

theorem ne_dollar_of_mem_braced (isName : IsName name) : ∀ c ∈ braced name, c ≠ '$' := by
  intro c member
  exact ne_dollar_of_goesOn (goesOn_of_mem_braced isName member)

theorem name?_eq_some {candidate : List Char} :
    name? candidate = some name ↔ candidate = braced name ∧ name.toList ≠ [] := by
  constructor
  · intro found
    unfold name? at found
    split at found
    next inner =>
      by_cases ends : (inner.getLast? = some '}' && 1 < inner.length) = true
      · rw [if_pos ends] at found
        rw [Bool.and_eq_true, decide_eq_true_eq, decide_eq_true_eq] at ends
        obtain rfl := Option.some.inj found
        rw [braced, String.toList_ofList, List.dropLast_append_getLast? '}' ends.1]
        refine ⟨rfl, ?_⟩
        intro empty
        have length := congrArg List.length empty
        rw [List.length_dropLast, List.length_nil] at length
        omega
      · rw [if_neg ends] at found
        exact nomatch found
    next => exact nomatch found
  · rintro ⟨rfl, nonempty⟩
    have long : 1 < (name.toList ++ ['}']).length := by
      have positive := List.length_pos_iff.mpr nonempty
      rw [List.length_append, List.length_singleton]
      omega
    have ends : ((name.toList ++ ['}']).getLast? = some '}' &&
        1 < (name.toList ++ ['}']).length) = true := by
      rw [Bool.and_eq_true, decide_eq_true_eq, decide_eq_true_eq]
      exact ⟨List.getLast?_concat, long⟩
    rw [braced, name?, if_pos ends, List.dropLast_concat, String.ofList_toList]

/-- A name in braces is read as a reference where the text behind it stops the run. -/
theorem behind?_braced (isName : IsName name) (stops : Stops rest) :
    behind? (braced name ++ rest) = some name := by
  rw [behind?_run (fun c => goesOn_of_mem_braced isName) stops]
  exact name?_eq_some.mpr ⟨rfl, isName.nonempty⟩

/-- A reference that is read is a name in braces, and the text behind it stops the run. -/
theorem exists_of_behind? {text : List Char} (found : behind? text = some name)
    (noOpen : '{' ∉ name.toList) (noClose : '}' ∉ name.toList) :
    IsName name ∧ ∃ rest, text = braced name ++ rest ∧ Stops rest := by
  obtain ⟨run, nonempty⟩ := name?_eq_some.mp found
  constructor
  · refine ⟨nonempty, ?_⟩
    intro c member
    refine ⟨?_, ?_, ?_⟩
    · have inRun : c ∈ text.takeWhile goesOn := by
        rw [run]
        exact List.mem_cons_of_mem _ (List.mem_append_left _ member)
      exact List.mem_takeWhile_imp inRun
    · rintro rfl
      exact noOpen member
    · rintro rfl
      exact noClose member
  · refine ⟨text.dropWhile goesOn, ?_, ?_⟩
    · rw [← run, List.takeWhile_append_dropWhile]
    · exact stops_dropWhile text

/-! ## Regular lines -/

theorem Regular.suffix {back : List Char} (regular : Regular line) (inside : back <:+ line) :
    Regular back := by
  intro behind begins
  exact regular behind (begins.trans inside)

/-- **A regular line is a row of pieces.** -/
theorem Regular.exists_pieces (regular : Regular line) :
    ∃ pieces, Proper pieces ∧ spell pieces = line := by
  induction h : line.length using Nat.strong_induction_on generalizing line with
  | h length ih =>
    subst h
    cases line with
    | nil => exact ⟨[], trivial, rfl⟩
    | cons c cs =>
      by_cases dollar : c = '$'
      · subst dollar
        obtain ⟨name, found, noOpen, noClose⟩ := regular cs (List.suffix_refl _)
        obtain ⟨isName, rest, rfl, stops⟩ := exists_of_behind? found noOpen noClose
        have inside : rest <:+ '$' :: (braced name ++ rest) :=
          (List.suffix_append _ rest).trans (List.suffix_cons '$' _)
        have shorter : rest.length < ('$' :: (braced name ++ rest)).length := by
          rw [List.length_cons, List.length_append]
          omega
        obtain ⟨pieces, proper, rfl⟩ := ih _ shorter (regular.suffix inside) rfl
        exact ⟨.reference name :: pieces, ⟨isName, stops, proper⟩, rfl⟩
      · obtain ⟨pieces, proper, rfl⟩ :=
          ih _ (Nat.lt_succ_self _) (regular.suffix (List.suffix_cons c cs)) rfl
        exact ⟨.char c :: pieces, ⟨dollar, proper⟩, rfl⟩

/-- A dollar sign behind a text without one stands in what follows. -/
theorem suffix_of_append {front back : List Char} (plain : ∀ c ∈ front, c ≠ '$')
    (inside : '$' :: back <:+ front ++ rest) : '$' :: back <:+ rest := by
  induction front with
  | nil => exact inside
  | cons c front ih =>
    rcases List.suffix_cons_iff.mp inside with same | later
    · exact (plain c List.mem_cons_self (List.cons.inj same).1.symm).elim
    · exact ih (fun c member => plain c (List.mem_cons_of_mem _ member)) later

/-- Pieces in a row make a regular line. -/
theorem Proper.regular (proper : Proper pieces) : Regular (spell pieces) := by
  induction pieces with
  | nil =>
    intro back inside
    exact nomatch List.suffix_nil.mp inside
  | cons piece pieces ih =>
    intro back inside
    cases piece with
    | char c =>
      rcases List.suffix_cons_iff.mp inside with same | later
      · exact (proper.1 (List.cons.inj same).1.symm).elim
      · exact ih proper.2 back later
    | reference name =>
      obtain ⟨isName, stops, proper⟩ := proper
      rcases List.suffix_cons_iff.mp inside with same | later
      · have found : behind? back = some name := by
          rw [(List.cons.inj same).2]
          exact behind?_braced isName stops
        exact ⟨name, found, isName.not_mem_open, isName.not_mem_close⟩
      · exact ih proper back (suffix_of_append (ne_dollar_of_mem_braced isName) later)

/-! ## The names of a regular line -/

theorem scanFrom_append {front : List Char} (plain : ∀ c ∈ front, c ≠ '$') (rest : List Char) :
    scanFrom none (front ++ rest) = scanFrom none rest := by
  induction front with
  | nil => rfl
  | cons c front ih =>
    rw [List.cons_append, scanFrom_other (plain c List.mem_cons_self),
      ih fun c member => plain c (List.mem_cons_of_mem _ member)]

/-- The scan finds the references of the pieces. -/
theorem scanFrom_spell (proper : Proper pieces) :
    scanFrom none (spell pieces) = pieces.filterMap Piece.name? := by
  induction pieces with
  | nil => rfl
  | cons piece pieces ih =>
    cases piece with
    | char c => exact (scanFrom_other proper.1 _).trans (ih proper.2)
    | reference name =>
      obtain ⟨isName, stops, proper⟩ := proper
      show scanFrom none ('$' :: (braced name ++ spell pieces)) = _
      rw [scanFrom_dollar, behind?_braced isName stops,
        scanFrom_append (ne_dollar_of_mem_braced isName), ih proper]
      rfl

theorem mem_names_spell (proper : Proper pieces) :
    name ∈ names (spell pieces) ↔ .reference name ∈ pieces := by
  rw [mem_names, scanFrom_spell proper, List.mem_filterMap]
  constructor
  · rintro ⟨piece, member, found⟩
    cases piece with
    | char c => exact nomatch found
    | reference other => exact Option.some.inj found ▸ member
  · intro member
    exact ⟨_, member, rfl⟩

theorem Proper.isName (proper : Proper pieces) (member : .reference name ∈ pieces) :
    IsName name := by
  induction pieces with
  | nil => exact (List.not_mem_nil member).elim
  | cons piece pieces ih =>
    cases piece with
    | char c =>
      rcases List.mem_cons.mp member with same | later
      · exact nomatch same
      · exact ih proper.2 later
    | reference other =>
      rcases List.mem_cons.mp member with same | later
      · obtain rfl := Piece.reference.inj same
        exact proper.1
      · exact ih proper.2.2 later

end LineTemplate.Reference
