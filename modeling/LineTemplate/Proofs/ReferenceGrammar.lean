import LineTemplate.Proofs.Accounting

/-!
# The grammar of references

A line refers to a name when one of its dollar signs is followed by the name in braces, and the run
of characters that begins there ends right behind the closing brace (`RefersTo`). A run ends with
the line or in front of any character of another class, which may be the next dollar sign.

**The law** (`names_follow_grammar`): the names of a line are those that it refers to, in increasing
order and each once. The scan does not let a digit stand first behind a dollar sign. That rule makes
no difference: a run with a digit in front is no name in braces (`scanFreely_eq`).
-/

namespace LineTemplate.Reference

/-- The characters that a run consists of. -/
def InRun (c : Char) : Prop :=
  ('0' ≤ c ∧ c ≤ '9') ∨ ('A' ≤ c ∧ c ≤ 'Z') ∨ ('a' ≤ c ∧ c ≤ 'z') ∨ c ∈ ['_', '.', '{', '}']

/-- Behind a dollar sign of the line stands the name in braces, and the run ends there. -/
def RefersTo (line : List Char) (name : String) : Prop :=
  name.toList ≠ [] ∧ ∃ front back : List Char,
    line = front ++ '$' :: '{' :: (name.toList ++ '}' :: back) ∧
      (∀ c ∈ name.toList, InRun c) ∧ ∀ c ∈ back.head?, ¬ InRun c

/-- The scan without the rule for a first digit. -/
def scanFreely : Option (List Char) → List Char → List String
  | candidate, [] => closed candidate
  | none, c :: cs => scanFreely (opened c) cs
  | some reversed, c :: cs =>
    if isNameChar c false then scanFreely (some (c :: reversed)) cs
    else closed (some reversed) ++ scanFreely (opened c) cs

variable {name : String} {line text : List Char} {c : Char}

/-! ## References -/

theorem goesOn_iff : goesOn c = true ↔ InRun c := by
  unfold goesOn isNameChar InRun
  by_cases digit : '0' ≤ c ∧ c ≤ '9'
  · simp [digit]
  · rw [if_neg (by simpa using digit), or_iff_right digit]
    simp only [Bool.or_eq_true, Bool.and_eq_true, decide_eq_true_eq, List.contains_iff_mem]
    tauto

theorem stops_iff : Stops text ↔ ∀ c ∈ text.head?, ¬ InRun c := by
  unfold Stops
  simp only [← goesOn_iff, Bool.not_eq_true]

theorem braced_append (name : String) (back : List Char) :
    braced name ++ back = '{' :: (name.toList ++ '}' :: back) := by
  rw [braced, List.cons_append, List.append_assoc, List.singleton_append]

/-- Characters of runs between braces make a run. -/
theorem braced_runs (runs : ∀ c ∈ name.toList, InRun c) : ∀ c ∈ braced name, goesOn c = true := by
  intro c member
  rcases List.mem_cons.mp member with rfl | member
  · decide
  · rcases List.mem_append.mp member with inside | last
    · exact goesOn_iff.mpr (runs c inside)
    · rw [List.mem_singleton.mp last]
      decide

/-- **What a dollar sign refers to**, from what stands behind it. -/
theorem behind?_eq_some_iff : behind? text = some name ↔
    name.toList ≠ [] ∧ ∃ back : List Char, text = '{' :: (name.toList ++ '}' :: back) ∧
      (∀ c ∈ name.toList, InRun c) ∧ ∀ c ∈ back.head?, ¬ InRun c := by
  constructor
  · intro found
    obtain ⟨run, nonempty⟩ := name?_eq_some.mp found
    refine ⟨nonempty, text.dropWhile goesOn, ?_, ?_, stops_iff.mp (stops_dropWhile text)⟩
    · rw [← braced_append, ← run, List.takeWhile_append_dropWhile]
    · intro c member
      have inRun : c ∈ text.takeWhile goesOn := by
        rw [run]
        exact List.mem_cons_of_mem _ (List.mem_append_left _ member)
      exact goesOn_iff.mp (List.mem_takeWhile_imp inRun)
  · rintro ⟨nonempty, back, rfl, runs, ends⟩
    rw [← braced_append, behind?_run (braced_runs runs) (stops_iff.mpr ends)]
    exact name?_eq_some.mpr ⟨rfl, nonempty⟩

theorem mem_names_iff : name ∈ names line ↔ RefersTo line name := by
  rw [mem_names, scanFrom_eq, List.mem_filterMap]
  constructor
  · rintro ⟨behind, place, found⟩
    obtain ⟨front, parts⟩ := mem_behindDollars.mp place
    obtain ⟨nonempty, back, rfl, runs, ends⟩ := behind?_eq_some_iff.mp found
    exact ⟨nonempty, front, back, parts.symm, runs, ends⟩
  · rintro ⟨nonempty, front, back, rfl, runs, ends⟩
    have place : '$' :: '{' :: (name.toList ++ '}' :: back) <:+
        front ++ '$' :: '{' :: (name.toList ++ '}' :: back) := List.suffix_append _ _
    exact ⟨_, mem_behindDollars.mpr place,
      behind?_eq_some_iff.mpr ⟨nonempty, back, rfl, runs, ends⟩⟩

/-! ## The rule for a first digit -/

theorem scanFreely_some_cons (reversed : List Char) (c : Char) (cs : List Char) :
    scanFreely (some reversed) (c :: cs) =
      if goesOn c then scanFreely (some (c :: reversed)) cs
      else closed (some reversed) ++ scanFreely none (c :: cs) := rfl

/-- What opens no candidate is passed over. -/
theorem scanFreely_other (other : c ≠ '$') (cs : List Char) :
    scanFreely none (c :: cs) = scanFreely none cs := by
  rw [scanFreely, opened, if_neg other]

/-- Without the rule, every candidate takes the whole run. -/
theorem scanFreely_run (reversed cs : List Char) :
    scanFreely (some reversed) cs =
      (name? (reversed.reverse ++ cs.takeWhile goesOn)).toList ++ scanFreely none cs := by
  induction cs generalizing reversed with
  | nil =>
    rw [List.takeWhile_nil, List.append_nil]
    exact (List.append_nil _).symm
  | cons c cs ih =>
    rw [scanFreely_some_cons]
    by_cases runs : goesOn c = true
    · rw [if_pos runs, ih, scanFreely_other (ne_dollar_of_goesOn runs),
        List.takeWhile_cons_of_pos runs, List.reverse_cons, List.append_assoc,
        List.singleton_append]
    · rw [if_neg runs, List.takeWhile_cons_of_neg runs, List.append_nil]
      rfl

/-- **The rule makes no difference.** -/
theorem scanFreely_eq (line : List Char) : scanFreely none line = scanFrom none line := by
  induction line with
  | nil => rfl
  | cons c cs ih =>
    by_cases dollar : c = '$'
    · subst dollar
      show scanFreely (some []) cs = _
      rw [scanFreely_run, ih, scanFrom_dollar]
      rfl
    · rw [scanFreely_other dollar, ih, scanFrom_other dollar]

/-! ## The names of a line -/

/-- **The names of a line follow the grammar.** They are the names that the line refers to, in
increasing order of their code points and without repetitions, and a scan that lets digits stand
anywhere in a run finds the same. -/
theorem names_follow_grammar (line : List Char) :
    (∀ name, name ∈ names line ↔ RefersTo line name) ∧
      (names line).Pairwise (fun first second => first.toList < second.toList) ∧
      (names line).Nodup ∧
      names line = (Dict.ofList ((scanFreely none line).map fun name => (name, ()))).names := by
  have increasing := names_increasing line
  refine ⟨fun name => mem_names_iff, increasing, increasing.imp ne_of_lt, ?_⟩
  rw [scanFreely_eq, names]

/-- Dollar signs in a row, a digit in front of a brace, letters of another class, braces in a name,
and a reference at the end of the line. -/
example : names "$$\x7bé\x7d$1\x7ba\x7d$\x7b1\x7dß$\x7b\x7bb\x7d\x7d$\x7bc\x7d".toList =
    ["1", "c", "\x7bb\x7d"] := by
  decide +kernel

end LineTemplate.Reference
