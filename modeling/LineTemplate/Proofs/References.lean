import Mathlib.Data.List.Basic
import Mathlib.Data.String.Basic
import LineTemplate.Proofs.Dictionaries
import LineTemplate.Reference

/-!
# Where a line refers to a name

The scan of a line carries a candidate from character to character. Said of the text alone, the
reference behind a dollar sign is the longest run of characters of a name, if it stands in braces
(`Reference.behind?`). `scanFrom_dollar` and `scanFrom_other` say that the scan finds exactly these:
a run that ends in front of a dollar sign loses nothing, and a leading digit only ends a candidate
that has no brace in front.

The names of a line come in increasing order, each once (`names_increasing`).
-/

namespace LineTemplate

namespace Reference

/-! ## The scan -/

/-- A character that a candidate runs on over, once it has begun. -/
def goesOn (c : Char) : Bool :=
  isNameChar c false

/-- The name of the reference that a dollar sign in front of this text begins. -/
def behind? (text : List Char) : Option String :=
  name? (text.takeWhile goesOn)

theorem ne_dollar_of_goesOn {c : Char} (runs : goesOn c = true) : c ≠ '$' := by
  rintro rfl
  exact absurd runs (by decide)

theorem goesOn_of_first {c : Char} (first : isNameChar c true = true) : goesOn c = true := by
  unfold isNameChar at first
  unfold goesOn isNameChar
  split at first
  · exact nomatch first
  next notDigit =>
    rw [if_neg notDigit]
    exact first

theorem scanFrom_cons (c : Char) (cs : List Char) :
    scanFrom none (c :: cs) = scanFrom (opened c) cs := rfl

theorem scanFrom_some_cons (reversed : List Char) (c : Char) (cs : List Char) :
    scanFrom (some reversed) (c :: cs) =
      if isNameChar c reversed.isEmpty then scanFrom (some (c :: reversed)) cs
      else closed (some reversed) ++ scanFrom none (c :: cs) := rfl

theorem scanFrom_other {c : Char} (other : c ≠ '$') (cs : List Char) :
    scanFrom none (c :: cs) = scanFrom none cs := by
  rw [scanFrom_cons, opened, if_neg other]

/-- A candidate that has begun takes the rest of its run; the scan then goes on as at the start. -/
theorem scanFrom_run (c : Char) (reversed cs : List Char) :
    scanFrom (some (c :: reversed)) cs =
      (name? ((c :: reversed).reverse ++ cs.takeWhile goesOn)).toList ++ scanFrom none cs := by
  induction cs generalizing c reversed with
  | nil =>
    rw [List.takeWhile_nil, List.append_nil]
    exact (List.append_nil _).symm
  | cons d cs ih =>
    rw [scanFrom_some_cons, List.isEmpty_cons]
    by_cases runs : goesOn d = true
    · rw [goesOn] at runs
      rw [if_pos runs, ih, scanFrom_other (ne_dollar_of_goesOn runs),
        List.takeWhile_cons_of_pos (p := goesOn) runs, List.reverse_cons, List.append_assoc,
        List.singleton_append]
    · rw [goesOn] at runs
      rw [if_neg runs, List.takeWhile_cons_of_neg (p := goesOn) runs, List.append_nil]
      rfl

/-- **The scan finds the reference behind every dollar sign.** -/
theorem scanFrom_dollar (cs : List Char) :
    scanFrom none ('$' :: cs) = (behind? cs).toList ++ scanFrom none cs := by
  show scanFrom (some []) cs = _
  cases cs with
  | nil => rfl
  | cons c cs =>
    rw [scanFrom_some_cons, List.isEmpty_nil]
    by_cases first : isNameChar c true = true
    · have runs := goesOn_of_first first
      rw [if_pos first, scanFrom_run, scanFrom_other (ne_dollar_of_goesOn runs), behind?,
        List.takeWhile_cons_of_pos runs]
      rfl
    · -- the run in front of which the scan stops is empty or begins with a digit, not with a brace
      have missing : behind? (c :: cs) = none := by
        rw [behind?, List.takeWhile_cons]
        split
        · apply name?.eq_2
          intro rest begins
          apply first
          rw [(List.cons.inj begins).1]
          decide
        · rfl
      rw [if_neg first, missing]
      rfl

theorem names_increasing (line : List Char) : (names line).Pairwise (· < ·) :=
  Entries.names_increasing _

theorem mem_names {line : List Char} {name : String} :
    name ∈ names line ↔ name ∈ scanFrom none line := by
  rw [names, Dict.mem_names_ofList, List.map_map]
  exact (List.map_id _).symm ▸ Iff.rfl

end Reference

end LineTemplate
