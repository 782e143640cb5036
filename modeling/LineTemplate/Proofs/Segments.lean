import LineTemplate.Proofs.Substitution

/-!
# A line as its runs

Whatever a line is, each dollar sign in it has a run behind it: the characters up to the first one
that cannot stand in a name. So every line is a row of single characters and of runs
(`exists_segments`), and a dollar sign begins a reference exactly when its run is a name in braces.

A run ends where the line has a blank. That is why the scan (`mem_names_append`) and a single pass
(`singlePass_append`) treat the parts of a line before and behind a blank as lines of their own.
-/

namespace LineTemplate.Reference

/-- A single character, or a dollar sign with the run behind it. -/
inductive Segment where
  | char (c : Char)
  | run (text : List Char)

namespace Segment

def spell : Segment → List Char
  | .char c => [c]
  | .run text => '$' :: text

/-- The name of the reference, if the run is one. -/
def name? : Segment → Option String
  | .char _ => none
  | .run text => Reference.name? text

end Segment

/-- The text of segments in a row. -/
def joined (segments : List Segment) : List Char :=
  segments.flatMap Segment.spell

/-- The segments can stand in a row: a dollar sign is no single character, and each run ends where
the next segment begins. -/
def Maximal : List Segment → Prop
  | [] => True
  | .char c :: segments => c ≠ '$' ∧ Maximal segments
  | .run text :: segments =>
    (∀ c ∈ text, goesOn c = true) ∧ Stops (joined segments) ∧ Maximal segments

variable {provider : Provider} {scopes : Scopes} {name : String} {line text rest : List Char}
  {segments : List Segment}

/-! ## Runs -/

theorem ne_dollar_of_runs (runs : ∀ c ∈ text, goesOn c = true) : ∀ c ∈ text, c ≠ '$' := by
  intro c member
  exact ne_dollar_of_goesOn (runs c member)

theorem Stops.append {back : List Char} (stops : Stops text) (stops' : Stops back) :
    Stops (text ++ back) := by
  cases text with
  | nil => exact stops'
  | cons c text => exact stops

theorem stops_nil : Stops [] := by
  intro c head
  cases head

theorem stops_blank (text : List Char) : Stops (' ' :: text) := by
  intro c head
  obtain rfl : ' ' = c := Option.some.inj head
  decide

/-- **Every line is a row of characters and runs.** -/
theorem exists_segments (line : List Char) :
    ∃ segments, Maximal segments ∧ joined segments = line := by
  induction h : line.length using Nat.strong_induction_on generalizing line with
  | h length ih =>
    subst h
    cases line with
    | nil => exact ⟨[], trivial, rfl⟩
    | cons c cs =>
      by_cases dollar : c = '$'
      · subst dollar
        have shorter : (cs.dropWhile goesOn).length < ('$' :: cs).length :=
          Nat.lt_succ_of_le (List.dropWhile_suffix goesOn).length_le
        obtain ⟨segments, maximal, rest⟩ := ih _ shorter (cs.dropWhile goesOn) rfl
        refine ⟨.run (cs.takeWhile goesOn) :: segments, ⟨?_, ?_, maximal⟩, ?_⟩
        · exact fun c member => List.mem_takeWhile_imp member
        · exact rest ▸ stops_dropWhile cs
        · show '$' :: cs.takeWhile goesOn ++ joined segments = '$' :: cs
          rw [rest, List.cons_append, List.takeWhile_append_dropWhile]
      · obtain ⟨segments, maximal, rfl⟩ := ih _ (Nat.lt_succ_self _) cs rfl
        exact ⟨.char c :: segments, ⟨dollar, maximal⟩, rfl⟩

/-! ## The scan and a single pass over segments -/

/-- The scan finds the references among the segments, and goes on behind them. -/
theorem scanFrom_joined (maximal : Maximal segments) {back : List Char} (stops : Stops back) :
    scanFrom none (joined segments ++ back) =
      segments.filterMap Segment.name? ++ scanFrom none back := by
  induction segments with
  | nil => rfl
  | cons segment segments ih =>
    cases segment with
    | char c => exact (scanFrom_other maximal.1 _).trans (ih maximal.2)
    | run text =>
      obtain ⟨runs, ends, maximal⟩ := maximal
      show scanFrom none ('$' :: (text ++ joined segments) ++ back) =
        (Segment.run text :: segments).filterMap Segment.name? ++ scanFrom none back
      have found : behind? (text ++ (joined segments ++ back)) = Reference.name? text :=
        behind?_run runs (ends.append stops)
      rw [List.cons_append, List.append_assoc, scanFrom_dollar, found,
        scanFrom_append (ne_dollar_of_runs runs), ih maximal, List.filterMap_cons]
      show (Reference.name? text).toList ++ _ = _
      cases same : (Segment.run text).name? with
      | none => rw [show Reference.name? text = none from same]; rfl
      | some name => rw [show Reference.name? text = some name from same]; rfl

theorem scanFrom_segments (maximal : Maximal segments) :
    scanFrom none (joined segments) = segments.filterMap Segment.name? := by
  have scan := scanFrom_joined maximal stops_nil
  rwa [List.append_nil, scanFrom, closed, Option.bind_none, Option.toList_none, List.append_nil]
    at scan

theorem mem_names_joined (maximal : Maximal segments) :
    name ∈ names (joined segments) ↔ ∃ text, .run text ∈ segments ∧ text = braced name ∧
      name.toList ≠ [] := by
  rw [mem_names, scanFrom_segments maximal, List.mem_filterMap]
  constructor
  · rintro ⟨segment, member, found⟩
    cases segment with
    | char c => exact nomatch found
    | run text => exact ⟨text, member, name?_eq_some.mp found⟩
  · rintro ⟨text, member, found⟩
    exact ⟨.run text, member, name?_eq_some.mpr found⟩

/-- The references among the segments of a line are to its names. -/
theorem mem_names_of_segment (maximal : Maximal segments) :
    ∀ segment ∈ segments, ∀ name ∈ segment.name?, name ∈ names (joined segments) := by
  intro segment member name found
  rw [mem_names, scanFrom_segments maximal]
  exact List.mem_filterMap.mpr ⟨segment, member, found⟩

/-- **The names of two parts** of a line with a blank in between are those of either part. -/
theorem mem_names_append (front back : List Char) :
    name ∈ names (front ++ ' ' :: back) ↔ name ∈ names front ∨ name ∈ names back := by
  obtain ⟨segments, maximal, rfl⟩ := exists_segments front
  rw [mem_names, mem_names, mem_names, scanFrom_joined maximal (stops_blank back),
    scanFrom_segments maximal, List.mem_append, scanFrom_other (by decide)]

/-- Where a run of a line stands: behind a dollar sign, and as long as it can be. -/
theorem Maximal.exists_rest (maximal : Maximal segments) (member : .run text ∈ segments) :
    (∀ c ∈ text, goesOn c = true) ∧
      ∃ rest, '$' :: (text ++ rest) <:+ joined segments ∧ Stops rest := by
  induction segments with
  | nil => exact (List.not_mem_nil member).elim
  | cons segment segments ih =>
    rcases List.mem_cons.mp member with rfl | later
    · exact ⟨maximal.1, joined segments, List.suffix_refl _, maximal.2.1⟩
    · have next : Maximal segments := by
        cases segment with
        | char c => exact maximal.2
        | run text => exact maximal.2.2
      obtain ⟨runs, rest, inside, stops⟩ := ih next later
      exact ⟨runs, rest, inside.trans (List.suffix_append segment.spell (joined segments)), stops⟩

/-- A name on a line is one that runs on. -/
theorem goesOn_of_mem_names (member : name ∈ names line) :
    name.toList ≠ [] ∧ ∀ c ∈ braced name, goesOn c = true := by
  obtain ⟨segments, maximal, rfl⟩ := exists_segments line
  obtain ⟨text, inside, rfl, nonempty⟩ := (mem_names_joined maximal).mp member
  exact ⟨nonempty, (maximal.exists_rest inside).1⟩

theorem passFrom_plain {front : List Char} (plain : ∀ c ∈ front, c ≠ '$') (rest : List Char) :
    passFrom provider scopes 0 (front ++ rest) = front ++ passFrom provider scopes 0 rest := by
  induction front with
  | nil => rfl
  | cons c front ih =>
    have single : opened c = none := if_neg (plain c List.mem_cons_self)
    rw [List.cons_append, passFrom, single, Option.bind_none,
      ih fun d member => plain d (List.mem_cons_of_mem c member), List.cons_append]

namespace Segment

/-- A segment when the references to the names that are done have been replaced. -/
def filled (provider : Provider) (scopes : Scopes) (done : List String) : Segment → List Char
  | .char c => [c]
  | .run text =>
    match Reference.name? text with
    | some name => if name ∈ done then inserted provider scopes name else '$' :: text
    | none => '$' :: text

variable {done : List String}

theorem filled_done (reference : Reference.name? text = some name) (member : name ∈ done) :
    (run text).filled provider scopes done = inserted provider scopes name := by
  simp only [filled, reference, if_pos member]

theorem filled_plain (missing : Reference.name? text = none) :
    (run text).filled provider scopes done = '$' :: text := by
  simp only [filled, missing]

end Segment

/-- A single pass goes over the segments, and then over the text behind them. -/
theorem passFrom_joined (maximal : Maximal segments) {done : List String}
    (all : ∀ segment ∈ segments, ∀ name ∈ segment.name?, name ∈ done) {back : List Char}
    (stops : Stops back) :
    passFrom provider scopes 0 (joined segments ++ back) =
      segments.flatMap (Segment.filled provider scopes done) ++
        passFrom provider scopes 0 back := by
  induction segments with
  | nil => rfl
  | cons segment segments ih =>
    have later (segment : Segment) (member : segment ∈ segments) :=
      all segment (List.mem_cons_of_mem _ member)
    cases segment with
    | char c =>
      have single : opened c = none := if_neg maximal.1
      show passFrom provider scopes 0 (c :: (joined segments ++ back)) =
        c :: (segments.flatMap _ ++ _)
      rw [passFrom, single, Option.bind_none, ← ih maximal.2 later]
    | run text =>
      obtain ⟨runs, ends, maximal⟩ := maximal
      have found : behind? (text ++ (joined segments ++ back)) = name? text :=
        behind?_run runs (ends.append stops)
      show passFrom provider scopes 0 ('$' :: (text ++ joined segments) ++ back) =
        ((Segment.run text).filled provider scopes done ++ segments.flatMap _) ++ _
      rw [List.cons_append, List.append_assoc, passFrom, opened, if_pos rfl, Option.bind_some,
        found, List.append_assoc, ← ih maximal later]
      cases same : name? text with
      | none =>
        rw [Segment.filled_plain same, List.cons_append]
        exact congrArg ('$' :: ·) (passFrom_plain (ne_dollar_of_runs runs) _)
      | some name =>
        have member : name ∈ done := all _ List.mem_cons_self name same
        rw [Segment.filled_done same member]
        obtain ⟨rfl, -⟩ := name?_eq_some.mp same
        exact congrArg (inserted provider scopes name ++ ·) (passFrom_skip (braced name))

/-- **A single pass fills in all references.** -/
theorem singlePass_joined (maximal : Maximal segments) {done : List String}
    (all : ∀ segment ∈ segments, ∀ name ∈ segment.name?, name ∈ done) :
    singlePass provider scopes (joined segments) =
      segments.flatMap (Segment.filled provider scopes done) := by
  have passes : passFrom provider scopes 0 (joined segments ++ []) = _ :=
    passFrom_joined maximal all stops_nil
  rwa [List.append_nil, passFrom, List.append_nil] at passes

/-- **A single pass treats the parts of a line alone** that stand before and behind a blank. -/
theorem singlePass_append (front back : List Char) :
    singlePass provider scopes (front ++ ' ' :: back) =
      singlePass provider scopes front ++ ' ' :: singlePass provider scopes back := by
  obtain ⟨segments, maximal, rfl⟩ := exists_segments front
  have blank : passFrom provider scopes 0 (' ' :: back) = ' ' :: singlePass provider scopes back :=
    rfl
  have all := mem_names_of_segment maximal
  rw [singlePass_joined maximal all, singlePass, passFrom_joined maximal all (stops_blank back),
    blank]

end LineTemplate.Reference
