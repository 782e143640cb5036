import LineTemplate.Proofs.Visits

/-!
# What stops a render

A render fails for one of two reasons. It reads a line that cannot be rendered in the state that it
has come to (`Interrupts`), or the text ends inside a block (`Failure.EndsEarly`). There is no third
one (`failure_run`): a failure is passed on from the place where it was met, and nothing is added to
it on the way.

The proof takes a render apart as `Visits` does, like the one about what is written.
-/

namespace LineTemplate

/-- The failure tells that the text ends inside a block. -/
def Failure.EndsEarly (failure : Failure) : Prop :=
  ∃ line expected, failure = .parse ⟨line, .unexpectedEnd expected⟩

namespace Render

/-- The line that is read in this state cannot be rendered, and the failure tells why: its header
cannot be read, what its container looks up to has no items, or it is a stray directive and these
are refused. -/
inductive Interrupts (setting : Setting) (s : State) : Failure → Prop
  | condition {text : List Char} {rest : List Line}
    (next : s.cursor.rest = ⟨text, some .conditional⟩ :: rest)
    (malformed : Header.conditionPath? text = none) :
    Interrupts setting s (.parse ⟨s.cursor.line, .malformedCondition (Header.quoted text)⟩)
  | loop {text : List Char} {rest : List Line}
    (next : s.cursor.rest = ⟨text, some .loop⟩ :: rest) (malformed : Header.loop? text = none) :
    Interrupts setting s (.parse ⟨s.cursor.line, .malformedLoop (Header.quoted text)⟩)
  | container {text : List Char} {rest : List Line} {header : Header.Loop}
    (next : s.cursor.rest = ⟨text, some .loop⟩ :: rest) (reads : Header.loop? text = some header)
    (missing : (s.scopes.lookup setting.provider header.container).bind Value.items? = none) :
    Interrupts setting s (.notIterable s.cursor.line header.container
      ((s.scopes.lookup setting.provider header.container).map Value.kind))
  | stray {text : List Char} {rest : List Line} {directive : Directive}
    (next : s.cursor.rest = ⟨text, some directive⟩ :: rest)
    (closes : directive = .otherwise ∨ directive = .close) (refused : setting.strays = .reject) :
    Interrupts setting s (.parse ⟨s.cursor.line, .strayDirective directive.keyword⟩)

variable {setting : Setting} {block : Extent → Step} {s : State} {failure : Failure}
  {text : List Char} {rest : List Line} {extent : Extent}

/-- The two reasons exclude each other. -/
theorem Interrupts.not_endsEarly (interrupts : Interrupts setting s failure) :
    ¬ failure.EndsEarly := by
  rintro ⟨line, expected, ends⟩
  cases interrupts <;> simp at ends

/-! ## Failures of steps -/

theorem Step.failure_andThen {first second : Step}
    (fails : ((first.andThen second) s).failure = some failure) :
    (first s).failure = some failure ∨
      ((first s).failure = none ∧ (second (first s).state).failure = some failure) := by
  unfold Step.andThen at fails
  cases now : (first s).failure with
  | some _ =>
    simp only [now] at fails
    exact .inl fails
  | none =>
    simp only [now] at fails
    exact .inr ⟨rfl, fails⟩

/-- A failure behind a step that never fails. -/
theorem Step.failure_behind {first second : Step} (succeeds : (first s).failure = none)
    (fails : ((first.andThen second) s).failure = some failure) :
    (second (first s).state).failure = some failure := by
  rcases Step.failure_andThen fails with now | ⟨-, later⟩
  · exact (Option.some_ne_none failure (now.symm.trans succeeds)).elim
  · exact later

/-- A failure in front of a step that never fails. -/
theorem Step.failure_in_front {first second : Step} (succeeds : ∀ t, (second t).failure = none)
    (fails : ((first.andThen second) s).failure = some failure) :
    (first s).failure = some failure := by
  rcases Step.failure_andThen fails with now | ⟨-, later⟩
  · exact now
  · exact (Option.some_ne_none failure (later.symm.trans (succeeds _))).elim

theorem Step.endsEarly_atEnd (fails : (Step.atEnd extent s).failure = some failure) :
    failure.EndsEarly := by
  cases extent with
  | whole => exact (Option.some_ne_none failure fails.symm).elim
  | branch | body => exact ⟨_, _, (Option.some.inj fails).symm⟩

theorem Step.endsEarly_skip (fails : (Step.skip extent s).failure = some failure) :
    failure.EndsEarly := by
  unfold Step.skip at fails
  cases finds : seek extent.closers 0 s.cursor.rest with
  | some count =>
    rw [finds] at fails
    exact (Option.some_ne_none failure fails.symm).elim
  | none =>
    rw [finds] at fails
    exact Step.endsEarly_atEnd (Step.failure_behind rfl fails)

theorem Step.failure_atOtherwise {step : Step}
    (fails : (Step.atOtherwise step s).failure = some failure) :
    s.cursor.directive? = some .otherwise ∧ (step s).failure = some failure := by
  unfold Step.atOtherwise at fails
  split at fails
  next middle => exact ⟨middle, fails⟩
  next => exact (Option.some_ne_none failure fails.symm).elim

/-! ## Failures of lines -/

/-- A header that has been read does not fail, and neither does the line behind its block. -/
theorem failure_header {event : Event} {part : Step}
    (fails : ((Step.write [.event event]).andThen ((Step.forward 1).andThen
      (part.andThen (.forward 1))) s).failure = some failure) :
    (part ⟨s.cursor.forward 1, s.scopes⟩).failure = some failure :=
  Step.failure_in_front (fun _ => rfl) (Step.failure_behind rfl (Step.failure_behind rfl fails))

theorem failure_conditional (next : s.cursor.rest = ⟨text, some .conditional⟩ :: rest)
    (fails : (conditional setting block text s).failure = some failure) :
    Interrupts setting s failure ∨ failure.EndsEarly ∨ ∃ inner t,
      Opens setting block ⟨text, some .conditional⟩ s inner t ∧
        (block inner t).failure = some failure := by
  unfold conditional at fails
  cases header : Header.conditionPath? text with
  | none =>
    rw [header] at fails
    obtain rfl := Option.some.inj fails
    exact .inl (.condition next header)
  | some path =>
    simp only [header] at fails
    replace fails := failure_header fails
    right
    cases holds : ((s.scopes.lookup setting.provider path).map Value.isTrue).getD false with
    | true =>
      rw [holds, if_pos rfl] at fails
      rcases Step.failure_andThen fails with first | ⟨-, passed⟩
      · exact .inr ⟨_, _, .yes rfl header holds, first⟩
      · exact .inl (Step.endsEarly_skip (Step.failure_atOtherwise passed).2)
    | false =>
      rw [holds, if_neg Bool.false_ne_true] at fails
      rcases Step.failure_andThen fails with passed | ⟨succeeds, second⟩
      · exact .inl (Step.endsEarly_skip passed)
      · obtain ⟨count, skips, stops⟩ := skip_succeeds branch_ne_whole succeeds
        rw [stops] at second
        obtain ⟨middle, second⟩ := Step.failure_atOtherwise second
        exact .inr ⟨_, _, .no rfl header holds skips middle, Step.failure_behind rfl second⟩

/-- The passes of a loop fail in one of them. -/
theorem failure_each {name : String} {start : Cursor} {items : List Value}
    (fails : (each block name start items s).failure = some failure) :
    ∃ t, Begins (block .body) name start items s t ∧
      (block .body t).failure = some failure := by
  induction items generalizing s with
  | nil => exact (Option.some_ne_none failure fails.symm).elim
  | cons item items ih =>
    have pass := Step.failure_behind rfl (Step.failure_behind rfl fails)
    rcases Step.failure_andThen pass with first | ⟨passes, later⟩
    · exact ⟨_, .first, first⟩
    · obtain ⟨t, begins, inside⟩ := ih later
      exact ⟨t, .later passes begins, inside⟩

theorem failure_loop (next : s.cursor.rest = ⟨text, some .loop⟩ :: rest)
    (fails : (loop setting block text s).failure = some failure) :
    Interrupts setting s failure ∨ failure.EndsEarly ∨ ∃ inner t,
      Opens setting block ⟨text, some .loop⟩ s inner t ∧
        (block inner t).failure = some failure := by
  unfold loop at fails
  cases reads : Header.loop? text with
  | none =>
    rw [reads] at fails
    obtain rfl := Option.some.inj fails
    exact .inl (.loop next reads)
  | some header =>
    simp only [reads] at fails
    cases iterates : (s.scopes.lookup setting.provider header.container).bind Value.items? with
    | none =>
      rw [iterates] at fails
      obtain rfl := Option.some.inj fails
      exact .inl (.container next reads iterates)
    | some items =>
      rw [iterates] at fails
      replace fails := failure_header fails
      right
      cases items with
      | nil =>
        exact .inl (Step.endsEarly_skip (s := ⟨s.cursor.forward 1, s.scopes.push⟩) fails)
      | cons item items =>
        obtain ⟨t, begins, inside⟩ :=
          failure_each (s := ⟨s.cursor.forward 1, s.scopes.push⟩) fails
        exact .inr ⟨_, t, .pass rfl reads iterates begins, inside⟩

theorem failure_stray {directive : Directive}
    (next : s.cursor.rest = ⟨text, some directive⟩ :: rest)
    (closes : directive = .otherwise ∨ directive = .close)
    (fails : (stray setting directive s).failure = some failure) :
    Interrupts setting s failure := by
  unfold stray at fails
  cases policy : setting.strays with
  | skip =>
    rw [policy] at fails
    exact (Option.some_ne_none failure fails.symm).elim
  | reject =>
    rw [policy] at fails
    obtain rfl := Option.some.inj fails
    exact .stray next closes policy

/-- **Handling a line fails** at the line itself, in a block that it opens, or at the end of the
text, where a part that is passed over is looked for in vain. -/
theorem failure_handle {line : Line} (next : s.cursor.rest = line :: rest)
    (fails : (handle setting block line s).failure = some failure) :
    Interrupts setting s failure ∨ failure.EndsEarly ∨ ∃ inner t,
      Opens setting block line s inner t ∧ (block inner t).failure = some failure := by
  obtain ⟨text, directive⟩ := line
  cases directive with
  | none => exact (Option.some_ne_none failure fails.symm).elim
  | some directive =>
    cases directive with
    | conditional => exact failure_conditional next fails
    | otherwise => exact .inl (failure_stray next (.inl rfl) fails)
    | loop => exact failure_loop next fails
    | close => exact .inl (failure_stray next (.inr rfl) fails)

/-- **A render fails at a line that it reads, or because the text ends.** -/
theorem failure_lines {ahead : Nat}
    (fails : (lines setting ahead extent s).failure = some failure) :
    failure.EndsEarly ∨ ∃ m, Visits setting ahead extent s m ∧ Interrupts setting m failure := by
  induction ahead generalizing extent s with
  | zero => exact .inl (Step.endsEarly_atEnd fails)
  | succ ahead ih =>
    rcases lines_cases ahead extent s with
      ⟨_, ends⟩ | ⟨_, _, _, _, _, _, stops⟩ | ⟨line, rest, next, goes, handles⟩
    · rw [ends] at fails
      exact .inl (Step.endsEarly_atEnd fails)
    · rw [stops] at fails
      exact (Option.some_ne_none failure fails.symm).elim
    · rw [handles] at fails
      rcases Step.failure_andThen fails with here | ⟨handled, behind⟩
      · rcases failure_handle next here with interrupts | ends | ⟨inner, t, opens, inside⟩
        · exact .inr ⟨s, .here, interrupts⟩
        · exact .inl ends
        · refine (ih (s := ⟨t.cursor, t.scopes.push⟩) inside).imp_right ?_
          rintro ⟨m, visits, interrupts⟩
          exact ⟨m, .inside next opens visits, interrupts⟩
      · refine (ih behind).imp_right ?_
        rintro ⟨m, visits, interrupts⟩
        exact ⟨m, .behind next goes handled visits, interrupts⟩

theorem failure_run {all : List Line} (fails : (run setting all).failure = some failure) :
    failure.EndsEarly ∨ ∃ m, Visited setting all m ∧ Interrupts setting m failure :=
  failure_lines fails

end Render

end LineTemplate
