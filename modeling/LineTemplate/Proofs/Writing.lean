import LineTemplate.Proofs.Visits

/-!
# Which line writes what

Every entry of a log is written by a line that is read in a visited state (`mem_log_run`): a line of
output by the plain line that it was formatted from, an event by the line that it tells of. So what
is known of all visited states is known of all that a render writes.

The proof takes a render apart as `Visits` does: what handling a line writes is written by the line
itself, or in a block that the line opens (`mem_log_handle`).
-/

namespace LineTemplate.Render

/-- The line that is read in this state writes the entry, apart from the blocks that it opens. -/
inductive Writes (setting : Setting) (s : State) : Entry → Prop
  | line {text : List Char} {rest : List Line} (next : s.cursor.rest = ⟨text, none⟩ :: rest) :
    Writes setting s (.line (Reference.format setting.provider s.scopes text))
  | unresolved {text : List Char} {rest : List Line} {name : String}
    (next : s.cursor.rest = ⟨text, none⟩ :: rest)
    (missing : name ∈ Reference.unresolved setting.provider s.scopes text) :
    Writes setting s (.event (.unresolved name))
  | condition {text : List Char} {rest : List Line} {path : String}
    (next : s.cursor.rest = ⟨text, some .conditional⟩ :: rest)
    (header : Header.conditionPath? text = some path) :
    Writes setting s (.event (.condition s.cursor.line path
      (((s.scopes.lookup setting.provider path).map Value.isTrue).getD false)))
  | loop {text : List Char} {rest : List Line} {header : Header.Loop} {items : List Value}
    (next : s.cursor.rest = ⟨text, some .loop⟩ :: rest) (reads : Header.loop? text = some header)
    (iterates : (s.scopes.lookup setting.provider header.container).bind Value.items? =
      some items) :
    Writes setting s (.event (.loop s.cursor.line header.item header.container items.length))
  | stray {text : List Char} {rest : List Line} {directive : Directive}
    (next : s.cursor.rest = ⟨text, some directive⟩ :: rest) (skips : setting.strays = .skip) :
    Writes setting s (.event (.straySkipped s.cursor.line directive))

variable {setting : Setting} {block : Extent → Step} {s : State} {entry : Entry}
  {text : List Char} {rest : List Line} {extent : Extent}

/-! ## Logs of steps -/

theorem Step.mem_log_andThen {first second : Step}
    (member : entry ∈ ((first.andThen second) s).log) :
    entry ∈ (first s).log ∨
      ((first s).failure = none ∧ entry ∈ (second (first s).state).log) := by
  unfold Step.andThen at member
  cases fails : (first s).failure with
  | some failure =>
    simp only [fails] at member
    exact .inl member
  | none =>
    simp only [fails] at member
    exact (List.mem_append.mp member).imp_right fun later => ⟨rfl, later⟩

theorem Step.atEnd_log (extent : Extent) (s : State) : (Step.atEnd extent s).log = [] := by
  cases extent <;> rfl

/-- Lines that are passed over write nothing. -/
theorem Step.skip_log (extent : Extent) (s : State) : (Step.skip extent s).log = [] := by
  unfold Step.skip
  cases seek extent.closers 0 s.cursor.rest with
  | some count => rfl
  | none => exact Step.atEnd_log extent _

theorem Step.mem_log_atOtherwise {step : Step}
    (member : entry ∈ (Step.atOtherwise step s).log) :
    s.cursor.directive? = some .otherwise ∧ entry ∈ (step s).log := by
  unfold Step.atOtherwise at member
  split at member
  next middle => exact ⟨middle, member⟩
  next => exact (List.not_mem_nil member).elim

/-! ## Logs of lines -/

theorem mem_log_plain (next : s.cursor.rest = ⟨text, none⟩ :: rest)
    (member : entry ∈ (plain setting text s).log) : Writes setting s entry := by
  rcases Step.mem_log_andThen member with written | ⟨-, nothing⟩
  · rcases List.mem_append.mp written with missing | line
    · obtain ⟨name, unresolved, rfl⟩ := List.mem_map.mp missing
      exact .unresolved next unresolved
    · obtain rfl := List.mem_singleton.mp line
      exact .line next
  · exact (List.not_mem_nil nothing).elim

theorem mem_log_stray {directive : Directive}
    (next : s.cursor.rest = ⟨text, some directive⟩ :: rest)
    (member : entry ∈ (stray setting directive s).log) : Writes setting s entry := by
  unfold stray at member
  cases policy : setting.strays with
  | reject =>
    rw [policy] at member
    exact (List.not_mem_nil member).elim
  | skip =>
    rw [policy] at member
    rcases Step.mem_log_andThen member with written | ⟨-, nothing⟩
    · obtain rfl := List.mem_singleton.mp written
      exact .stray next policy
    · exact (List.not_mem_nil nothing).elim

/-- A header writes its event, and the rest is written in its part. -/
theorem mem_log_header {event : Event} {part : Step}
    (member : entry ∈ ((Step.write [.event event]).andThen ((Step.forward 1).andThen
      (part.andThen (.forward 1))) s).log) :
    entry = .event event ∨ entry ∈ (part ⟨s.cursor.forward 1, s.scopes⟩).log := by
  rcases Step.mem_log_andThen member with written | ⟨-, member⟩
  · exact .inl (List.mem_singleton.mp written)
  · rcases Step.mem_log_andThen member with nothing | ⟨-, member⟩
    · exact (List.not_mem_nil nothing).elim
    · rcases Step.mem_log_andThen member with inside | ⟨-, nothing⟩
      · exact .inr inside
      · exact (List.not_mem_nil nothing).elim

/-- What handling a line writes is written by the line itself or in a block that it opens. -/
theorem mem_log_conditional (next : s.cursor.rest = ⟨text, some .conditional⟩ :: rest)
    (member : entry ∈ (conditional setting block text s).log) :
    Writes setting s entry ∨ ∃ inner t,
      Opens setting block ⟨text, some .conditional⟩ s inner t ∧ entry ∈ (block inner t).log := by
  unfold conditional at member
  cases header : Header.conditionPath? text with
  | none =>
    rw [header] at member
    exact (List.not_mem_nil member).elim
  | some path =>
    simp only [header] at member
    rcases mem_log_header member with rfl | inside
    · exact .inl (.condition next header)
    · right
      cases holds : ((s.scopes.lookup setting.provider path).map Value.isTrue).getD false with
      | true =>
        rw [holds, if_pos rfl] at inside
        rcases Step.mem_log_andThen inside with first | ⟨-, passed⟩
        · exact ⟨_, _, .yes rfl header holds, first⟩
        · obtain ⟨-, nothing⟩ := Step.mem_log_atOtherwise passed
          rw [Step.skip_log] at nothing
          exact (List.not_mem_nil nothing).elim
      | false =>
        rw [holds, if_neg Bool.false_ne_true] at inside
        rcases Step.mem_log_andThen inside with nothing | ⟨succeeds, second⟩
        · rw [Step.skip_log] at nothing
          exact (List.not_mem_nil nothing).elim
        · obtain ⟨count, skips, stops⟩ := skip_succeeds branch_ne_whole succeeds
          rw [stops] at second
          obtain ⟨middle, second⟩ := Step.mem_log_atOtherwise second
          rcases Step.mem_log_andThen second with nothing | ⟨-, second⟩
          · exact (List.not_mem_nil nothing).elim
          · exact ⟨_, _, .no rfl header holds skips middle, second⟩

/-- What the passes of a loop write is written in one of them. -/
theorem mem_log_each {name : String} {start : Cursor} {items : List Value}
    (member : entry ∈ (each block name start items s).log) :
    ∃ t, Begins (block .body) name start items s t ∧ entry ∈ (block .body t).log := by
  induction items generalizing s with
  | nil => exact (List.not_mem_nil member).elim
  | cons item items ih =>
    rcases Step.mem_log_andThen member with nothing | ⟨-, member⟩
    · exact (List.not_mem_nil nothing).elim
    · rcases Step.mem_log_andThen member with nothing | ⟨-, member⟩
      · exact (List.not_mem_nil nothing).elim
      · rcases Step.mem_log_andThen member with first | ⟨passes, later⟩
        · exact ⟨_, .first, first⟩
        · obtain ⟨t, begins, written⟩ := ih later
          exact ⟨t, .later passes begins, written⟩

theorem mem_log_loop (next : s.cursor.rest = ⟨text, some .loop⟩ :: rest)
    (member : entry ∈ (loop setting block text s).log) :
    Writes setting s entry ∨ ∃ inner t,
      Opens setting block ⟨text, some .loop⟩ s inner t ∧ entry ∈ (block inner t).log := by
  unfold loop at member
  cases reads : Header.loop? text with
  | none =>
    rw [reads] at member
    exact (List.not_mem_nil member).elim
  | some header =>
    simp only [reads] at member
    cases iterates : (s.scopes.lookup setting.provider header.container).bind Value.items? with
    | none =>
      rw [iterates] at member
      exact (List.not_mem_nil member).elim
    | some items =>
      rw [iterates] at member
      rcases mem_log_header member with rfl | inside
      · exact .inl (.loop next reads iterates)
      · right
        cases items with
        | nil =>
          replace inside : entry ∈ (Step.skip .body ⟨s.cursor.forward 1, s.scopes.push⟩).log :=
            inside
          rw [Step.skip_log] at inside
          exact (List.not_mem_nil inside).elim
        | cons item items =>
          replace inside : entry ∈ (each block header.item (s.cursor.forward 1) (item :: items)
              ⟨s.cursor.forward 1, s.scopes.push⟩).log := inside
          obtain ⟨t, begins, written⟩ := mem_log_each inside
          exact ⟨_, t, .pass rfl reads iterates begins, written⟩

/-- **What handling a line writes** is written by the line itself or in a block that it opens. -/
theorem mem_log_handle {line : Line} (next : s.cursor.rest = line :: rest)
    (member : entry ∈ (handle setting block line s).log) :
    Writes setting s entry ∨
      ∃ inner t, Opens setting block line s inner t ∧ entry ∈ (block inner t).log := by
  obtain ⟨text, directive⟩ := line
  cases directive with
  | none => exact .inl (mem_log_plain next member)
  | some directive =>
    cases directive with
    | conditional => exact mem_log_conditional next member
    | otherwise => exact .inl (mem_log_stray next member)
    | loop => exact mem_log_loop next member
    | close => exact .inl (mem_log_stray next member)

/-- **Every entry of a log is written in a visited state.** -/
theorem mem_log_lines {ahead : Nat} (member : entry ∈ (lines setting ahead extent s).log) :
    ∃ m, Visits setting ahead extent s m ∧ Writes setting m entry := by
  induction ahead generalizing extent s with
  | zero =>
    replace member : entry ∈ (Step.atEnd extent s).log := member
    rw [Step.atEnd_log] at member
    exact (List.not_mem_nil member).elim
  | succ ahead ih =>
    rcases lines_cases ahead extent s with
      ⟨_, ends⟩ | ⟨_, _, _, _, _, _, stops⟩ | ⟨line, rest, next, goes, handles⟩
    · rw [ends, Step.atEnd_log] at member
      exact (List.not_mem_nil member).elim
    · rw [stops] at member
      exact (List.not_mem_nil member).elim
    · rw [handles] at member
      rcases Step.mem_log_andThen member with here | ⟨handled, behind⟩
      · rcases mem_log_handle next here with writes | ⟨inner, t, opens, inside⟩
        · exact ⟨s, .here, writes⟩
        · obtain ⟨m, visits, writes⟩ := ih (s := ⟨t.cursor, t.scopes.push⟩) inside
          exact ⟨m, .inside next opens visits, writes⟩
      · obtain ⟨m, visits, writes⟩ := ih behind
        exact ⟨m, .behind next goes handled visits, writes⟩

theorem mem_log_run {all : List Line} (member : entry ∈ (run setting all).log) :
    ∃ m, Visited setting all m ∧ Writes setting m entry :=
  mem_log_lines member

end LineTemplate.Render
