import LineTemplate.Proofs.OpenScopes
import LineTemplate.Proofs.Termination

/-!
# The history of the scopes

A step tells the scopes in front of it and those behind it, and nothing of those in between. The
moves of a render tell these too: every move makes one change to the scopes (`moves_change`), a
scope is opened or closed, or an item is bound.

What is pending tells which scopes are open. For every scope that a render has opened there is a
task left that closes it, and where the passes of a loop are next, the innermost scope is that of
the loop (`Owned`). A move keeps this (`Owned.begin`), so from the beginning of a call on the scopes
below are left alone until the call has ended, and the changes come in good order (`Tracks`).

**The law** (`scopes_given_back`): a call gives the scopes back as it has found them.
-/

namespace LineTemplate.Render

open Relation (ReflTransGen)

/-! ## Changes of the scopes -/

/-- What a move does to the scopes. A scope is opened for a block, or for a loop over a name. -/
inductive Change where
  | stay
  | enter (owner : Option String)
  | bind (name : String) (item : Value)
  | leave

/-- The scopes behind a change. -/
def Change.apply : Change → Scopes → Scopes
  | .stay, scopes => scopes
  | .enter _, scopes => scopes.push
  | .bind name item, scopes => scopes.bind name (loopItem item)
  | .leave, scopes => scopes.pop

/-- A change leads from some opened scopes to others: it opens one, it closes the innermost one, or
it binds the next item of a loop, whose scope is the innermost one. -/
inductive Change.Leads : Change → List OpenScope → List OpenScope → Prop
  | stay {opened : List OpenScope} : Leads .stay opened opened
  | enter {opened : List OpenScope} (owner : Option String) :
    Leads (.enter owner) opened (.fresh owner :: opened)
  | bind {name : String} {before : Option Value} {item : Value} {outer : List OpenScope} :
    Leads (.bind name item) (.loop name before :: outer) (.loop name (some item) :: outer)
  | leave {scope : OpenScope} {outer : List OpenScope} : Leads .leave (scope :: outer) outer

theorem Change.Leads.above {change : Change} {opened opened' : List OpenScope}
    (leads : change.Leads opened opened') (entry : Scopes) :
    change.apply (entry.above opened) = entry.above opened' := by
  cases leads with
  | stay => rfl
  | enter owner => exact Scopes.push_above owner
  | bind => exact Scopes.bind_above _ _
  | leave => rfl

/-- The change that work makes at once. -/
def Work.change : Work → Change
  | .block _ => .enter none
  | .loop name _ _ => .enter (some name)
  | .passes name _ (item :: _) => .bind name item
  | .leave => .leave
  | _ => .stay

namespace Snapshot

def scopes (m : Snapshot) : Scopes :=
  m.outcome.state.scopes

/-- The change that the next move makes. After a failure scopes are still closed, and nothing else
is done. -/
def change (m : Snapshot) : Change :=
  match m.pending with
  | [] => .stay
  | task :: _ =>
    match m.outcome.failure, task.work with
    | none, work => work.change
    | some _, .leave => .leave
    | some _, _ => .stay

end Snapshot

variable {setting : Setting} {s : State} {entry : Scopes} {opened : List OpenScope}

theorem conditionOpening_keeps (text : List Char) :
    ((conditionOpening setting s text).1 s).state.scopes = s.scopes := by
  unfold conditionOpening
  cases Header.conditionPath? text <;> rfl

theorem loopOpening_keeps (text : List Char) :
    ((loopOpening setting s text).1 s).state.scopes = s.scopes := by
  unfold loopOpening
  cases Header.loop? text with
  | none => rfl
  | some header =>
    simp only
    cases (s.scopes.lookup setting.provider header.container).bind Value.items? <;> rfl

theorem opening_keeps (line : Line) :
    ((opening setting s line).1 s).state.scopes = s.scopes := by
  unfold opening
  split
  · exact plain_keeps line.text s
  · exact conditionOpening_keeps line.text
  · exact loopOpening_keeps line.text
  · exact stray_keeps .otherwise s
  · exact stray_keeps .close s

/-- What a task does at once changes the scopes as its work says. -/
theorem begin_change (task : Task) :
    ((task.begin setting s).1 s).state.scopes = task.work.change.apply s.scopes := by
  obtain ⟨header, work⟩ := task
  cases work with
  | lines extent =>
    have ends : (Step.atEnd extent).Keeps id := .atEnd extent
    unfold Task.begin
    simp only
    split
    · exact ends s
    · split
      · rfl
      · exact opening_keeps _
  | seek extent depth =>
    have ends : (Step.atEnd extent).Keeps id := .atEnd extent
    unfold Task.begin
    simp only
    split
    · exact ends s
    · split <;> rfl
  | second rendered =>
    unfold Task.begin
    simp only
    split
    · split <;> rfl
    · rfl
  | passes name start items => cases items <;> rfl
  | _ => rfl

/-- **A move makes one change to the scopes.** -/
theorem moves_change {m m' : Snapshot} (moves : Moves setting m m') :
    m'.scopes = m.change.apply m.scopes := by
  obtain ⟨⟨s, log, failure⟩, pending⟩ := m
  cases pending with
  | nil => exact (Option.some_ne_none m' moves.symm).elim
  | cons task later =>
    cases failure with
    | some failure =>
      obtain rfl := Option.some.inj moves
      obtain ⟨header, work⟩ := task
      cases work <;> rfl
    | none =>
      obtain rfl := Option.some.inj moves
      exact begin_change task

/-! ## Scopes that tasks own -/

/-- The tasks close these scopes, the innermost one first, and the passes of a loop find the scope
of the loop innermost. -/
def Owned : List Task → List OpenScope → Prop
  | [], opened => opened = []
  | ⟨_, .leave⟩ :: tasks, opened => ∃ scope outer, opened = scope :: outer ∧ Owned tasks outer
  | ⟨_, .passes name _ _⟩ :: tasks, opened =>
    (∃ item outer, opened = .loop name item :: outer) ∧ Owned tasks opened
  | _ :: tasks, opened => Owned tasks opened

namespace Owned

variable {tasks : List Task} {header : Nat} {work : Work}

/-- Work other than closing a scope leaves the scopes to the tasks behind it. -/
theorem behind (owned : Owned (⟨header, work⟩ :: tasks) opened) (stays : work ≠ .leave) :
    Owned tasks opened := by
  cases work with
  | leave => exact (stays rfl).elim
  | passes => exact owned.2
  | _ => exact owned

/-- Which item the innermost loop is at makes no difference. -/
theorem rebind {name : String} {before : Option Value} {outer : List OpenScope}
    (owned : Owned tasks (.loop name before :: outer)) (item : Option Value) :
    Owned tasks (.loop name item :: outer) := by
  induction tasks with
  | nil => exact (List.cons_ne_nil _ _ owned).elim
  | cons task tasks ih =>
    obtain ⟨header, work⟩ := task
    cases work with
    | leave =>
      obtain ⟨scope, outer', same, owned⟩ := owned
      obtain ⟨-, rfl⟩ := List.cons.inj same
      exact ⟨_, _, rfl, owned⟩
    | passes name' start items =>
      obtain ⟨⟨item', outer', same⟩, owned⟩ := owned
      obtain ⟨loop, rfl⟩ := List.cons.inj same
      obtain ⟨rfl, -⟩ := OpenScope.loop.inj loop
      exact ⟨⟨_, _, rfl⟩, ih owned⟩
    | _ => exact ih owned

/-- What a header leaves to be done owns no scope yet. -/
theorem conditionOpening (owned : Owned tasks opened) (s : State) (text : List Char) :
    Owned ((Render.conditionOpening setting s text).2.map (Task.mk header) ++ tasks) opened := by
  unfold Render.conditionOpening
  cases Header.conditionPath? text with
  | none => exact owned
  | some path =>
    simp only
    split <;> exact owned

theorem loopOpening (owned : Owned tasks opened) (s : State) (text : List Char) :
    Owned ((Render.loopOpening setting s text).2.map (Task.mk header) ++ tasks) opened := by
  unfold Render.loopOpening
  cases Header.loop? text with
  | none => exact owned
  | some header =>
    simp only
    cases (s.scopes.lookup setting.provider header.container).bind Value.items? with
    | none => exact owned
    | some items => exact owned

theorem opening (owned : Owned tasks opened) (s : State) (line : Line) :
    Owned ((Render.opening setting s line).2.map (Task.mk header) ++ tasks) opened := by
  unfold Render.opening
  split
  · exact owned
  · exact owned.conditionOpening s line.text
  · exact owned.loopOpening s line.text
  · exact owned
  · exact owned

/-- **What a task does at once keeps the scopes owned.** -/
theorem begin (setting : Setting) (s : State) {task : Task} (owned : Owned (task :: tasks) opened) :
    ∃ opened', task.work.change.Leads opened opened' ∧
      Owned ((task.begin setting s).2 ++ tasks) opened' := by
  obtain ⟨header, work⟩ := task
  cases work with
  | block extent => exact ⟨_, .enter none, _, _, rfl, owned⟩
  | skip extent => exact ⟨_, .stay, owned⟩
  | lines extent =>
    refine ⟨_, .stay, ?_⟩
    unfold Task.begin
    simp only
    split
    · exact owned
    · split
      · exact owned
      · rw [List.append_assoc]
        have later : Owned (⟨header, .lines extent⟩ :: tasks) opened := owned
        exact later.opening s _
  | seek extent depth =>
    refine ⟨_, .stay, ?_⟩
    unfold Task.begin
    simp only
    split
    · exact owned
    · split <;> exact owned
  | second rendered =>
    refine ⟨_, .stay, ?_⟩
    unfold Task.begin
    simp only
    split
    · split <;> exact owned
    · exact owned
  | loop name start items =>
    refine ⟨_, .enter (some name), ?_⟩
    cases items with
    | nil => exact ⟨_, _, rfl, owned⟩
    | cons item items => exact ⟨⟨none, _, rfl⟩, _, _, rfl, owned⟩
  | passes name start items =>
    obtain ⟨⟨before, outer, rfl⟩, owned⟩ := owned
    cases items with
    | nil => exact ⟨_, .stay, owned⟩
    | cons item items => exact ⟨_, .bind, ⟨_, _, rfl⟩, owned.rebind (some item)⟩
  | leave =>
    obtain ⟨scope, outer, rfl, owned⟩ := owned
    exact ⟨_, .leave, owned⟩
  | close => exact ⟨_, .stay, owned⟩

end Owned

/-! ## Between two moves -/

/-- These scopes are open above those at the entry, and the tasks above `later` own them. -/
def Snapshot.Holds (entry : Scopes) (later : List Task) (opened : List OpenScope)
    (m : Snapshot) : Prop :=
  ∃ tasks, m.pending = tasks ++ later ∧ Owned tasks opened ∧ m.scopes = entry.above opened

/-- From the first snapshot on, the changes have come in good order, and these scopes are open. -/
inductive Tracks (setting : Setting) (depth : Nat) (first : Snapshot) :
    List OpenScope → Snapshot → Prop
  | first : Tracks setting depth first [] first
  | move {opened opened' : List OpenScope} {m m' : Snapshot}
    (tracks : Tracks setting depth first opened m) (moves : MovesAbove setting depth m m')
    (leads : m.change.Leads opened opened') : Tracks setting depth first opened' m'

namespace Snapshot.Holds

variable {later : List Task} {m m' : Snapshot}

/-- **A move above `later` leads from opened scopes to opened scopes.** -/
theorem moves (holds : m.Holds entry later opened) (moves : MovesAbove setting later.length m m') :
    ∃ opened', m.change.Leads opened opened' ∧ m'.Holds entry later opened' := by
  obtain ⟨tasks, pending, owned, scopes⟩ := holds
  have changed := moves_change moves.1
  obtain ⟨⟨s, log, failure⟩, _⟩ := m
  obtain rfl := pending
  obtain ⟨moves, above⟩ := moves
  cases tasks with
  | nil => exact (Nat.lt_irrefl _ above).elim
  | cons task tasks =>
    have leads : ∃ opened', Change.Leads
        (change ⟨⟨s, log, failure⟩, task :: tasks ++ later⟩) opened opened' ∧
        ∃ tasks', m'.pending = tasks' ++ later ∧ Owned tasks' opened' := by
      cases failure with
      | none =>
        obtain rfl := Option.some.inj moves
        obtain ⟨opened', leads, owned'⟩ := owned.begin setting s
        exact ⟨opened', leads, _, (List.append_assoc _ _ _).symm, owned'⟩
      | some failure =>
        obtain rfl := Option.some.inj moves
        obtain ⟨header, work⟩ := task
        cases work with
        | leave =>
          obtain ⟨scope, outer, rfl, owned⟩ := owned
          exact ⟨outer, .leave, tasks, rfl, owned⟩
        | _ => exact ⟨opened, .stay, tasks, rfl, owned.behind (by simp)⟩
    obtain ⟨opened', leads, tasks', pending, owned'⟩ := leads
    refine ⟨opened', leads, tasks', pending, owned', ?_⟩
    rw [changed, scopes, leads.above]

/-- What holds at the beginning holds on, and the changes come in good order. -/
theorem reaches {first : Snapshot} (holds : first.Holds entry later [])
    (reaches : ReachesAbove setting later.length first m) :
    ∃ opened, Tracks setting later.length first opened m ∧ m.Holds entry later opened := by
  induction reaches with
  | refl => exact ⟨[], .first, holds⟩
  | tail _ moves ih =>
    obtain ⟨opened, tracks, holds⟩ := ih
    obtain ⟨opened', leads, holds'⟩ := holds.moves moves
    exact ⟨opened', .move tracks moves leads, holds'⟩

end Snapshot.Holds

/-- What holds between two moves of a call that has found the scopes `entry` and has these scopes
open; `depth` tasks are left for later. -/
structure Snapshot.Lawful (setting : Setting) (entry : Scopes) (depth : Nat)
    (opened : List OpenScope) (m : Snapshot) : Prop where
  /-- Below the opened scopes, the levels are those that the call has found. -/
  levels : m.scopes.levels = opened.map (fun scope => some scope.bindings) ++ entry.levels
  /-- There is one root, at the bottom. -/
  root : m.scopes.levels.countP Option.isNone = 1 ∧ m.scopes.levels.getLast? = some none
  /-- The next move makes this one change to the scopes. -/
  changes : ∀ m', Moves setting m m' → m'.scopes = m.change.apply m.scopes
  /-- Only a loop binds, and in its own scope. -/
  binds : depth < m.pending.length → ∀ name item, m.change = .bind name item →
    loopItem item ≠ .null ∧ ∃ before outer, opened = .loop name before :: outer
  /-- What is closed has been opened before, and is not the root. -/
  leaves : depth < m.pending.length → m.change = .leave →
    opened ≠ [] ∧ 1 < m.scopes.levels.length
  /-- At the end nothing is open. -/
  ended : m.pending.length ≤ depth → opened = []
  /-- The innermost loop over a name hides what the name was before, and other names are seen as
  they were. -/
  lookup : ∀ provider path name rest, pathSegments path = name :: rest →
    m.scopes.lookup provider path =
      match opened.findSome? (OpenScope.value? name) with
      | some value => provider.navigate rest value
      | none => entry.lookup provider path

theorem Snapshot.Holds.lawful {later : List Task} {m : Snapshot}
    (holds : m.Holds entry later opened) : m.Lawful setting entry later.length opened := by
  obtain ⟨tasks, pending, owned, scopes⟩ := id holds
  have levels : m.scopes.levels =
      opened.map (fun scope => some scope.bindings) ++ entry.levels := by
    rw [scopes, Scopes.levels_above]
  have leads (above : later.length < m.pending.length) :
      ∃ opened', m.change.Leads opened opened' := by
    have some : m.pending ≠ [] := List.ne_nil_of_length_pos (Nat.zero_lt_of_lt above)
    obtain ⟨m', moves⟩ : ∃ m', Moves setting m m' := by
      by_contra stuck
      exact some (moves_none_iff.mp (not_exists.mp stuck))
    exact (holds.moves ⟨moves, above⟩).imp fun _ => And.left
  refine ⟨levels, Scopes.levels_root _, fun m' => moves_change, ?binds, ?leaves, ?ended, ?lookup⟩
  case binds =>
    intro above name item binds
    obtain ⟨opened', leads⟩ := leads above
    rw [binds] at leads
    cases leads with
    | bind => exact ⟨Scopes.loopItem_ne_null item, _, _, rfl⟩
  case leaves =>
    intro above leaves
    obtain ⟨opened', leads⟩ := leads above
    rw [leaves] at leads
    cases leads with
    | leave =>
      refine ⟨List.cons_ne_nil _ _, ?_⟩
      rw [levels, List.map_cons, List.cons_append, List.length_cons, List.length_append,
        Scopes.levels, List.length_append, List.length_singleton]
      omega
  case ended =>
    intro ended
    rw [pending, List.length_append] at ended
    obtain rfl := List.eq_nil_of_length_eq_zero (l := tasks) (by omega)
    exact owned
  case lookup =>
    intro provider path name rest segments
    rw [scopes]
    exact Scopes.lookup_above provider segments

/-! ## Calls -/

/-- A part of a render that opens scopes: a block, or what there is to do for a header. The render
as a whole is the block of all lines. -/
inductive Call where
  | block (extent : Extent)
  | conditional (text : List Char)
  | loop (text : List Char)

namespace Call

def step (setting : Setting) (ahead : Nat) : Call → Step
  | .block extent => Render.block setting ahead extent
  | .conditional text => Render.conditional setting (Render.block setting ahead) text
  | .loop text => Render.loop setting (Render.block setting ahead) text

/-- What a call does at once, and the work that it leaves. -/
def opening (setting : Setting) (s : State) : Call → Step × List Work
  | .block extent => (.done, [.block extent])
  | .conditional text => conditionOpening setting s text
  | .loop text => loopOpening setting s text

/-- The render at the beginning of a call for the header on a line, with other tasks for later. -/
def start (setting : Setting) (header : Nat) (s : State) (log : List Entry) (later : List Task)
    (call : Call) : Snapshot :=
  ⟨((call.opening setting s).1 s).behind log,
    (call.opening setting s).2.map (Task.mk header) ++ later⟩

variable {header ahead : Nat} {log : List Entry} {later : List Task}

/-- A line of a block that is a header begins a call. -/
theorem moves_start {line : Line} {rest : List Line} (next : s.cursor.rest = line :: rest)
    {extent : Extent} {call : Call}
    (opens : line.directive = some .conditional ∧ call = .conditional line.text ∨
      line.directive = some .loop ∧ call = .loop line.text) :
    Moves setting ⟨⟨s, log, none⟩, ⟨header, .lines extent⟩ :: later⟩
      (call.start setting s.cursor.line s log (⟨header, .lines extent⟩ :: later)) := by
  have goes : line.directive.any (· ∈ extent.closers) = false := by
    rcases opens with ⟨found, -⟩ | ⟨found, -⟩ <;> rw [found] <;> cases extent <;> decide
  have begins : Task.begin setting s ⟨header, .lines extent⟩ = ((Render.opening setting s line).1,
      (Render.opening setting s line).2.map (Task.mk s.cursor.line) ++
        [⟨header, .lines extent⟩]) := by
    simp only [Task.begin, next, goes, Bool.false_eq_true, if_false]
  have same : Render.opening setting s line = call.opening setting s := by
    rcases opens with ⟨found, rfl⟩ | ⟨found, rfl⟩ <;> rw [Render.opening, found] <;> rfl
  rw [start, ← same, List.append_cons]
  exact (movesAbove_begin begins).1

/-- The moves from the beginning of a call come to its end, before they touch what is for later. -/
theorem start_reaches (call : Call) (near : s.cursor.rest.length ≤ ahead) :
    ReachesAbove setting later.length (call.start setting header s log later)
      ⟨(call.step setting ahead s).behind log, later⟩ := by
  have blocks (header : Nat) (extent : Extent) (t : State) (near : t.cursor.rest.length ≤ ahead) :
      CarriesOut setting [⟨header, .block extent⟩] (Render.block setting ahead extent) t :=
    block_carriedOut ahead near
  have behind : (s.cursor.forward 1).rest.length ≤ ahead := by
    rw [Cursor.forward, List.length_drop]
    omega
  have spelled : SpelledOut setting header (call.step setting ahead s)
      (call.opening setting s) s := by
    cases call with
    | block extent => exact ⟨_, rfl, by simp [opening], blocks header extent s near⟩
    | conditional text => exact conditional_spelledOut blocks behind text
    | loop text => exact loop_spelledOut blocks behind text
  exact spelled.reaches log later

/-- At its beginning a call has no scope open. -/
theorem start_holds (call : Call) :
    (call.start setting header s log later).Holds s.scopes later [] := by
  refine ⟨_, rfl, ?_, ?_⟩
  · have nothing : Owned [] [] := rfl
    rw [← List.append_nil ((call.opening setting s).2.map _)]
    cases call with
    | block extent => exact nothing
    | conditional text => exact nothing.conditionOpening s text
    | loop text => exact nothing.loopOpening s text
  · cases call with
    | block extent => rfl
    | conditional text => exact conditionOpening_keeps text
    | loop text => exact loopOpening_keeps text

theorem step_keeps (setting : Setting) (ahead : Nat) (call : Call) :
    (call.step setting ahead).Keeps id := by
  have inner (extent : Extent) : (Render.block setting ahead extent).Keeps id :=
    .inScope (lines_keeps ahead extent).part_of_all
  cases call with
  | block extent => exact inner extent
  | conditional text => exact conditional_keeps inner text
  | loop text => exact loop_keeps inner text

end Call

/-- **A call gives the scopes back as it has found them**, whether it succeeds or fails, and never
touches them in between. The moves of the call come to its end before they touch what is left for
later. They open and close scopes in good order, above those that the call has found, and a loop
binds its item in its own scope only. So a loop hides an outer binding of its name in its body, and
nowhere else. -/
theorem scopes_given_back (setting : Setting) (ahead : Nat) (call : Call) (s : State) :
    (call.step setting ahead s).state.scopes = s.scopes ∧
    ∀ header log later,
      (s.cursor.rest.length ≤ ahead →
        ReachesAbove setting later.length (call.start setting header s log later)
          ⟨(call.step setting ahead s).behind log, later⟩) ∧
      ∀ m, ReachesAbove setting later.length (call.start setting header s log later) m →
        ∃ opened,
          Tracks setting later.length (call.start setting header s log later) opened m ∧
          m.Lawful setting s.scopes later.length opened := by
  refine ⟨call.step_keeps setting ahead s, fun header log later => ⟨call.start_reaches, ?_⟩⟩
  intro m reaches
  obtain ⟨opened, tracks, holds⟩ := call.start_holds.reaches reaches
  exact ⟨opened, tracks, holds.lawful⟩

/-- Every move is made while something is pending. -/
theorem Reaches.above_zero {m m' : Snapshot} (reaches : Reaches setting m m') :
    ReachesAbove setting 0 m m' := by
  refine ReflTransGen.mono (fun m n moves => ⟨moves, List.length_pos_iff.mpr ?_⟩) _ _ reaches
  intro none
  exact moves_none_iff.mpr none n moves

/-- A loop that fails in its first pass: in its body the name has the item, above the scopes that
the loop has found, and the failure leaves the name as it was before. -/
theorem scopes_given_back_on_failure :
    let setting : Setting := ⟨Table.provider (.ofEntries [("n", .list [.int 1])]), .skip⟩
    let s : State := ⟨⟨1, [⟨"#foreach ($i in $n)".toList, some .loop⟩,
      ⟨"#if".toList, some .conditional⟩]⟩, ⟨[.single "i" (.int 7)]⟩⟩
    let call := Call.loop "#foreach ($i in $n)".toList
    (call.step setting 2 s).failure.isSome = true ∧
    (∃ m opened, ReachesAbove setting 0 (call.start setting 1 s [] []) m ∧
      m.Lawful setting s.scopes 0 opened ∧
      m.scopes.lookup setting.provider "i" = some (.int 1)) ∧
    s.scopes.lookup setting.provider "i" = some (.int 7) ∧
    (call.step setting 2 s).state.scopes.lookup setting.provider "i" = some (.int 7) := by
  intro setting s call
  obtain ⟨given, between⟩ := scopes_given_back setting 2 call s
  have fails : (call.step setting 2 s).failure.isSome = true := by
    subst setting s call
    decide +kernel
  have trail : (Snapshot.after setting 3 (call.start setting 1 s [] [])).map
      (fun m => m.scopes.lookup setting.provider "i") = some (some (.int 1)) := rfl
  have outer : s.scopes.lookup setting.provider "i" = some (.int 7) := rfl
  refine ⟨fails, ?_, outer, ?_⟩
  · obtain ⟨m, leads, inside⟩ := Option.map_eq_some_iff.mp trail
    have reaches := (reaches_after leads).above_zero
    obtain ⟨opened, -, lawful⟩ := (between 1 [] []).2 m reaches
    exact ⟨m, opened, reaches, lawful, inside⟩
  · rw [given]
    exact outer

end LineTemplate.Render
