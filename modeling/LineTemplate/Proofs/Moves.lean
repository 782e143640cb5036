import Mathlib.Logic.Relation
import LineTemplate.Proofs.MatchingEnds

/-!
# A render, move by move

A render needs no bound on the lines ahead. It can be carried out with a list of the tasks that are
left to be done: a move takes the first one, does what it does at once, and puts what it leaves in
front of the others (`Snapshot.next`). After a failure tasks are given up, and only scopes are still
closed. A task keeps the line of the header that it is done for.

**The law** (`lines_carriedOut`): whatever else is pending, the moves carry out what `lines` does,
and touch nothing that is pending below before they have done so. The proof follows the steps: one
rule for each way to put steps together (`CarriesOut`), and one for each kind of work.
-/

namespace LineTemplate.Render

open Relation (ReflTransGen)

/-! ## Tasks -/

/-- What there is to do for a header, or for the whole text. -/
inductive Work where
  /-- Lines are rendered, in a scope of their own. -/
  | block (extent : Extent)
  /-- Lines are passed over. -/
  | skip (extent : Extent)
  /-- The lines of a block go on. -/
  | lines (extent : Extent)
  /-- The lines that are passed over go on, inside of `depth` blocks. -/
  | seek (extent : Extent) (depth : Nat)
  /-- The first part of a condition is behind, rendered or not; there may be a second one. -/
  | second (rendered : Bool)
  /-- A loop begins, in a scope of its own. -/
  | loop (name : String) (start : Cursor) (items : List Value)
  /-- Items of a loop are left. -/
  | passes (name : String) (start : Cursor) (items : List Value)
  /-- The innermost scope is closed. -/
  | leave
  /-- The directive that closes a block is stepped over. -/
  | close

/-- Work for the header on a line; for the whole text the line is zero. -/
structure Task where
  header : Nat
  work : Work

namespace Step

/-- Opens a scope. -/
def enter : Step := fun s =>
  ⟨⟨s.cursor, s.scopes.push⟩, [], none⟩

/-- Closes the innermost scope. -/
def leave : Step := fun s =>
  ⟨⟨s.cursor, s.scopes.pop⟩, [], none⟩

end Step

/-- What a condition does at once, and the work that it leaves. -/
def conditionOpening (setting : Setting) (s : State) (text : List Char) : Step × List Work :=
  match Header.conditionPath? text with
  | none => (.fail (.parse ⟨s.cursor.line, .malformedCondition (Header.quoted text)⟩), [])
  | some path =>
    let holds := ((s.scopes.lookup setting.provider path).map Value.isTrue).getD false
    ((Step.write [.event (.condition s.cursor.line path holds)]).andThen (.forward 1),
      [if holds then .block .branch else .skip .branch, .second holds, .close])

/-- What a loop does at once, and the work that it leaves. -/
def loopOpening (setting : Setting) (s : State) (text : List Char) : Step × List Work :=
  match Header.loop? text with
  | none => (.fail (.parse ⟨s.cursor.line, .malformedLoop (Header.quoted text)⟩), [])
  | some header =>
    let container := s.scopes.lookup setting.provider header.container
    match container.bind Value.items? with
    | none => (.fail (.notIterable s.cursor.line header.container (container.map Value.kind)), [])
    | some items =>
      ((Step.write [.event (.loop s.cursor.line header.item header.container
          items.length)]).andThen (.forward 1),
        [.loop header.item (s.cursor.forward 1) items, .close])

/-- What a line does at once that does not end its level, and the work that it leaves. -/
def opening (setting : Setting) (s : State) (line : Line) : Step × List Work :=
  match line.directive with
  | none => (plain setting line.text, [])
  | some .conditional => conditionOpening setting s line.text
  | some .loop => loopOpening setting s line.text
  | some .otherwise => (stray setting .otherwise, [])
  | some .close => (stray setting .close, [])

namespace Task

/-- What a task does at once, and the tasks that it leaves. -/
def begin (setting : Setting) (s : State) (task : Task) : Step × List Task :=
  match task.work with
  | .block extent => (.enter, [⟨task.header, .lines extent⟩, ⟨task.header, .leave⟩])
  | .skip extent => (.done, [⟨task.header, .seek extent 0⟩])
  | .lines extent =>
    match s.cursor.rest with
    | [] => (.atEnd extent, [])
    | line :: _ =>
      if line.directive.any (· ∈ extent.closers) then (.done, [])
      else ((opening setting s line).1,
        (opening setting s line).2.map (Task.mk s.cursor.line) ++ [task])
  | .seek extent depth =>
    match s.cursor.rest with
    | [] => (.atEnd extent, [])
    | line :: _ =>
      if depth = 0 ∧ line.directive.any (· ∈ extent.closers) then (.done, [])
      else (.forward 1, [⟨task.header, .seek extent (line.depthBehind depth)⟩])
  | .second rendered =>
    if s.cursor.directive? = some .otherwise then
      if rendered then (.done, [⟨task.header, .skip .body⟩])
      else (.forward 1, [⟨task.header, .block .body⟩])
    else (.done, [])
  | .loop name start items =>
    (.enter, [⟨task.header, if items.isEmpty then .skip .body else .passes name start items⟩,
      ⟨task.header, .leave⟩])
  | .passes _ _ [] => (.done, [])
  | .passes name start (item :: items) =>
    ((Step.bind name (loopItem item)).andThen (.moveTo start),
      [⟨task.header, .block .body⟩, ⟨task.header, .passes name start items⟩])
  | .leave => (.leave, [])
  | .close => (.forward 1, [])

/-- What becomes of a task after a failure: scopes are still closed. -/
def giveUp (task : Task) (s : State) : State :=
  match task.work with
  | .leave => (Step.leave s).state
  | _ => s

end Task

/-! ## Moves -/

/-- An outcome that comes after what has been written already. -/
def Outcome.behind (log : List Entry) (outcome : Outcome) : Outcome :=
  ⟨outcome.state, log ++ outcome.log, outcome.failure⟩

/-- A render between two moves: what has come out so far, and what is left to be done. -/
structure Snapshot where
  outcome : Outcome
  pending : List Task

namespace Snapshot

/-- A render of all lines at its beginning. -/
def start (all : List Line) : Snapshot :=
  ⟨⟨⟨Cursor.start all, Scopes.root⟩, [], none⟩, [⟨0, .block .whole⟩]⟩

def cursor (m : Snapshot) : Cursor :=
  m.outcome.state.cursor

/-- The next move, if there is something left to be done. -/
def next (setting : Setting) (m : Snapshot) : Option Snapshot :=
  match m.pending with
  | [] => none
  | task :: later =>
    match m.outcome.failure with
    | some failure =>
      some ⟨⟨task.giveUp m.outcome.state, m.outcome.log, some failure⟩, later⟩
    | none =>
      let (step, tasks) := task.begin setting m.outcome.state
      some ⟨(step m.outcome.state).behind m.outcome.log, tasks ++ later⟩

end Snapshot

variable {setting : Setting}

/-- One move leads from a snapshot to another one. -/
def Moves (setting : Setting) (m m' : Snapshot) : Prop :=
  m.next setting = some m'

/-- Some moves lead from a snapshot to another one. -/
def Reaches (setting : Setting) : Snapshot → Snapshot → Prop :=
  ReflTransGen (Moves setting)

/-- A move that is made while more than `depth` tasks are pending, so that the last `depth` ones are
not touched. -/
def MovesAbove (setting : Setting) (depth : Nat) (m m' : Snapshot) : Prop :=
  Moves setting m m' ∧ depth < m.pending.length

def ReachesAbove (setting : Setting) (depth : Nat) : Snapshot → Snapshot → Prop :=
  ReflTransGen (MovesAbove setting depth)

theorem ReachesAbove.mono {depth above : Nat} (le : depth ≤ above) {m m' : Snapshot}
    (reaches : ReachesAbove setting above m m') : ReachesAbove setting depth m m' :=
  ReflTransGen.mono (fun _ _ moves => ⟨moves.1, Nat.lt_of_le_of_lt le moves.2⟩) _ _ reaches

theorem ReachesAbove.reaches {depth : Nat} {m m' : Snapshot}
    (reaches : ReachesAbove setting depth m m') : Reaches setting m m' :=
  ReflTransGen.mono (fun _ _ moves => moves.1) _ _ reaches

theorem movesAbove_begin {s : State} {log : List Entry} {task : Task} {later : List Task}
    {step : Step} {tasks : List Task} (begins : task.begin setting s = (step, tasks)) :
    MovesAbove setting later.length ⟨⟨s, log, none⟩, task :: later⟩
      ⟨(step s).behind log, tasks ++ later⟩ := by
  refine ⟨?_, Nat.lt_succ_self _⟩
  simp only [Moves, Snapshot.next, begins]

/-- After a failure the tasks are given up one by one. -/
theorem reachesAbove_giveUp {outcome : Outcome} (fails : outcome.failure ≠ none)
    {tasks : List Task} (scopes : ∀ task ∈ tasks, task.work ≠ .leave) (later : List Task) :
    ReachesAbove setting later.length ⟨outcome, tasks ++ later⟩ ⟨outcome, later⟩ := by
  induction tasks with
  | nil => exact .refl
  | cons task tasks ih =>
    obtain ⟨s, log, failure⟩ := outcome
    obtain ⟨failure, rfl⟩ := Option.ne_none_iff_exists'.mp fails
    have stays : task.giveUp s = s := by
      have notLeave := scopes task List.mem_cons_self
      unfold Task.giveUp
      split
      next leaves => exact (notLeave leaves).elim
      next => rfl
    refine .head ⟨?_, ?_⟩ (ih fun task member => scopes task (List.mem_cons_of_mem _ member))
    · simp only [Moves, Snapshot.next, List.cons_append, stays]
    · simp only [List.cons_append, List.length_cons, List.length_append]
      omega

/-! ## What tasks carry out -/

/-- From the state `s` the tasks do what the step does, whatever is pending below. -/
def CarriesOut (setting : Setting) (tasks : List Task) (step : Step) (s : State) : Prop :=
  ∀ log later, ReachesAbove setting later.length ⟨⟨s, log, none⟩, tasks ++ later⟩
    ⟨(step s).behind log, later⟩

theorem Step.andThen_assoc (first second third : Step) :
    (first.andThen second).andThen third = first.andThen (second.andThen third) := by
  funext s
  simp only [Step.andThen]
  cases h : (first s).failure with
  | some failure => simp only [h]
  | none =>
    cases h' : (second (first s).state).failure with
    | some failure => simp only [h']
    | none => simp only [List.append_assoc]

theorem Step.andThen_of_succeeds {first second : Step} {s : State}
    (succeeds : (first s).failure = none) :
    (first.andThen second) s = (second (first s).state).behind (first s).log := by
  simp only [Step.andThen, succeeds, Outcome.behind]

theorem Step.andThen_done (step : Step) (s : State) : (step.andThen .done) s = step s := by
  cases fails : (step s).failure with
  | some failure => simp only [Step.andThen, fails]
  | none => rw [Step.andThen_of_succeeds fails, Step.done, Outcome.behind, List.append_nil, ← fails]

namespace CarriesOut

variable {s : State} {task : Task} {tasks tasks' : List Task} {first second step step' : Step}

theorem congr (carries : CarriesOut setting tasks step s) (same : step' s = step s) :
    CarriesOut setting tasks step' s := by
  intro log later
  rw [same]
  exact carries log later

theorem nothing : CarriesOut setting [] .done s := by
  intro log later
  have same : (Step.done s).behind log = ⟨s, log, none⟩ := by
    simp only [Step.done, Outcome.behind, List.append_nil]
  rw [same]
  exact .refl

/-- What comes after a step: its tasks are done, or given up after a failure. -/
theorem sequel (scopes : ∀ task ∈ tasks, task.work ≠ .leave)
    (rest : (first s).failure = none → CarriesOut setting tasks second (first s).state)
    (log : List Entry) (later : List Task) :
    ReachesAbove setting later.length ⟨(first s).behind log, tasks ++ later⟩
      ⟨((first.andThen second) s).behind log, later⟩ := by
  cases fails : (first s).failure with
  | some failure =>
    have same : (first.andThen second) s = first s := by simp only [Step.andThen, fails]
    have failed : ((first s).behind log).failure ≠ none := by
      rw [Outcome.behind, fails]
      exact Option.some_ne_none failure
    rw [same]
    exact reachesAbove_giveUp failed scopes later
  | none =>
    have same : ((first.andThen second) s).behind log =
        (second (first s).state).behind (log ++ (first s).log) := by
      simp only [Step.andThen_of_succeeds fails, Outcome.behind, List.append_assoc]
    have middle : (first s).behind log = ⟨(first s).state, log ++ (first s).log, none⟩ := by
      rw [Outcome.behind, fails]
    rw [same, middle]
    exact rest fails (log ++ (first s).log) later

/-- Tasks are done one after the other. -/
theorem andThen (left : CarriesOut setting tasks' first s)
    (scopes : ∀ task ∈ tasks, task.work ≠ .leave)
    (right : (first s).failure = none → CarriesOut setting tasks second (first s).state) :
    CarriesOut setting (tasks' ++ tasks) (first.andThen second) s := by
  intro log later
  have above : later.length ≤ (tasks ++ later).length := by
    rw [List.length_append]
    omega
  rw [List.append_assoc]
  exact (ReachesAbove.mono above (left log (tasks ++ later))).trans (sequel scopes right log later)

/-- A task does something at once, and leaves other tasks. -/
theorem begins (begins : task.begin setting s = (first, tasks))
    (scopes : ∀ task ∈ tasks, task.work ≠ .leave)
    (rest : (first s).failure = none → CarriesOut setting tasks second (first s).state) :
    CarriesOut setting [task] (first.andThen second) s := by
  intro log later
  exact .head (movesAbove_begin begins) (sequel scopes rest log later)

/-- A task does everything at once. -/
theorem at_once (begins : task.begin setting s = (step, [])) :
    CarriesOut setting [task] step s := by
  intro log later
  exact .single (movesAbove_begin begins)

/-- A scope is closed however what is done inside ends. -/
theorem inScope {inner : Task} {header : Nat}
    (begins : task.begin setting s = (.enter, [inner, ⟨header, .leave⟩]))
    (inside : CarriesOut setting [inner] step ⟨s.cursor, s.scopes.push⟩) :
    CarriesOut setting [task] (.inScope step) s := by
  intro log later
  have body := inside (log ++ []) (⟨header, .leave⟩ :: later)
  have leaves : MovesAbove setting later.length
      ⟨(step ⟨s.cursor, s.scopes.push⟩).behind (log ++ []), ⟨header, .leave⟩ :: later⟩
      ⟨(Step.inScope step s).behind log, later⟩ := by
    refine ⟨?_, Nat.lt_succ_self _⟩
    simp only [Moves, Snapshot.next, Outcome.behind, Step.inScope, List.append_nil]
    cases (step ⟨s.cursor, s.scopes.push⟩).failure with
    | some failure => rfl
    | none => simp only [Task.begin, Step.leave, List.append_nil, List.nil_append]
  exact (ReflTransGen.head (movesAbove_begin begins)
    (ReachesAbove.mono (Nat.le_succ _) body)).tail leaves

end CarriesOut

/-! ## Parts that are passed over -/

variable {s : State} {extent : Extent} {header : Nat}

/-- Passes over lines from inside of `depth` blocks. -/
def Step.skipFrom (extent : Extent) (depth : Nat) : Step := fun s =>
  match seek extent.closers depth s.cursor.rest with
  | some count => forward count s
  | none => (forward s.cursor.rest.length).andThen (atEnd extent) s

theorem skipFrom_nil {line depth : Nat} {scopes : Scopes} :
    Step.skipFrom extent depth ⟨⟨line, []⟩, scopes⟩ = Step.atEnd extent ⟨⟨line, []⟩, scopes⟩ := by
  cases extent <;> rfl

/-- A line that does not end the level is passed over first. -/
theorem skipFrom_cons {line depth : Nat} {first : Line} {rest : List Line} {scopes : Scopes}
    (goes : depth = 0 → ∀ directive, first.directive = some directive →
      directive ∉ extent.closers) :
    Step.skipFrom extent depth ⟨⟨line, first :: rest⟩, scopes⟩ =
      ((Step.forward 1).andThen (Step.skipFrom extent (first.depthBehind depth)))
        ⟨⟨line, first :: rest⟩, scopes⟩ := by
  have place (count : Nat) : line + 1 + count = line + (count + 1) := by omega
  simp only [Step.skipFrom, Step.andThen, Step.forward, Cursor.forward, List.drop_succ_cons,
    List.drop_zero, seek_cons_goes goes]
  cases seek extent.closers (first.depthBehind depth) rest with
  | some count => simp only [Option.map_some, place, List.drop_succ_cons, List.nil_append]
  | none =>
    simp only [Option.map_none, List.length_cons, List.drop_succ_cons, place, List.nil_append]

theorem not_closes_of_any {line : Line} {depth : Nat}
    (goes : ¬ (depth = 0 ∧ line.directive.any (· ∈ extent.closers))) :
    depth = 0 → ∀ directive, line.directive = some directive → directive ∉ extent.closers := by
  intro level directive found member
  apply goes
  rw [found]
  exact ⟨level, decide_eq_true member⟩

theorem seek_carriedOut (depth : Nat) :
    CarriesOut setting [⟨header, .seek extent depth⟩] (.skipFrom extent depth) s := by
  obtain ⟨⟨line, rest⟩, scopes⟩ := s
  induction rest generalizing line depth with
  | nil =>
    have begins : Task.begin setting ⟨⟨line, []⟩, scopes⟩ ⟨header, .seek extent depth⟩ =
        (.atEnd extent, []) := rfl
    exact (CarriesOut.at_once begins).congr skipFrom_nil
  | cons first rest ih =>
    by_cases ends : depth = 0 ∧ first.directive.any (· ∈ extent.closers)
    · have begins : Task.begin setting ⟨⟨line, first :: rest⟩, scopes⟩
          ⟨header, .seek extent depth⟩ = (.done, []) := if_pos ends
      refine (CarriesOut.at_once begins).congr ?_
      obtain ⟨rfl, ends⟩ := ends
      obtain ⟨text, directive⟩ := first
      obtain ⟨directive, rfl, member⟩ := (Option.any_eq_true _ _).mp ends
      simp only [Step.skipFrom, seek_cons_found text (of_decide_eq_true member)]
      rfl
    · have begins : Task.begin setting ⟨⟨line, first :: rest⟩, scopes⟩
          ⟨header, .seek extent depth⟩ =
          (.forward 1, [⟨header, .seek extent (first.depthBehind depth)⟩]) := if_neg ends
      exact (CarriesOut.begins begins (by simp) fun _ => ih _ _).congr
        (skipFrom_cons (not_closes_of_any ends))

theorem skip_carriedOut : CarriesOut setting [⟨header, .skip extent⟩] (.skip extent) s := by
  have begins : Task.begin setting s ⟨header, .skip extent⟩ =
      (.done, [⟨header, .seek extent 0⟩]) := rfl
  exact (CarriesOut.begins begins (by simp) fun _ => seek_carriedOut 0).congr rfl

/-! ## Parts that are rendered -/

/-- From `s`, what is done at once and the work that is left then come to this outcome. -/
def SpelledOut (setting : Setting) (header : Nat) (outcome : Outcome)
    (opening : Step × List Work) (s : State) : Prop :=
  ∃ rest : Step, outcome = (opening.1.andThen rest) s ∧ (∀ work ∈ opening.2, work ≠ .leave) ∧
    CarriesOut setting (opening.2.map (Task.mk header)) rest (opening.1 s).state

theorem SpelledOut.at_once (step : Step) : SpelledOut setting header (step s) (step, []) s :=
  ⟨.done, (Step.andThen_done step s).symm, nofun, .nothing⟩

/-- Behind what is done at once, the moves come to the outcome that is spelled out. -/
theorem SpelledOut.reaches {outcome : Outcome} {opening : Step × List Work}
    (spelled : SpelledOut setting header outcome opening s) (log : List Entry)
    (later : List Task) :
    ReachesAbove setting later.length
      ⟨(opening.1 s).behind log, opening.2.map (Task.mk header) ++ later⟩
      ⟨outcome.behind log, later⟩ := by
  obtain ⟨others, rfl, scopes, carries⟩ := spelled
  refine CarriesOut.sequel ?_ (fun _ => carries) log later
  intro task member
  obtain ⟨work, inside, rfl⟩ := List.mem_map.mp member
  exact scopes work inside

section Blocks

variable {block : Extent → Step} {bound : Nat}
  (blocks : ∀ header extent (t : State), t.cursor.rest.length ≤ bound →
    CarriesOut setting [⟨header, .block extent⟩] (block extent) t)

include blocks

/-- Behind the first part of a condition the second one is passed over, or rendered. -/
theorem second_carriedOut (rendered : Bool)
    (near : rendered = false → s.cursor.rest.length ≤ bound) :
    CarriesOut setting [⟨header, .second rendered⟩]
      (.atOtherwise (if rendered then .skip .body else (Step.forward 1).andThen (block .body)))
      s := by
  by_cases middle : s.cursor.directive? = some .otherwise
  · cases rendered with
    | true =>
      have begins : Task.begin setting s ⟨header, .second true⟩ =
          (.done, [⟨header, .skip .body⟩]) := if_pos middle
      exact (CarriesOut.begins begins (by simp) fun _ => skip_carriedOut).congr (if_pos middle)
    | false =>
      have begins : Task.begin setting s ⟨header, .second false⟩ =
          (.forward 1, [⟨header, .block .body⟩]) := if_pos middle
      have nearer : (s.cursor.rest.drop 1).length ≤ bound := by
        rw [List.length_drop]
        exact Nat.le_trans (Nat.sub_le _ _) (near rfl)
      exact (CarriesOut.begins begins (by simp) fun _ => blocks _ _ _ nearer).congr
        (if_pos middle)
  · have begins : Task.begin setting s ⟨header, .second rendered⟩ = (.done, []) := if_neg middle
    exact (CarriesOut.at_once begins).congr (if_neg middle)

theorem branch_carriedOut (holds : Bool) (near : s.cursor.rest.length ≤ bound) :
    CarriesOut setting
      ([⟨header, if holds then .block .branch else .skip .branch⟩] ++ [⟨header, .second holds⟩])
      (branch block holds) s := by
  cases holds with
  | true =>
    exact (blocks _ _ _ near).andThen (by simp) fun _ => second_carriedOut blocks true nofun
  | false =>
    refine CarriesOut.andThen skip_carriedOut (by simp) fun succeeds => ?_
    refine second_carriedOut blocks false fun _ => ?_
    obtain ⟨count, -, arrives⟩ := skip_succeeds branch_ne_whole succeeds
    rw [arrives]
    show (s.cursor.rest.drop count).length ≤ bound
    rw [List.length_drop]
    exact Nat.le_trans (Nat.sub_le _ _) near

theorem passes_carriedOut (name : String) {start : Cursor} (near : start.rest.length ≤ bound)
    (items : List Value) :
    CarriesOut setting [⟨header, .passes name start items⟩] (each block name start items) s := by
  induction items generalizing s with
  | nil => exact CarriesOut.at_once rfl
  | cons item items ih =>
    have begins : Task.begin setting s ⟨header, .passes name start (item :: items)⟩ =
        ((Step.bind name (loopItem item)).andThen (.moveTo start),
          [⟨header, .block .body⟩, ⟨header, .passes name start items⟩]) := rfl
    rw [each, ← Step.andThen_assoc]
    exact .begins begins (by simp) fun _ => (blocks _ _ _ near).andThen (by simp) fun _ => ih

theorem loop_carriedOut (name : String) {start : Cursor} (near : start.rest.length ≤ bound)
    (items : List Value) :
    CarriesOut setting [⟨header, .loop name start items⟩]
      (.inScope (if items.isEmpty then .skip .body else each block name start items)) s := by
  refine CarriesOut.inScope rfl ?_
  cases items with
  | nil => exact skip_carriedOut
  | cons item items => exact passes_carriedOut blocks name near (item :: items)

theorem conditional_spelledOut (near : (s.cursor.forward 1).rest.length ≤ bound)
    (text : List Char) :
    SpelledOut setting header (conditional setting block text s)
      (conditionOpening setting s text) s := by
  unfold conditional conditionOpening
  cases Header.conditionPath? text with
  | none => exact .at_once (.fail _)
  | some path =>
    let holds := ((s.scopes.lookup setting.provider path).map Value.isTrue).getD false
    refine ⟨(branch block holds).andThen (.forward 1), ?_, ?_, ?_⟩
    · rw [Step.andThen_assoc]
      rfl
    · simp only
      split <;> simp
    · exact (branch_carriedOut blocks _ near).andThen (by simp) fun _ => .at_once rfl

theorem loop_spelledOut (near : (s.cursor.forward 1).rest.length ≤ bound) (text : List Char) :
    SpelledOut setting header (loop setting block text s) (loopOpening setting s text) s := by
  unfold loop loopOpening
  cases Header.loop? text with
  | none => exact .at_once (.fail _)
  | some found =>
    simp only
    cases (s.scopes.lookup setting.provider found.container).bind Value.items? with
    | none => exact .at_once (.fail _)
    | some items =>
      let passes : Step :=
        if items.isEmpty then .skip .body else each block found.item (s.cursor.forward 1) items
      refine ⟨(Step.inScope passes).andThen (.forward 1), ?_, by simp, ?_⟩
      · rw [Step.andThen_assoc]
      · exact (loop_carriedOut blocks found.item near items).andThen (by simp) fun _ => .at_once rfl

/-- **The work that a line leaves does the rest of handling it.** -/
theorem handle_spelledOut (near : (s.cursor.forward 1).rest.length ≤ bound) (line : Line) :
    SpelledOut setting header (handle setting block line s) (opening setting s line) s := by
  unfold handle opening
  cases line.directive with
  | none => exact .at_once _
  | some directive =>
    cases directive with
    | conditional => exact conditional_spelledOut blocks near line.text
    | otherwise => exact .at_once _
    | loop => exact loop_spelledOut blocks near line.text
    | close => exact .at_once _

end Blocks

/-! ## Lines -/

/-- **A line that is handled without a failure leads to a later one.** -/
theorem handle_advances {ahead : Nat} {line : Line} {rest : List Line}
    (next : s.cursor.rest = line :: rest)
    (succeeds : (handle setting (block setting ahead) line s).failure = none) :
    ∃ count, (handle setting (block setting ahead) line s).state.cursor =
      s.cursor.forward (count + 1) := by
  have finds (extent : Extent) (inner : extent ≠ .whole) (s : State) :
      (block setting ahead extent).FindsFrom extent s := .inScope (lines_finds ahead inner _)
  have stays (directive : Directive)
      (succeeds : (stray setting directive s).failure = none) :
      (stray setting directive s).state.cursor = s.cursor.forward (0 + 1) := by
    unfold stray at succeeds ⊢
    cases policy : setting.strays with
    | skip => rfl
    | reject =>
      rw [policy] at succeeds
      exact nomatch succeeds
  cases stands : line.directive with
  | none =>
    simp only [handle, stands]
    exact ⟨0, rfl⟩
  | some directive =>
    cases directive with
    | conditional =>
      obtain ⟨count, -, arrives⟩ := handle_leads_behind finds next (.inl stands) succeeds
      exact ⟨count + 1, arrives⟩
    | loop =>
      obtain ⟨count, -, arrives⟩ := handle_leads_behind finds next (.inr stands) succeeds
      exact ⟨count + 1, arrives⟩
    | otherwise =>
      simp only [handle, stands] at succeeds ⊢
      exact ⟨0, stays .otherwise succeeds⟩
    | close =>
      simp only [handle, stands] at succeeds ⊢
      exact ⟨0, stays .close succeeds⟩

theorem begin_at_end (ended : s.cursor.rest = []) :
    Task.begin setting s ⟨header, .lines extent⟩ = (.atEnd extent, []) := by
  simp only [Task.begin, ended]

theorem begin_at_closer {line : Line} {rest : List Line} (next : s.cursor.rest = line :: rest)
    {directive : Directive} (found : line.directive = some directive)
    (closes : directive ∈ extent.closers) :
    Task.begin setting s ⟨header, .lines extent⟩ = (.done, []) := by
  simp only [Task.begin, next, found, Option.any_some, closes, decide_true, if_true]

/-- Between two lines of a block, the moves carry out what the first of them stands for. -/
theorem reachesAbove_handle {block : Extent → Step} {bound : Nat}
    (blocks : ∀ header extent (t : State), t.cursor.rest.length ≤ bound →
      CarriesOut setting [⟨header, .block extent⟩] (block extent) t)
    {line : Line} {rest : List Line} (next : s.cursor.rest = line :: rest)
    (goes : ∀ directive, line.directive = some directive → directive ∉ extent.closers)
    (near : s.cursor.rest.length ≤ bound + 1) (log : List Entry) (later : List Task) :
    ∃ m, Moves setting ⟨⟨s, log, none⟩, ⟨header, .lines extent⟩ :: later⟩ m ∧
      ReachesAbove setting (later.length + 1) m
        ⟨(handle setting block line s).behind log, ⟨header, .lines extent⟩ :: later⟩ := by
  have stays : line.directive.any (· ∈ extent.closers) = false := by
    cases found : line.directive with
    | none => rfl
    | some directive => exact decide_eq_false (goes directive found)
  have begins : Task.begin setting s ⟨header, .lines extent⟩ = ((opening setting s line).1,
      (opening setting s line).2.map (Task.mk s.cursor.line) ++ [⟨header, .lines extent⟩]) := by
    simp only [Task.begin, next, stays, Bool.false_eq_true, if_false]
  have behind : (s.cursor.forward 1).rest.length ≤ bound := by
    rw [Cursor.forward, List.length_drop]
    omega
  have spells : SpelledOut setting s.cursor.line (handle setting block line s)
      (opening setting s line) s := handle_spelledOut blocks behind line
  refine ⟨_, (movesAbove_begin begins).1, ?_⟩
  rw [List.append_assoc]
  exact spells.reaches log (⟨header, .lines extent⟩ :: later)

/-- **The moves carry out what `lines` does**, if its bound is large enough. -/
theorem lines_carriedOut (ahead : Nat) (near : s.cursor.rest.length ≤ ahead) :
    CarriesOut setting [⟨header, .lines extent⟩] (lines setting ahead extent) s := by
  induction ahead generalizing header extent s with
  | zero => exact .at_once (begin_at_end (List.eq_nil_of_length_eq_zero (Nat.le_zero.mp near)))
  | succ ahead ih =>
    rcases lines_cases ahead extent s with
      ⟨ended, ends⟩ | ⟨first, rest, directive, next, found, closes, stops⟩ |
      ⟨first, rest, next, goes, handles⟩
    · exact (CarriesOut.at_once (begin_at_end ended)).congr (ends setting)
    · exact (CarriesOut.at_once (begin_at_closer next found closes)).congr (stops setting)
    · have blocks (header : Nat) (extent : Extent) (t : State)
          (near : t.cursor.rest.length ≤ ahead) :
          CarriesOut setting [⟨header, .block extent⟩] (block setting ahead extent) t :=
        .inScope rfl (ih near)
      have nearer (succeeds : (handle setting (block setting ahead) first s).failure = none) :
          (handle setting (block setting ahead) first s).state.cursor.rest.length ≤ ahead := by
        obtain ⟨count, arrives⟩ := handle_advances next succeeds
        rw [arrives, Cursor.forward, List.length_drop]
        omega
      intro log later
      obtain ⟨m, moves, reaches⟩ := reachesAbove_handle blocks next goes near log later
      rw [handles]
      exact .head ⟨moves, Nat.lt_succ_self _⟩ ((reaches.mono (Nat.le_succ _)).trans
        (CarriesOut.sequel (by simp) (fun succeeds => ih (nearer succeeds)) log later))

theorem block_carriedOut (ahead : Nat) (near : s.cursor.rest.length ≤ ahead) :
    CarriesOut setting [⟨header, .block extent⟩] (block setting ahead extent) s :=
  .inScope rfl (lines_carriedOut ahead near)

end LineTemplate.Render
