import LineTemplate.Proofs.Failures
import LineTemplate.Proofs.Moves

/-!
# Every render ends

A loop puts the cursor back to its first line for every item, so the line numbers of a render go up
and down. What is pending tells how far back it can go: never to the header that something is still
to be done for (`Ready`). Every move keeps this, so it holds between any two moves of a render, and
with it the cursor stays among the lines (`Snapshot.Sound`).

**The law** (`run_ends`): the moves of a render come to an end, with the outcome that `run` gives.
-/

namespace LineTemplate.Render

open Relation (ReflTransGen)

variable {setting : Setting} {all : List Line}

theorem Cursor.Among.line_le {cursor : Cursor} (among : cursor.Among all) :
    cursor.line ≤ all.length + 1 := by
  obtain ⟨front, rfl, count⟩ := among
  rw [count, List.length_append]
  omega

/-! ## What is pending -/

/-- The line with this number is the header of a block. -/
def IsHeader (all : List Line) (number : Nat) : Prop :=
  ∃ index line, number = index + 1 ∧ all[index]? = some line ∧
    (line.directive = some .conditional ∨ line.directive = some .loop)

/-- Whether the cursor stands in front of a line when the work is done; `stands` says whether it
does so before. -/
def Work.StandsBehind (stands : Prop) : Work → Prop
  | .block extent | .skip extent | .lines extent | .seek extent _ => extent ≠ .whole
  | .second _ | .loop .. | .passes .. => True
  | .leave => stands
  | .close => False

namespace Task

/-- A task is done for a header of these lines, or for the text as a whole. -/
def Belongs (all : List Line) (task : Task) : Prop :=
  IsHeader all task.header ∨ (task.header = 0 ∧
    (task.work = .block .whole ∨ task.work = .lines .whole ∨ task.work = .leave))

/-- What a task relies on. The items of a loop are rendered from behind its header on. -/
def Assumes (all : List Line) (stands : Prop) (task : Task) : Prop :=
  match task.work with
  | .block _ | .skip _ | .lines _ | .seek .. | .leave => True
  | .second _ | .close => stands
  | .loop _ start _ => start.Among all ∧ start.line = task.header + 1
  | .passes _ start items =>
    start.Among all ∧ start.line = task.header + 1 ∧ (items = [] → stands)

end Task

/-- These tasks can be gone on with on any line from `line` on, if the cursor stands in front of a
line or `stands` does not say so. Whatever is done for a header ends behind that header. -/
def Ready (all : List Line) : (line : Nat) → (stands : Prop) → List Task → Prop
  | _, _, [] => True
  | line, stands, task :: later =>
    task.header < line ∧ task.Belongs all ∧ task.Assumes all stands ∧
      Ready all (task.header + 1) (task.work.StandsBehind stands) later

namespace Ready

variable {line line' : Nat} {stands stands' : Prop} {tasks : List Task}

theorem mono (ready : Ready all line stands tasks) (le : line ≤ line')
    (implies : stands → stands') : Ready all line' stands' tasks := by
  induction tasks generalizing line line' stands stands' with
  | nil => trivial
  | cons task tasks ih =>
    obtain ⟨before, belongs, assumes, later⟩ := ready
    obtain ⟨header, work⟩ := task
    refine ⟨Nat.lt_of_lt_of_le before le, belongs, ?_, ih later (Nat.le_refl _) ?_⟩
    · cases work with
      | second rendered => exact implies assumes
      | close => exact implies assumes
      | passes name start items =>
        obtain ⟨among, place, last⟩ := assumes
        exact ⟨among, place, fun none => implies (last none)⟩
      | _ => exact assumes
    · cases work with
      | leave => exact implies
      | _ => exact id

/-- **Everything that is pending is done for a header in front of the cursor.** -/
theorem header_lt (ready : Ready all line stands tasks) {task : Task} (member : task ∈ tasks) :
    task.header < line ∧ task.Belongs all := by
  induction tasks generalizing line stands with
  | nil => exact (List.not_mem_nil member).elim
  | cons first tasks ih =>
    obtain ⟨before, belongs, -, later⟩ := ready
    rcases List.mem_cons.mp member with rfl | inside
    · exact ⟨before, belongs⟩
    · obtain ⟨below, belongs'⟩ := ih later inside
      exact ⟨by omega, belongs'⟩

end Ready

/-- What holds of a render between two moves: the cursor stands among the lines or at their end, and
what is pending can be gone on with from there. -/
structure Snapshot.Sound (all : List Line) (m : Snapshot) : Prop where
  among : m.cursor.Among all
  ready : m.outcome.failure = none →
    Ready all m.cursor.line (m.cursor.rest ≠ []) m.pending

/-! ## Moves keep it -/

/-- Behind this outcome the tasks can be gone on with, unless it is a failure. -/
def Outcome.LeadsTo (all : List Line) (tasks : List Task) (outcome : Outcome) : Prop :=
  outcome.state.cursor.Among all ∧ (outcome.failure = none →
    Ready all outcome.state.cursor.line (outcome.state.cursor.rest ≠ []) tasks)

namespace Outcome.LeadsTo

variable {outcome : Outcome} {cursor : Cursor} {tasks : List Task}

theorem of_fails {failure : Failure} (among : outcome.state.cursor.Among all)
    (fails : outcome.failure = some failure) : outcome.LeadsTo all tasks := by
  refine ⟨among, fun succeeds => ?_⟩
  rw [fails] at succeeds
  exact (Option.some_ne_none failure succeeds).elim

/-- The cursor is where it has been. -/
theorem of_stays (stays : outcome.state.cursor = cursor) (among : cursor.Among all)
    (ready : Ready all cursor.line (cursor.rest ≠ []) tasks) : outcome.LeadsTo all tasks := by
  rw [LeadsTo, stays]
  exact ⟨among, fun _ => ready⟩

/-- The cursor has moved over the next line. -/
theorem of_forward (moves : outcome.state.cursor = cursor.forward 1) (among : cursor.Among all)
    (stands : cursor.rest ≠ []) (ready : Ready all (cursor.line + 1) False tasks) :
    outcome.LeadsTo all tasks := by
  obtain ⟨line, rest⟩ := cursor
  cases rest with
  | nil => exact (stands rfl).elim
  | cons first rest =>
    rw [LeadsTo, moves]
    exact ⟨among.tail, fun _ => ready.mono (Nat.le_refl _) False.elim⟩

end Outcome.LeadsTo

open Outcome (LeadsTo)

section Moves

variable {s : State} {header : Nat} {later : List Task}

/-- The input ends; only the text as a whole may end there. -/
theorem atEnd_leadsTo {extent : Extent} (among : s.cursor.Among all)
    (before : header < s.cursor.line) (ready : Ready all (header + 1) (extent ≠ .whole) later) :
    (Step.atEnd extent s).LeadsTo all later := by
  cases extent with
  | whole => exact .of_stays rfl among (ready.mono before fun inner => (inner rfl).elim)
  | branch => exact .of_fails among rfl
  | body => exact .of_fails among rfl

/-- What a line leaves is done behind it, and a line that leaves something is a header. -/
theorem opening_leadsTo {line : Line} {rest : List Line} (next : s.cursor.rest = line :: rest)
    (among : s.cursor.Among all) (ready : Ready all (s.cursor.line + 1) False later) :
    ((opening setting s line).1 s).LeadsTo all
      ((opening setting s line).2.map (Task.mk s.cursor.line) ++ later) := by
  have stands : s.cursor.rest ≠ [] := by rw [next]; exact List.cons_ne_nil line rest
  have behind : s.cursor.line < s.cursor.line + 1 := Nat.lt_succ_self _
  have start : (s.cursor.forward 1).Among all := by
    obtain ⟨⟨number, _⟩, scopes⟩ := s
    obtain rfl := next
    exact among.tail
  have isHeader (opens : line.directive = some .conditional ∨ line.directive = some .loop) :
      IsHeader all s.cursor.line := by
    obtain ⟨⟨number, _⟩, scopes⟩ := s
    obtain rfl := next
    obtain ⟨index, place, found⟩ := among.getElem?_eq
    exact ⟨index, line, place, found, opens⟩
  have strays (directive : Directive) : (stray setting directive s).LeadsTo all later := by
    unfold stray
    cases setting.strays with
    | skip => exact .of_forward rfl among stands ready
    | reject => exact .of_fails among rfl
  unfold opening
  split
  next => exact .of_forward rfl among stands ready
  next found =>
    have belongs : IsHeader all s.cursor.line := isHeader (.inl found)
    unfold conditionOpening
    cases Header.conditionPath? line.text with
    | none => exact .of_fails among rfl
    | some path =>
      refine .of_forward rfl among stands ?_
      simp only
      split
      all_goals
        exact ⟨behind, .inl belongs, trivial, behind, .inl belongs, branch_ne_whole, behind,
          .inl belongs, trivial, ready⟩
  next found =>
    have belongs : IsHeader all s.cursor.line := isHeader (.inr found)
    unfold loopOpening
    cases Header.loop? line.text with
    | none => exact .of_fails among rfl
    | some header =>
      simp only
      cases (s.scopes.lookup setting.provider header.container).bind Value.items? with
      | none => exact .of_fails among rfl
      | some items =>
        exact .of_forward rfl among stands ⟨behind, .inl belongs, ⟨start, rfl⟩, behind,
          .inl belongs, trivial, ready⟩
  next => exact strays .otherwise
  next => exact strays .close

/-- **What a task does at once leads to where the other tasks can be gone on with.** -/
theorem begin_leadsTo (setting : Setting) (task : Task) (among : s.cursor.Among all)
    (ready : Ready all s.cursor.line (s.cursor.rest ≠ []) (task :: later)) :
    ((task.begin setting s).1 s).LeadsTo all ((task.begin setting s).2 ++ later) := by
  obtain ⟨header, work⟩ := task
  obtain ⟨before, belongs, assumes, ready⟩ := ready
  have again : header < header + 1 := Nat.lt_succ_self _
  -- where work for a header ends, the cursor stands behind that header
  have onwards {stands : Prop} (ready : Ready all (header + 1) stands later)
      (implies : stands → s.cursor.rest ≠ []) :
      Ready all s.cursor.line (s.cursor.rest ≠ []) later := ready.mono before implies
  cases work with
  | block extent =>
    refine .of_stays rfl among ⟨before, ?_, trivial, again, ?_, trivial, ready⟩
    · exact belongs.imp_right fun whole => ⟨whole.1, by simpa using whole.2⟩
    · exact belongs.imp_right fun whole => ⟨whole.1, .inr (.inr rfl)⟩
  | skip extent =>
    have isHeader : IsHeader all header := belongs.resolve_right (by simp)
    exact .of_stays rfl among ⟨before, .inl isHeader, trivial, ready⟩
  | lines extent =>
    unfold Task.begin
    simp only
    split
    next => exact atEnd_leadsTo among before ready
    next line rest next =>
      split
      · exact .of_stays rfl among (onwards ready fun _ => by rw [next]; exact List.cons_ne_nil _ _)
      · rw [List.append_assoc]
        exact opening_leadsTo next among
          ⟨Nat.lt_succ_of_lt before, belongs, trivial, ready⟩
  | seek extent depth =>
    have isHeader : IsHeader all header := belongs.resolve_right (by simp)
    unfold Task.begin
    simp only
    split
    next => exact atEnd_leadsTo among before ready
    next line rest next =>
      have stands : s.cursor.rest ≠ [] := by rw [next]; exact List.cons_ne_nil _ _
      split
      · exact .of_stays rfl among (onwards ready fun _ => stands)
      · exact .of_forward rfl among stands
          ⟨Nat.lt_succ_of_lt before, .inl isHeader, trivial, ready⟩
  | second rendered =>
    have isHeader : IsHeader all header := belongs.resolve_right (by simp)
    unfold Task.begin
    simp only
    split
    · cases rendered with
      | true =>
        exact .of_stays rfl among
          ⟨before, .inl isHeader, trivial, ready.mono (Nat.le_refl _) fun _ => body_ne_whole⟩
      | false =>
        exact .of_forward rfl among assumes
          ⟨Nat.lt_succ_of_lt before, .inl isHeader, trivial,
            ready.mono (Nat.le_refl _) fun _ => body_ne_whole⟩
    · exact .of_stays rfl among (onwards ready fun _ => assumes)
  | loop name start items =>
    have isHeader : IsHeader all header := belongs.resolve_right (by simp)
    refine .of_stays rfl among ⟨before, .inl isHeader, ?_, again, .inl isHeader, trivial, ?_⟩
    · cases items with
      | nil => trivial
      | cons item items =>
        exact ⟨assumes.1, assumes.2, fun done => (List.cons_ne_nil item items done).elim⟩
    · cases items with
      | nil => exact ready.mono (Nat.le_refl _) fun _ => body_ne_whole
      | cons item items => exact ready
  | passes name start items =>
    have isHeader : IsHeader all header := belongs.resolve_right (by simp)
    obtain ⟨inside, place, last⟩ := assumes
    cases items with
    | nil => exact .of_stays rfl among (onwards ready fun _ => last rfl)
    | cons item items =>
      refine .of_stays rfl inside ⟨?_, .inl isHeader, trivial, again, .inl isHeader,
        ⟨inside, place, fun _ => body_ne_whole⟩, ready⟩
      show header < start.line
      rw [place]
      exact again
  | leave => exact .of_stays rfl among (onwards ready id)
  | close =>
    exact .of_forward rfl among assumes (ready.mono (Nat.le_succ_of_le before) id)

end Moves

namespace Snapshot.Sound

variable {m m' : Snapshot}

theorem start (all : List Line) : (Snapshot.start all).Sound all :=
  ⟨Cursor.among_start all, fun _ => ⟨Nat.one_pos, .inr ⟨rfl, .inl rfl⟩, trivial, trivial⟩⟩

/-- **A move keeps it.** -/
theorem moves (sound : m.Sound all) (moves : Moves setting m m') : m'.Sound all := by
  obtain ⟨⟨s, log, failure⟩, pending⟩ := m
  obtain ⟨among, ready⟩ := sound
  cases pending with
  | nil => exact nomatch moves
  | cons task later =>
    cases failure with
    | some failure =>
      obtain rfl := Option.some.inj moves
      have stays : (task.giveUp s).cursor = s.cursor := by
        unfold Task.giveUp
        split <;> rfl
      exact ⟨by rw [cursor, stays]; exact among, nofun⟩
    | none =>
      obtain rfl := Option.some.inj moves
      obtain ⟨among', ready'⟩ := begin_leadsTo setting task among (ready rfl)
      exact ⟨among', ready'⟩

theorem reaches (sound : m.Sound all) (reaches : Reaches setting m m') : m'.Sound all := by
  induction reaches with
  | refl => exact sound
  | tail _ moves ih => exact ih.moves moves

end Snapshot.Sound

/-! ## There is one way to go on -/

section Unique

variable {α : Type} {r : α → α → Prop} {a b c : α}

/-- Where one way at most leads on, two runs that cannot go on have come to the same end. -/
theorem eq_of_ends (unique : Relator.RightUnique r) (first : ReflTransGen r a b)
    (second : ReflTransGen r a c) (ends : ∀ d, ¬ r b d) (ends' : ∀ d, ¬ r c d) : b = c := by
  rcases ReflTransGen.total_of_right_unique unique first second with onwards | onwards
  · rcases onwards.cases_head with same | ⟨d, step, -⟩
    · exact same
    · exact (ends d step).elim
  · rcases onwards.cases_head with same | ⟨d, step, -⟩
    · exact same.symm
    · exact (ends' d step).elim

/-- Where one way at most leads on, and to an end, there is no endless run. -/
theorem acc_of_ends (unique : Relator.RightUnique r) (reaches : ReflTransGen r a b)
    (ends : ∀ d, ¬ r b d) : Acc (fun d c => r c d) a := by
  induction reaches using ReflTransGen.head_induction_on with
  | refl => exact ⟨_, fun d step => (ends d step).elim⟩
  | head step _ ih =>
    refine ⟨_, fun d step' => ?_⟩
    rw [unique step' step]
    exact ih

end Unique

theorem moves_unique (setting : Setting) : Relator.RightUnique (Moves setting) := by
  intro m first second moves moves'
  exact Option.some.inj (moves.symm.trans moves')

theorem movesAbove_unique (setting : Setting) (depth : Nat) :
    Relator.RightUnique (MovesAbove setting depth) :=
  fun _ _ _ moves moves' => moves_unique setting moves.1 moves'.1

/-- No move is left where nothing is pending, and nowhere else. -/
theorem moves_none_iff {m : Snapshot} : (∀ m', ¬ Moves setting m m') ↔ m.pending = [] := by
  obtain ⟨⟨s, log, failure⟩, pending⟩ := m
  cases pending with
  | nil => exact ⟨fun _ => rfl, fun _ _ => nofun⟩
  | cons task later =>
    refine ⟨fun ends => ?_, nofun⟩
    cases failure with
    | some failure => exact (ends _ rfl).elim
    | none => exact (ends _ rfl).elim

/-- Where some moves lead, if there are as many. -/
def Snapshot.after (setting : Setting) : (count : Nat) → Snapshot → Option Snapshot
  | 0, m => some m
  | count + 1, m => (m.next setting).bind (after setting count)

theorem reaches_after {count : Nat} {m m' : Snapshot}
    (leads : Snapshot.after setting count m = some m') : Reaches setting m m' := by
  induction count generalizing m with
  | zero =>
    obtain rfl := Option.some.inj leads
    exact .refl
  | succ count ih =>
    obtain ⟨n, moves, leads⟩ := Option.bind_eq_some_iff.mp leads
    exact .head moves (ih leads)

/-! ## Passes over the lines of a block -/

/-- From where the lines of a block go on to where they do so again, or to where the block is done:
the first point behind `m` where no more is pending than there. -/
def Pass (setting : Setting) (m m' : Snapshot) : Prop :=
  ∃ n, Moves setting m n ∧ ReachesAbove setting m.pending.length n m' ∧
    m'.pending.length ≤ m.pending.length

theorem Pass.unique {m first second : Snapshot} (pass : Pass setting m first)
    (pass' : Pass setting m second) : first = second := by
  obtain ⟨n, moves, reaches, ends⟩ := pass
  obtain ⟨n', moves', reaches', ends'⟩ := pass'
  obtain rfl := moves_unique setting moves moves'
  exact eq_of_ends (movesAbove_unique setting _) reaches reaches'
    (fun _ above => Nat.not_lt.mpr ends above.2) (fun _ above => Nat.not_lt.mpr ends' above.2)

/-- **A pass leads to a later line**, unless the block is done with it. -/
theorem exists_pass (setting : Setting) {m : Snapshot} {header : Nat} {extent : Extent}
    {later : List Task} (pending : m.pending = ⟨header, .lines extent⟩ :: later)
    (fine : m.outcome.failure = none) :
    ∃ m', Pass setting m m' ∧ (m'.pending = later ∨ (m'.pending = m.pending ∧
      (m'.outcome.failure = none → m.cursor.line < m'.cursor.line))) := by
  obtain ⟨⟨s, log, _⟩, _⟩ := m
  obtain rfl := pending
  obtain rfl := fine
  have at_once {step : Step} (begins : Task.begin setting s ⟨header, .lines extent⟩ = (step, [])) :
      Pass setting ⟨⟨s, log, none⟩, ⟨header, .lines extent⟩ :: later⟩
        ⟨(step s).behind log, later⟩ :=
    ⟨_, (movesAbove_begin begins).1, .refl, Nat.le_succ _⟩
  rcases lines_cases s.cursor.rest.length extent s with
    ⟨ended, -⟩ | ⟨first, rest, directive, next, found, closes, -⟩ | ⟨first, rest, next, goes, -⟩
  · exact ⟨_, at_once (begin_at_end ended), .inl rfl⟩
  · exact ⟨_, at_once (begin_at_closer next found closes), .inl rfl⟩
  · have blocks (header : Nat) (extent : Extent) (t : State)
        (near : t.cursor.rest.length ≤ s.cursor.rest.length) :
        CarriesOut setting [⟨header, .block extent⟩]
          (block setting s.cursor.rest.length extent) t := block_carriedOut _ near
    obtain ⟨n, moves, reaches⟩ := reachesAbove_handle blocks next goes (Nat.le_succ _) log later
    refine ⟨_, ⟨n, moves, reaches, Nat.le_refl _⟩, .inr ⟨rfl, fun succeeds => ?_⟩⟩
    obtain ⟨count, arrives⟩ := handle_advances next succeeds
    show s.cursor.line < (handle setting _ first s).state.cursor.line
    rw [arrives]
    exact Nat.lt_add_of_pos_right (Nat.succ_pos count)

/-! ## The end -/

/-- **Every render ends, whatever bound it is given.** Its moves come to one end, with the outcome
of `run`, and no larger bound changes that. Between two moves the cursor stands among the lines or
at their end, and behind the header of everything that is still to be done; a pass over a line of a
block ends the block or leads to a later line. -/
theorem run_ends (setting : Setting) (all : List Line) :
    (Reaches setting (.start all) ⟨run setting all, []⟩ ∧
      Acc (fun m' m => Moves setting m m') (.start all) ∧
      ∀ m, Reaches setting (.start all) m → (∀ m', ¬ Moves setting m m') →
        m = ⟨run setting all, []⟩) ∧
    (∀ ahead, all.length ≤ ahead →
      block setting ahead .whole ⟨Cursor.start all, Scopes.root⟩ = run setting all) ∧
    ∀ m, Reaches setting (.start all) m →
      (m.cursor.Among all ∧ m.cursor.line ≤ all.length + 1) ∧
      (m.outcome.failure = none → ∀ task ∈ m.pending,
        task.header < m.cursor.line ∧ task.Belongs all) ∧
      ∀ header extent later, m.pending = ⟨header, .lines extent⟩ :: later →
        m.outcome.failure = none →
        (∃ m', Pass setting m m') ∧ ∀ m', Pass setting m m' → m'.pending = later ∨
          (m'.pending = m.pending ∧
            (m'.outcome.failure = none → m.cursor.line < m'.cursor.line)) := by
  have carried (ahead : Nat) (enough : all.length ≤ ahead) : Reaches setting (.start all)
      ⟨block setting ahead .whole ⟨Cursor.start all, Scopes.root⟩, []⟩ := by
    have carries : CarriesOut setting [⟨0, .block .whole⟩] (block setting ahead .whole)
        ⟨Cursor.start all, Scopes.root⟩ := block_carriedOut ahead enough
    exact (carries [] []).reaches
  have ended : Reaches setting (.start all) ⟨run setting all, []⟩ := carried _ (Nat.le_refl _)
  have ends (outcome : Outcome) : ∀ m', ¬ Moves setting ⟨outcome, []⟩ m' :=
    moves_none_iff.mpr rfl
  refine ⟨⟨ended, acc_of_ends (moves_unique setting) ended (ends _), ?_⟩, ?_, ?_⟩
  · intro m reaches stuck
    exact eq_of_ends (moves_unique setting) reaches ended stuck (ends _)
  · intro ahead enough
    exact congrArg Snapshot.outcome
      (eq_of_ends (moves_unique setting) (carried ahead enough) ended (ends _) (ends _))
  · intro m reaches
    have sound := (Snapshot.Sound.start all).reaches reaches
    refine ⟨⟨sound.among, sound.among.line_le⟩, ?_, ?_⟩
    · intro fine task member
      exact (sound.ready fine).header_lt member
    · intro header extent later pending fine
      obtain ⟨m', pass, leads⟩ := exists_pass setting pending fine
      refine ⟨⟨m', pass⟩, fun m'' pass' => ?_⟩
      rwa [← pass.unique pass']

/-- A loop over two items: the tenth move leads back to the first line of its body, and from there
the last pass goes on. -/
theorem run_ends_loop :
    let all : List Line := [⟨"#foreach ($i in $n)".toList, some .loop⟩, ⟨['x'], none⟩,
      ⟨"#end".toList, some .close⟩]
    let setting : Setting := ⟨Table.provider (.ofEntries [("n", .list [.int 1, .int 2])]), .skip⟩
    ∃ m later, Reaches setting (.start all) m ∧ m.outcome.failure = none ∧
      m.pending = ⟨1, .lines .body⟩ :: ⟨1, .leave⟩ ::
        ⟨1, .passes "i" ((Cursor.start all).forward 1) []⟩ :: later ∧
      m.cursor.line = 2 ∧ (∀ task ∈ m.pending, task.header < 2) ∧
      (∃ m', Pass setting m m') ∧ (∀ m', Pass setting m m' →
        m'.pending.length < m.pending.length ∨
          (m'.outcome.failure = none → 2 < m'.cursor.line)) ∧
      block setting 7 .whole ⟨Cursor.start all, Scopes.root⟩ = run setting all := by
  intro all setting
  obtain ⟨-, bounds, between⟩ := run_ends setting all
  have trail : (Snapshot.after setting 10 (.start all)).map
      (fun m => (m.outcome.failure, m.cursor.line, m.pending.take 3)) =
      some (none, 2, [⟨1, .lines .body⟩, ⟨1, .leave⟩,
        ⟨1, .passes "i" ((Cursor.start all).forward 1) []⟩]) := rfl
  obtain ⟨m, leads, same⟩ := Option.map_eq_some_iff.mp trail
  simp only [Prod.mk.injEq] at same
  obtain ⟨fine, place, front⟩ := same
  have pending : m.pending = _ ++ m.pending.drop 3 := (List.take_append_drop 3 m.pending).symm
  rw [front] at pending
  have reaches := reaches_after leads
  obtain ⟨-, behind, passes⟩ := between m reaches
  obtain ⟨pass, advances⟩ := passes 1 .body _ pending fine
  rw [place] at behind advances
  refine ⟨m, m.pending.drop 3, reaches, fine, pending, place,
    fun task member => (behind fine task member).1, pass, fun m' pass' => ?_, bounds 7 (by decide)⟩
  rcases advances m' pass' with done | ⟨-, later⟩
  · refine .inl ?_
    rw [done, pending]
    exact Nat.lt_succ_self _
  · exact .inr later

end LineTemplate.Render
