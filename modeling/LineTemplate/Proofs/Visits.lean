import Mathlib.Data.List.Basic
import LineTemplate.Proofs.ScopeDiscipline

/-!
# The states that a render visits

A render reads lines in one state after the other: it goes on behind a line that has been handled,
and it goes into the blocks that a line opens. `Visits` follows it, through skipped parts and
through every pass of a loop, whether the render succeeds later on or not.

**The law** (`lines_congr`): two renders are the same when the look-ups agree that are made in the
visited states. So no look-up is made anywhere else.
-/

namespace LineTemplate

/-- The paths that are looked up when a line is read. -/
def Line.reads (line : Line) : List String :=
  match line.directive with
  | none => Reference.names line.text
  | some .conditional => (Header.conditionPath? line.text).toList
  | some .loop => ((Header.loop? line.text).map Header.Loop.container).toList
  | some .otherwise | some .close => []

namespace Render

/-- The paths that are looked up in a state: those of the line that is read next. -/
def State.reads (s : State) : List String :=
  s.cursor.rest.head?.elim [] Line.reads

/-- The states in which the passes of a loop begin. -/
inductive Begins (body : Step) (name : String) (start : Cursor) :
    List Value → State → State → Prop
  | first {item : Value} {items : List Value} {s : State} :
    Begins body name start (item :: items) s ⟨start, s.scopes.bind name (loopItem item)⟩
  | later {item : Value} {items : List Value} {s t : State}
    (passes : (body ⟨start, s.scopes.bind name (loopItem item)⟩).failure = none)
    (begins : Begins body name start items
      (body ⟨start, s.scopes.bind name (loopItem item)⟩).state t) :
    Begins body name start (item :: items) s t

/-- Handling the line in the state `s` renders a block of this extent, from the state `t` on. -/
inductive Opens (setting : Setting) (block : Extent → Step) (line : Line) (s : State) :
    Extent → State → Prop
  | yes {path : String} (found : line.directive = some .conditional)
    (header : Header.conditionPath? line.text = some path)
    (holds : ((s.scopes.lookup setting.provider path).map Value.isTrue).getD false = true) :
    Opens setting block line s .branch ⟨s.cursor.forward 1, s.scopes⟩
  | no {path : String} {count : Nat} (found : line.directive = some .conditional)
    (header : Header.conditionPath? line.text = some path)
    (fails : ((s.scopes.lookup setting.provider path).map Value.isTrue).getD false = false)
    (skips : seek Extent.branch.closers 0 (s.cursor.forward 1).rest = some count)
    (middle : ((s.cursor.forward 1).forward count).directive? = some .otherwise) :
    Opens setting block line s .body
      ⟨((s.cursor.forward 1).forward count).forward 1, s.scopes⟩
  | pass {header : Header.Loop} {items : List Value} {t : State}
    (found : line.directive = some .loop) (reads : Header.loop? line.text = some header)
    (iterates : (s.scopes.lookup setting.provider header.container).bind Value.items? = some items)
    (begins : Begins (block .body) header.item (s.cursor.forward 1) items
      ⟨s.cursor.forward 1, s.scopes.push⟩ t) :
    Opens setting block line s .body t

/-- A run of lines that starts in the first state reads a line in the second one. -/
inductive Visits (setting : Setting) : (ahead : Nat) → Extent → State → State → Prop
  | here {ahead : Nat} {extent : Extent} {s : State} : Visits setting (ahead + 1) extent s s
  | behind {ahead : Nat} {extent : Extent} {s m : State} {line : Line} {rest : List Line}
    (next : s.cursor.rest = line :: rest)
    (goes : ∀ directive, line.directive = some directive → directive ∉ extent.closers)
    (handled : (handle setting (block setting ahead) line s).failure = none)
    (visits : Visits setting ahead extent (handle setting (block setting ahead) line s).state m) :
    Visits setting (ahead + 1) extent s m
  | inside {ahead : Nat} {extent inner : Extent} {s t m : State} {line : Line} {rest : List Line}
    (next : s.cursor.rest = line :: rest)
    (opens : Opens setting (block setting ahead) line s inner t)
    (visits : Visits setting ahead inner ⟨t.cursor, t.scopes.push⟩ m) :
    Visits setting (ahead + 1) extent s m

/-- The states in which a render of all lines reads a line. -/
def Visited (setting : Setting) (all : List Line) (m : State) : Prop :=
  Visits setting all.length .whole ⟨Cursor.start all, Scopes.root.push⟩ m

/-! ## Renders that look up the same -/

variable {p q : Provider} {strays : Strays} {s : State}

theorem Step.andThen_congr {first first' second second' : Step} (same : first s = first' s)
    (next : (first s).failure = none → second (first s).state = second' (first s).state) :
    (first.andThen second) s = (first'.andThen second') s := by
  simp only [Step.andThen, ← same]
  cases h : (first s).failure with
  | some failure => rfl
  | none => simp only [next h]

theorem Step.inScope_congr {step step' : Step}
    (same : step ⟨s.cursor, s.scopes.push⟩ = step' ⟨s.cursor, s.scopes.push⟩) :
    Step.inScope step s = Step.inScope step' s := by
  simp only [Step.inScope, same]

theorem Step.atOtherwise_congr {step step' : Step}
    (same : s.cursor.directive? = some .otherwise → step s = step' s) :
    Step.atOtherwise step s = Step.atOtherwise step' s := by
  unfold Step.atOtherwise
  split
  next middle => exact same middle
  next => rfl

/-- A search inside the text succeeds only where it finds a directive. -/
theorem skip_succeeds {extent : Extent} (inner : extent ≠ .whole)
    (succeeds : (Step.skip extent s).failure = none) :
    ∃ count, seek extent.closers 0 s.cursor.rest = some count ∧
      (Step.skip extent s).state = ⟨s.cursor.forward count, s.scopes⟩ := by
  unfold Step.skip at succeeds ⊢
  cases found : seek extent.closers 0 s.cursor.rest with
  | some count => exact ⟨count, rfl, rfl⟩
  | none =>
    rw [found] at succeeds
    cases extent with
    | whole => exact (inner rfl).elim
    | branch => exact nomatch succeeds
    | body => exact nomatch succeeds

theorem plain_congr {text : List Char} (display : p.display = q.display)
    (agree : ∀ path ∈ Reference.names text, s.scopes.lookup p path = s.scopes.lookup q path) :
    plain ⟨p, strays⟩ text s = plain ⟨q, strays⟩ text s := by
  have formats : Reference.format p s.scopes text = Reference.format q s.scopes text := by
    apply List.foldl_ext
    intro front name member
    simp only [Reference.substitute, agree name member, display]
  have misses : Reference.unresolved p s.scopes text = Reference.unresolved q s.scopes text := by
    apply List.filter_congr
    intro name member
    rw [agree name member]
  simp only [plain, formats, misses]

theorem each_congr {block block' : Extent → Step} {name : String} {start : Cursor}
    {items : List Value}
    (same : ∀ t, Begins (block .body) name start items s t → block .body t = block' .body t) :
    each block name start items s = each block' name start items s := by
  induction items generalizing s with
  | nil => rfl
  | cons item items ih =>
    refine Step.andThen_congr rfl fun _ => Step.andThen_congr rfl fun _ => ?_
    apply Step.andThen_congr (same _ .first)
    intro passes
    apply ih
    intro t begins
    exact same t (.later passes begins)

section Handle

variable {block block' : Extent → Step} {line : Line}
  (agree : ∀ path ∈ line.reads, s.scopes.lookup p path = s.scopes.lookup q path)
  (same : ∀ extent t, Opens ⟨p, strays⟩ block line s extent t → block extent t = block' extent t)

include agree same

theorem conditional_congr (found : line.directive = some .conditional) :
    conditional ⟨p, strays⟩ block line.text s = conditional ⟨q, strays⟩ block' line.text s := by
  unfold conditional
  cases header : Header.conditionPath? line.text with
  | none => rfl
  | some path =>
    have member : path ∈ line.reads := by simp [Line.reads, found, header]
    simp only [← agree path member]
    refine Step.andThen_congr rfl fun _ => Step.andThen_congr rfl fun _ => ?_
    refine Step.andThen_congr ?_ fun _ => rfl
    cases holds : ((s.scopes.lookup p path).map Value.isTrue).getD false with
    | true =>
      rw [if_pos rfl, if_pos rfl]
      exact Step.andThen_congr (same _ _ (.yes found header holds)) fun _ => rfl
    | false =>
      rw [if_neg Bool.false_ne_true, if_neg Bool.false_ne_true]
      apply Step.andThen_congr rfl
      intro succeeds
      obtain ⟨count, skips, stops⟩ := skip_succeeds branch_ne_whole succeeds
      rw [stops]
      apply Step.atOtherwise_congr
      intro middle
      exact Step.andThen_congr rfl fun _ => same _ _ (.no found header holds skips middle)

theorem loop_congr (found : line.directive = some .loop) :
    loop ⟨p, strays⟩ block line.text s = loop ⟨q, strays⟩ block' line.text s := by
  unfold loop
  cases reads : Header.loop? line.text with
  | none => rfl
  | some header =>
    have member : header.container ∈ line.reads := by simp [Line.reads, found, reads]
    simp only [← agree header.container member]
    cases iterates : (s.scopes.lookup p header.container).bind Value.items? with
    | none => rfl
    | some items =>
      refine Step.andThen_congr rfl fun _ => Step.andThen_congr rfl fun _ => ?_
      refine Step.andThen_congr ?_ fun _ => rfl
      cases items with
      | nil => rfl
      | cons item items =>
        rw [List.isEmpty_cons, if_neg Bool.false_ne_true, if_neg Bool.false_ne_true]
        apply Step.inScope_congr
        apply each_congr
        intro t begins
        exact same _ t (.pass found reads iterates begins)

theorem handle_congr (display : p.display = q.display) :
    handle ⟨p, strays⟩ block line s = handle ⟨q, strays⟩ block' line s := by
  obtain ⟨text, directive⟩ := line
  cases directive with
  | none => exact plain_congr display agree
  | some directive =>
    cases directive with
    | conditional => exact conditional_congr agree same rfl
    | otherwise => rfl
    | loop => exact loop_congr agree same rfl
    | close => rfl

end Handle

/-- **A render depends on the look-ups in the states it visits**, and on nothing else that its
provider knows but how values are shown. -/
theorem lines_congr (display : p.display = q.display) {ahead : Nat} {extent : Extent}
    (agree : ∀ m, Visits ⟨p, strays⟩ ahead extent s m →
      ∀ path ∈ m.reads, m.scopes.lookup p path = m.scopes.lookup q path) :
    lines ⟨p, strays⟩ ahead extent s = lines ⟨q, strays⟩ ahead extent s := by
  induction ahead generalizing extent s with
  | zero => rfl
  | succ ahead ih =>
    rcases lines_cases ahead extent s with
      ⟨_, ends⟩ | ⟨_, _, _, _, _, _, stops⟩ | ⟨line, rest, next, goes, handles⟩
    · rw [ends, ends]
    · rw [stops, stops]
    · rw [handles, handles]
      have reads : s.reads = line.reads := by rw [State.reads, next]; rfl
      have blocks (inner : Extent) (t : State)
          (opens : Opens ⟨p, strays⟩ (block ⟨p, strays⟩ ahead) line s inner t) :
          block ⟨p, strays⟩ ahead inner t = block ⟨q, strays⟩ ahead inner t := by
        apply Step.inScope_congr
        apply ih
        intro m visits
        exact agree m (.inside next opens visits)
      have first := handle_congr (reads ▸ agree s .here) blocks display
      apply Step.andThen_congr first
      intro handled
      apply ih
      intro m visits
      exact agree m (.behind next goes handled visits)

theorem run_congr (display : p.display = q.display) {all : List Line}
    (agree : ∀ m, Visited ⟨p, strays⟩ all m →
      ∀ path ∈ m.reads, m.scopes.lookup p path = m.scopes.lookup q path) :
    run ⟨p, strays⟩ all = run ⟨q, strays⟩ all :=
  Step.inScope_congr (lines_congr display agree)

end Render

end LineTemplate
