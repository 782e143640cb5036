import LineTemplate.Directive
import LineTemplate.Proofs.Cuts

/-!
# Headers that are written and read

A header can be laid out in many ways: blanks stand around its tokens, and what follows the closing
parenthesis does not matter. `ConditionLayout` and `LoopLayout` say which, and a layout writes a
header around its path, or around its names.

**The law** (`Header.written_read`): a written header is read back, whatever its layout is, and a
header that has been read can be written again. A condition is read up to the last closing
parenthesis, so a path may hold parentheses and blanks. A loop is read up to the first one and in
words, so its names may not.
-/

namespace LineTemplate

/-- Any number of blanks. -/
structure Blanks where
  text : List Char
  blank : ∀ c ∈ text, Text.isBlank c = true

namespace Blanks

def empty : Blanks := ⟨[], nofun⟩

def space : Blanks := ⟨[' '], List.all_eq_true.mp (by decide)⟩

/-- A character that is not blank does not stand among blanks. -/
theorem not_mem (blanks : Blanks) {c : Char} (stays : Text.isBlank c = false) :
    c ∉ blanks.text := by
  intro member
  rw [blanks.blank c member] at stays
  exact nomatch stays

/-- Blanks that are not empty come first. -/
theorem head?_append {blanks : Blanks} (nonempty : blanks.text ≠ []) (rest : List Char) :
    ∀ c ∈ (blanks.text ++ rest).head?, Text.isBlank c = true := by
  intro c first
  rw [List.head?_append_of_ne_nil _ nonempty] at first
  exact blanks.blank c (List.mem_of_mem_head? first)

end Blanks

namespace Header

open Text

/-- How the header of a condition is laid out around its path. -/
structure ConditionLayout where
  indent : Blanks
  beforeOpen : Blanks
  afterOpen : Blanks
  beforeClose : Blanks
  /-- What follows the header on its line. -/
  tail : List Char
  tail_open : ')' ∉ tail

/-- How the header of a loop is laid out around its names. -/
structure LoopLayout where
  indent : Blanks
  beforeOpen : Blanks
  afterOpen : Blanks
  beforeIn : Blanks
  beforeIn_nonempty : beforeIn.text ≠ []
  afterIn : Blanks
  afterIn_nonempty : afterIn.text ≠ []
  /-- Words behind the container. -/
  further : List Char
  further_apart : ∀ c ∈ further.head?, isBlank c = true
  further_open : ')' ∉ further
  beforeClose : Blanks
  /-- What follows the header on its line. -/
  tail : List Char

namespace ConditionLayout

/-- What stands between the parentheses. -/
def inner (layout : ConditionLayout) (path : List Char) : List Char :=
  layout.afterOpen.text ++ '$' :: (path ++ layout.beforeClose.text)

/-- The header of a condition on a path. -/
def write (layout : ConditionLayout) (path : List Char) : List Char :=
  layout.indent.text ++ (Directive.conditional.keyword.toList ++
    (layout.beforeOpen.text ++ '(' :: (layout.inner path ++ ')' :: layout.tail)))

/-- The layout `#if ($path)`. -/
def plain : ConditionLayout where
  indent := .empty
  beforeOpen := .space
  afterOpen := .empty
  beforeClose := .empty
  tail := []
  tail_open := List.not_mem_nil

theorem toList_plain (path : String) :
    ("#if ($" ++ path ++ ")").toList = plain.write path.toList := by
  simp [write, inner, plain, Blanks.empty, Blanks.space, Directive.keyword]

end ConditionLayout

namespace LoopLayout

/-- What stands between the parentheses. -/
def inner (layout : LoopLayout) (item container : List Char) : List Char :=
  layout.afterOpen.text ++ ('$' :: item ++ (layout.beforeIn.text ++ (['i', 'n'] ++
    (layout.afterIn.text ++ ('$' :: container ++ (layout.further ++ layout.beforeClose.text))))))

/-- The header of a loop over the items of a container. -/
def write (layout : LoopLayout) (item container : List Char) : List Char :=
  layout.indent.text ++ (Directive.loop.keyword.toList ++
    (layout.beforeOpen.text ++ '(' :: (layout.inner item container ++ ')' :: layout.tail)))

/-- The layout `#foreach ($item in $container)`. -/
def plain : LoopLayout where
  indent := .empty
  beforeOpen := .space
  afterOpen := .empty
  beforeIn := .space
  beforeIn_nonempty := List.cons_ne_nil _ _
  afterIn := .space
  afterIn_nonempty := List.cons_ne_nil _ _
  further := []
  further_apart := nofun
  further_open := List.not_mem_nil
  beforeClose := .empty
  tail := []

theorem toList_plain (item container : String) :
    ("#foreach ($" ++ item ++ " in $" ++ container ++ ")").toList =
      plain.write item.toList container.toList := by
  simp [write, inner, plain, Blanks.empty, Blanks.space, Directive.keyword]

end LoopLayout

/-! ## The keyword -/

/-- **A line is classified by its keyword**, whatever stands around it. -/
theorem ofText?_keyword (directive : Directive) (indent : Blanks) (rest : List Char) :
    Directive.ofText? (indent.text ++ (directive.keyword.toList ++ rest)) = some directive := by
  have nonempty : directive.keyword.toList ≠ [] := by cases directive <;> decide
  have solid : ∀ c ∈ directive.keyword.toList, isBlank c = false :=
    solid_of_any (by cases directive <;> decide)
  rw [Directive.ofText?, trim_word indent.blank nonempty solid]
  cases directive <;> rfl

/-- The first parenthesis of a header stands behind its keyword. -/
theorem afterFirst_header (directive : Directive) (indent beforeOpen : Blanks) (rest : List Char) :
    afterFirst '(' (indent.text ++ (directive.keyword.toList ++ (beforeOpen.text ++ '(' :: rest))) =
      some rest := by
  have absent : '(' ∉ indent.text ++ (directive.keyword.toList ++ beforeOpen.text) := by
    simp only [List.mem_append, not_or]
    refine ⟨indent.not_mem (by decide), ?_, beforeOpen.not_mem (by decide)⟩
    cases directive <;> decide
  have parts : indent.text ++ (directive.keyword.toList ++ (beforeOpen.text ++ '(' :: rest)) =
      indent.text ++ (directive.keyword.toList ++ beforeOpen.text) ++ '(' :: rest := by
    simp only [List.append_assoc]
  rw [parts, afterFirst_append absent]

/-! ## Conditions -/

/-- **The path of a written condition is read back**, if it does not end in a blank. -/
theorem conditionPath?_write (layout : ConditionLayout) {path : List Char}
    (ends : ∀ c ∈ path.getLast?, isBlank c = false) :
    conditionPath? (layout.write path) = some (String.ofList path) := by
  have trimmed : trim (layout.inner path) = '$' :: path := by
    have stays : isBlank '$' = false := by decide
    rw [ConditionLayout.inner, trim, trimLeft_blanks layout.afterOpen.blank, ← trim]
    have around := trim_around stays [] (path ++ layout.beforeClose.text)
    rw [trimRight_blanks layout.beforeClose.blank, trimRight_eq_self ends] at around
    exact around
  rw [conditionPath?, ConditionLayout.write, afterFirst_header]
  simp only [Option.bind_eq_bind, Option.bind_some, beforeLast_append layout.tail_open, trimmed,
    withoutFirst, if_true, Option.pure_def]

/-- The path of a condition does not end in a blank. -/
theorem conditionPath?_ends {text : List Char} {path : String}
    (reads : conditionPath? text = some path) :
    ∀ c ∈ path.toList.getLast?, isBlank c = false := by
  unfold conditionPath? at reads
  obtain ⟨behind, -, reads⟩ := Option.bind_eq_some_iff.mp reads
  obtain ⟨inner, -, reads⟩ := Option.bind_eq_some_iff.mp reads
  obtain rfl := Option.some.inj reads
  rw [String.toList_ofList]
  intro c ends
  obtain ⟨front, spelled⟩ := withoutFirst_suffix '$' (trim inner)
  have last : c ∈ (trim inner).getLast? := by
    rw [← spelled, List.getLast?_append, ends, Option.some_or]
    rfl
  exact isBlank_of_mem_getLast?_trim last

/-! ## Loops -/

/-- A text without blanks, with a dollar sign in front, is a word. -/
theorem words_dollar {name back : List Char} (solid : ∀ c ∈ name, isBlank c = false)
    (ends : ∀ c ∈ back.head?, isBlank c = true) :
    words ('$' :: name ++ back) = ('$' :: name) :: words back := by
  have solid' : ∀ c ∈ '$' :: name, isBlank c = false :=
    List.forall_mem_cons.mpr ⟨by decide, solid⟩
  exact words_word (List.cons_ne_nil _ _) solid' ends

/-- The words of a written loop are its names, with `in` between them and further words behind. -/
theorem words_inner (layout : LoopLayout) {item container : List Char}
    (solid : ∀ c ∈ item, isBlank c = false) (solid' : ∀ c ∈ container, isBlank c = false) :
    words (layout.inner item container) =
      ('$' :: item) :: ['i', 'n'] :: ('$' :: container) ::
        words (layout.further ++ layout.beforeClose.text) := by
  have apart : ∀ c ∈ (layout.further ++ layout.beforeClose.text).head?, isBlank c = true := by
    intro c first
    rw [List.head?_append] at first
    rcases Option.or_eq_some_iff.mp first with further | ⟨-, close⟩
    · exact layout.further_apart c further
    · exact layout.beforeClose.blank c (List.mem_of_mem_head? close)
  have solidIn : ∀ c ∈ ['i', 'n'], isBlank c = false := solid_of_any (by decide)
  rw [LoopLayout.inner, words_blanks layout.afterOpen.blank,
    words_dollar solid (Blanks.head?_append layout.beforeIn_nonempty _),
    words_blanks layout.beforeIn.blank,
    words_word (List.cons_ne_nil _ _) solidIn (Blanks.head?_append layout.afterIn_nonempty _),
    words_blanks layout.afterIn.blank, words_dollar solid' apart]

/-- **The names of a written loop are read back**, if they have no blank and no parenthesis that
closes. -/
theorem loop?_write (layout : LoopLayout) {item container : List Char}
    (solid : ∀ c ∈ item, isBlank c = false ∧ c ≠ ')')
    (solid' : ∀ c ∈ container, isBlank c = false ∧ c ≠ ')') :
    loop? (layout.write item container) =
      some ⟨String.ofList item, String.ofList container⟩ := by
  have absent : ')' ∉ layout.inner item container := by
    have stays : isBlank ')' = false := by decide
    simp only [LoopLayout.inner, List.mem_append, List.mem_cons, List.not_mem_nil, not_or, or_false]
    exact ⟨layout.afterOpen.not_mem stays, ⟨by decide, fun member => (solid _ member).2 rfl⟩,
      layout.beforeIn.not_mem stays, by decide, layout.afterIn.not_mem stays,
      ⟨by decide, fun member => (solid' _ member).2 rfl⟩, layout.further_open,
      layout.beforeClose.not_mem stays⟩
  have found := words_inner layout (fun c member => (solid c member).1)
    fun c member => (solid' c member).1
  rw [loop?, LoopLayout.write, afterFirst_header]
  simp only [Option.bind_eq_bind, Option.bind_some, beforeFirst_append absent, found, withoutFirst,
    if_true]

/-- The names of a loop have no blank and no parenthesis that closes. -/
theorem loop?_solid {text : List Char} {header : Loop} (reads : loop? text = some header) :
    (∀ c ∈ header.item.toList, isBlank c = false ∧ c ≠ ')') ∧
      ∀ c ∈ header.container.toList, isBlank c = false ∧ c ≠ ')' := by
  unfold loop? at reads
  obtain ⟨behind, -, reads⟩ := Option.bind_eq_some_iff.mp reads
  obtain ⟨inner, cut, reads⟩ := Option.bind_eq_some_iff.mp reads
  have solid {word : List Char} (member : word ∈ words inner) :
      ∀ c ∈ (String.ofList (withoutFirst '$' word)).toList, isBlank c = false ∧ c ≠ ')' := by
    intro c inside
    rw [String.toList_ofList] at inside
    obtain ⟨among, stays⟩ := of_mem_words member ((withoutFirst_suffix '$' word).mem inside)
    refine ⟨stays, ?_⟩
    rintro rfl
    exact not_mem_of_beforeFirst cut among
  split at reads
  next item container further found =>
    obtain rfl := Option.some.inj reads
    exact ⟨solid (by simp [found]), solid (by simp [found])⟩
  next => exact nomatch reads

/-! ## The law -/

/-- **Reading a header undoes writing it**, under any layout. A condition is read back with its
path, which may hold anything but a blank at its end; a loop with its names, which hold no blank and
no closing parenthesis. What has been read can be written in the plain layout, and is read again. -/
theorem written_read :
    (∀ (layout : ConditionLayout) (path : List Char),
      (∀ c ∈ path.getLast?, isBlank c = false) →
      Directive.ofText? (layout.write path) = some .conditional ∧
        conditionPath? (layout.write path) = some (String.ofList path)) ∧
    (∀ (layout : LoopLayout) (item container : List Char),
      (∀ c ∈ item, isBlank c = false ∧ c ≠ ')') →
      (∀ c ∈ container, isBlank c = false ∧ c ≠ ')') →
      Directive.ofText? (layout.write item container) = some .loop ∧
        loop? (layout.write item container) =
          some ⟨String.ofList item, String.ofList container⟩) ∧
    (∀ text path, conditionPath? text = some path →
      conditionPath? ("#if ($" ++ path ++ ")").toList = some path) ∧
    ∀ text header, loop? text = some header →
      loop? ("#foreach ($" ++ header.item ++ " in $" ++ header.container ++ ")").toList =
        some header := by
  refine ⟨?_, ?_, ?_, ?_⟩
  · intro layout path ends
    exact ⟨ofText?_keyword .conditional _ _, conditionPath?_write layout ends⟩
  · intro layout item container solid solid'
    exact ⟨ofText?_keyword .loop _ _, loop?_write layout solid solid'⟩
  · intro text path reads
    rw [ConditionLayout.toList_plain, conditionPath?_write _ (conditionPath?_ends reads),
      String.ofList_toList]
  · intro text header reads
    obtain ⟨solid, solid'⟩ := loop?_solid reads
    rw [LoopLayout.toList_plain, loop?_write _ solid solid', String.ofList_toList,
      String.ofList_toList]

/-- A path with blanks, parentheses and a dollar sign of its own, among blanks of several kinds, and
a loop with words and parentheses behind its container. A path that begins with a blank keeps it. -/
theorem written_read_spaced :
    let condition : ConditionLayout :=
      { indent := ⟨['\t', '\u00a0'], List.all_eq_true.mp (by decide)⟩, beforeOpen := .empty,
        afterOpen := ⟨['\u2003'], List.all_eq_true.mp (by decide)⟩, beforeClose := .space,
        tail := " (b".toList, tail_open := by decide }
    let loop : LoopLayout :=
      { LoopLayout.plain with
        further := " by (x".toList, further_apart := fun _ first => Option.some.inj first ▸ rfl,
        further_open := by decide,
        tail := ") )".toList }
    condition.write "$f(x) y".toList = "\t\u00a0#if(\u2003$$f(x) y ) (b".toList ∧
    Directive.ofText? (condition.write "$f(x) y".toList) = some .conditional ∧
    conditionPath? (condition.write "$f(x) y".toList) = some "$f(x) y" ∧
    loop.write "i(".toList [] = "#foreach ($i( in $ by (x)) )".toList ∧
    Directive.ofText? (loop.write "i(".toList []) = some .loop ∧
    loop? (loop.write "i(".toList []) = some ⟨"i(", ""⟩ ∧
    conditionPath? "#if ( $ a )".toList = some " a" ∧
    conditionPath? ("#if ($" ++ " a" ++ ")").toList = some " a" ∧
    loop? "#foreach(i in $$n of)".toList = some ⟨"i", "$n"⟩ ∧
    loop? ("#foreach ($" ++ "i" ++ " in $" ++ "$n" ++ ")").toList = some ⟨"i", "$n"⟩ := by
  intro condition loop
  obtain ⟨conditions, loops, condition', loop'⟩ := written_read
  have path := conditions condition "$f(x) y".toList (by simp [isBlank, blankRanges])
  have names := loops loop "i(".toList [] (by simp [isBlank, blankRanges]) nofun
  have nothing : String.ofList [] = "" := rfl
  rw [String.ofList_toList] at path names
  rw [nothing] at names
  have read : conditionPath? "#if ( $ a )".toList = some " a" := by decide +kernel
  have read' : loop? "#foreach(i in $$n of)".toList = some ⟨"i", "$n"⟩ := by decide +kernel
  have again := loop' _ _ read'
  dsimp only at again
  exact ⟨by decide +kernel, path.1, path.2, by decide +kernel, names.1, names.2, read,
    condition' _ _ read, read', again⟩

end Header

end LineTemplate
