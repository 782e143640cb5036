import Mathlib.Data.List.DropRight
import LineTemplate.Text.Blank
import LineTemplate.Text.Cut

/-!
# Texts that are trimmed, cut and split

A character that is not blank stops the trimming from both sides (`Text.trim_around`). So a text can
be cut at such a character before it is trimmed or after (`Text.afterFirst_trim`).

A cut is told by its place: the first `c` has no `c` in front of it, and the last one none behind.
Words are told by the text around a blank (`Text.words_append_blank`).
-/

namespace LineTemplate.Text

variable {c : Char} {cs front back : List Char}

/-! ## Trimming -/

theorem trimLeft_blanks (blank : ∀ d ∈ front, isBlank d = true) (cs : List Char) :
    trimLeft (front ++ cs) = trimLeft cs :=
  List.dropWhile_append_of_pos blank

theorem trimRight_blanks (blank : ∀ d ∈ back, isBlank d = true) (cs : List Char) :
    trimRight (cs ++ back) = trimRight cs := by
  have blank' (d : Char) (member : d ∈ back.reverse) : isBlank d = true :=
    blank d (List.mem_reverse.mp member)
  rw [trimRight, List.reverse_append, List.dropWhile_append_of_pos blank', trimRight]

/-- Trimming from the left stops at a character that is not blank. -/
theorem trimLeft_stops (stays : isBlank c = false) (front back : List Char) :
    trimLeft (front ++ c :: back) = trimLeft front ++ c :: back := by
  have stops : (c :: back).dropWhile isBlank = c :: back :=
    List.dropWhile_cons_of_neg (Bool.eq_false_iff.mp stays)
  unfold trimLeft
  rw [List.dropWhile_append, stops]
  split
  next gone => rw [List.isEmpty_iff.mp gone, List.nil_append]
  next => rfl

/-- Trimming from the right stops at a character that is not blank. -/
theorem trimRight_stops (stays : isBlank c = false) (front back : List Char) :
    trimRight (front ++ c :: back) = front ++ c :: trimRight back := by
  have turned : (front ++ c :: back).reverse = back.reverse ++ c :: front.reverse := by
    rw [List.reverse_append, List.reverse_cons, List.append_assoc, List.singleton_append]
  have stops := trimLeft_stops stays back.reverse front.reverse
  unfold trimLeft at stops
  rw [trimRight, turned, stops, List.reverse_append, List.reverse_cons, List.reverse_reverse,
    List.append_assoc, List.singleton_append, trimRight]

/-- **A character that is not blank stops the trimming** from both sides. -/
theorem trim_around (stays : isBlank c = false) (front back : List Char) :
    trim (front ++ c :: back) = trimLeft front ++ c :: trimRight back := by
  rw [trim, trimLeft_stops stays, trimRight_stops stays]

theorem solid_of_any (none : cs.any isBlank = false) : ∀ c ∈ cs, isBlank c = false :=
  fun c member => Bool.eq_false_iff.mpr (List.any_eq_false.mp none c member)

/-- In front of a word only blanks are trimmed, and behind it the trimming goes on. -/
theorem trim_word (blank : ∀ d ∈ front, isBlank d = true) {word : List Char} (nonempty : word ≠ [])
    (solid : ∀ d ∈ word, isBlank d = false) (back : List Char) :
    trim (front ++ (word ++ back)) = word ++ trimRight back := by
  rcases List.eq_nil_or_concat word with rfl | ⟨init, last, rfl⟩
  · exact (nonempty rfl).elim
  · have begins : trimLeft init = init := by
      cases init with
      | nil => rfl
      | cons first init =>
        exact List.dropWhile_cons_of_neg (Bool.eq_false_iff.mp (solid first (by simp)))
    have stays : isBlank last = false := solid last (by simp)
    have parts : front ++ (init.concat last ++ back) = front ++ init ++ last :: back := by
      simp only [List.concat_eq_append, List.append_assoc, List.singleton_append]
    rw [parts, trim_around stays, trimLeft_blanks blank, begins]
    simp only [List.concat_eq_append, List.append_assoc, List.singleton_append]

/-- A text of blanks is trimmed to nothing. -/
theorem trim_of_blank (blank : ∀ d ∈ cs, isBlank d = true) : trim cs = [] := by
  have gone := trimLeft_blanks blank []
  rw [List.append_nil] at gone
  rw [trim, gone]
  rfl

/-- A text is blank, or it has a first character that is not. -/
theorem blank_or_stops (cs : List Char) : (∀ d ∈ cs, isBlank d = true) ∨
    ∃ front c back, isBlank c = false ∧ cs = front ++ c :: back := by
  by_cases blank : ∀ d ∈ cs, isBlank d = true
  · exact .inl blank
  · obtain ⟨c, member, stays⟩ : ∃ c ∈ cs, ¬ isBlank c = true := by
      simpa only [not_forall, exists_prop] using blank
    obtain ⟨front, back, spelled⟩ := List.append_of_mem member
    exact .inr ⟨front, c, back, Bool.eq_false_iff.mpr stays, spelled⟩

theorem trim_trim (cs : List Char) : trim (trim cs) = trim cs := by
  rcases blank_or_stops cs with blank | ⟨front, c, back, stays, rfl⟩
  · rw [trim_of_blank blank]
    rfl
  · have left : trimLeft (trimLeft front) = trimLeft front :=
      List.dropWhile_idempotent isBlank front
    have right : trimRight (trimRight back) = trimRight back :=
      List.rdropWhile_idempotent isBlank back
    rw [trim_around stays, trim_around stays, left, right]

/-- A trimmed text does not end in a blank. -/
theorem isBlank_of_mem_getLast?_trim (ends : c ∈ (trim cs).getLast?) : isBlank c = false := by
  obtain ⟨nonempty, rfl⟩ := List.mem_getLast?_eq_getLast ends
  exact Bool.eq_false_iff.mpr (List.rdropWhile_last_not isBlank _ nonempty)

/-- A text that does not end in a blank stays as it is on the right. -/
theorem trimRight_eq_self (ends : ∀ d ∈ cs.getLast?, isBlank d = false) : trimRight cs = cs := by
  refine List.rdropWhile_eq_self_iff.mpr fun nonempty => ?_
  exact Bool.eq_false_iff.mp (ends _ (List.getLast?_eq_some_getLast nonempty))

/-! ## Cutting -/

theorem afterFirst_append (absent : c ∉ front) (back : List Char) :
    afterFirst c (front ++ c :: back) = some back := by
  induction front with
  | nil => exact if_pos rfl
  | cons d front ih =>
    rw [List.mem_cons, not_or] at absent
    rw [List.cons_append, afterFirst, if_neg (Ne.symm absent.1), ih absent.2]

theorem afterFirst_of_not_mem (absent : c ∉ cs) : afterFirst c cs = none := by
  induction cs with
  | nil => rfl
  | cons d cs ih =>
    rw [List.mem_cons, not_or] at absent
    rw [afterFirst, if_neg (Ne.symm absent.1), ih absent.2]

theorem beforeFirst_append (absent : c ∉ front) (back : List Char) :
    beforeFirst c (front ++ c :: back) = some front := by
  induction front with
  | nil => exact if_pos rfl
  | cons d front ih =>
    rw [List.mem_cons, not_or] at absent
    rw [List.cons_append, beforeFirst, if_neg (Ne.symm absent.1), ih absent.2, Option.map_some]

theorem beforeFirst_of_not_mem (absent : c ∉ cs) : beforeFirst c cs = none := by
  induction cs with
  | nil => rfl
  | cons d cs ih =>
    rw [List.mem_cons, not_or] at absent
    rw [beforeFirst, if_neg (Ne.symm absent.1), ih absent.2, Option.map_none]

theorem beforeLast_of_not_mem (absent : c ∉ cs) : beforeLast c cs = none := by
  induction cs with
  | nil => rfl
  | cons d cs ih =>
    rw [List.mem_cons, not_or] at absent
    rw [beforeLast, ih absent.2]
    exact if_neg (Ne.symm absent.1)

theorem beforeLast_append (absent : c ∉ back) (front : List Char) :
    beforeLast c (front ++ c :: back) = some front := by
  induction front with
  | nil =>
    rw [List.nil_append, beforeLast, beforeLast_of_not_mem absent]
    exact if_pos rfl
  | cons d front ih => rw [List.cons_append, beforeLast, ih]

/-- A character that occurs has a last occurrence. -/
theorem exists_last_of_mem (member : c ∈ cs) :
    ∃ front back, cs = front ++ c :: back ∧ c ∉ back := by
  obtain ⟨back, front, turned, absent⟩ := List.eq_append_cons_of_mem (List.mem_reverse.mpr member)
  refine ⟨front.reverse, back.reverse, ?_, fun inside => absent (List.mem_reverse.mp inside)⟩
  rw [← List.reverse_reverse cs, turned, List.reverse_append, List.reverse_cons, List.append_assoc,
    List.singleton_append]

/-- What stands in front of the first `c` has no `c`. -/
theorem not_mem_of_beforeFirst (found : beforeFirst c cs = some front) : c ∉ front := by
  by_cases member : c ∈ cs
  · obtain ⟨first, back, rfl, absent⟩ := List.eq_append_cons_of_mem member
    rw [beforeFirst_append absent] at found
    rwa [← Option.some.inj found]
  · rw [beforeFirst_of_not_mem member] at found
    exact nomatch found

/-- A text without a `c` in front is the end of the text. -/
theorem withoutFirst_suffix (c : Char) (cs : List Char) : withoutFirst c cs <:+ cs := by
  cases cs with
  | nil => exact List.suffix_refl _
  | cons d cs =>
    rw [withoutFirst]
    split
    · exact List.suffix_cons d cs
    · exact List.suffix_refl _

/-! ## Cutting trimmed texts -/

theorem not_mem_trimLeft (absent : c ∉ cs) : c ∉ trimLeft cs :=
  fun member => absent ((List.dropWhile_suffix isBlank).mem member)

theorem not_mem_trimRight (absent : c ∉ cs) : c ∉ trimRight cs :=
  fun member => absent ((List.rdropWhile_prefix isBlank cs).mem member)

/-- **A trimmed text is cut where the text is**, at a character that is not blank. -/
theorem afterFirst_trim (stays : isBlank c = false) (cs : List Char) :
    afterFirst c (trim cs) = (afterFirst c cs).map trimRight := by
  by_cases member : c ∈ cs
  · obtain ⟨front, back, rfl, absent⟩ := List.eq_append_cons_of_mem member
    rw [trim_around stays, afterFirst_append (not_mem_trimLeft absent), afterFirst_append absent,
      Option.map_some]
  · have absent : c ∉ trim cs := not_mem_trimRight (not_mem_trimLeft member)
    rw [afterFirst_of_not_mem absent, afterFirst_of_not_mem member, Option.map_none]

theorem beforeFirst_trimRight (stays : isBlank c = false) (cs : List Char) :
    beforeFirst c (trimRight cs) = beforeFirst c cs := by
  by_cases member : c ∈ cs
  · obtain ⟨front, back, rfl, absent⟩ := List.eq_append_cons_of_mem member
    rw [trimRight_stops stays, beforeFirst_append absent, beforeFirst_append absent]
  · rw [beforeFirst_of_not_mem member, beforeFirst_of_not_mem (not_mem_trimRight member)]

theorem beforeLast_trimRight (stays : isBlank c = false) (cs : List Char) :
    beforeLast c (trimRight cs) = beforeLast c cs := by
  by_cases member : c ∈ cs
  · obtain ⟨front, back, rfl, absent⟩ := exists_last_of_mem member
    rw [trimRight_stops stays, beforeLast_append (not_mem_trimRight absent),
      beforeLast_append absent]
  · rw [beforeLast_of_not_mem member, beforeLast_of_not_mem (not_mem_trimRight member)]

/-! ## Words -/

/-- **A piece of a split text** has characters of the text, and none that the text is split at. -/
theorem of_mem_splitOnP {p : Char → Bool} {piece : List Char} (member : piece ∈ cs.splitOnP p)
    (inside : c ∈ piece) : c ∈ cs ∧ p c = false := by
  induction cs generalizing piece with
  | nil =>
    rw [List.splitOnP_nil, List.mem_singleton] at member
    rw [member] at inside
    exact (List.not_mem_nil inside).elim
  | cons d ds ih =>
    have later {piece : List Char} (member : piece ∈ ds.splitOnP p) (inside : c ∈ piece) :
        c ∈ d :: ds ∧ p c = false :=
      (ih member inside).imp_left (List.mem_cons_of_mem d)
    rw [List.splitOnP_cons_eq_if_modifyHead] at member
    split at member
    next splits =>
      rcases List.mem_cons.mp member with rfl | member
      · exact (List.not_mem_nil inside).elim
      · exact later member inside
    next stays =>
      cases pieces : ds.splitOnP p with
      | nil => exact absurd pieces (List.splitOnP_ne_nil p ds)
      | cons first others =>
        rw [pieces] at member later
        rcases List.mem_cons.mp member with rfl | member
        · rcases List.mem_cons.mp inside with rfl | inside
          · exact ⟨List.mem_cons_self, Bool.eq_false_iff.mpr stays⟩
          · exact later List.mem_cons_self inside
        · exact later (List.mem_cons_of_mem first member) inside

theorem of_mem_words {word : List Char} (member : word ∈ words cs) (inside : c ∈ word) :
    c ∈ cs ∧ isBlank c = false :=
  of_mem_splitOnP (List.mem_filter.mp member).1 inside

/-- **Words end at a blank.** -/
theorem words_append_blank (blank : isBlank c = true) (front back : List Char) :
    words (front ++ c :: back) = words front ++ words back := by
  rw [words, List.splitOnP_append_cons front back blank, List.filter_append, words, words]

/-- Blanks in front belong to no word. -/
theorem words_blanks (blank : ∀ d ∈ front, isBlank d = true) (cs : List Char) :
    words (front ++ cs) = words cs := by
  induction front with
  | nil => rfl
  | cons d front ih =>
    rw [List.forall_mem_cons] at blank
    exact (words_append_blank blank.1 [] _).trans (ih blank.2)

/-- A text without blanks is the first word, if a blank stands behind it or nothing. -/
theorem words_word {word : List Char} (nonempty : word ≠ [])
    (solid : ∀ d ∈ word, isBlank d = false) (ends : ∀ d ∈ back.head?, isBlank d = true) :
    words (word ++ back) = word :: words back := by
  have alone : words word = [word] := by
    rw [words, List.splitOnP_eq_singleton solid]
    exact List.filter_cons_of_pos (by simpa using nonempty)
  cases back with
  | nil => rw [List.append_nil, alone]; rfl
  | cons d back =>
    have blank : isBlank d = true := ends d rfl
    have behind : words (d :: back) = words back := words_append_blank blank [] back
    rw [words_append_blank blank, alone, behind, List.singleton_append]

end LineTemplate.Text
