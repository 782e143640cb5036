import Mathlib.Data.List.Infix
import LineTemplate.Text.Replace

/-!
# What a replacement changes

A text in which the mark does not occur stays as it is (`replaceAll_of_not_infix`); a replacement by
another text shows (`replaceAll_ne_self`). A replacement works on two parts of a text alone when no
occurrence of the mark crosses the seam (`replaceAll_append`).
-/

namespace LineTemplate.Text

variable {mark text : List Char}

theorem replaceFrom_skip (front back : List Char) :
    replaceFrom mark text front.length (front ++ back) = replaceFrom mark text 0 back := by
  induction front with
  | nil => rfl
  | cons c front ih => exact ih

/-- An occurrence at the front is replaced. -/
theorem replaceAll_mark (some : mark ≠ []) (back : List Char) :
    replaceAll mark text (mark ++ back) = text ++ replaceAll mark text back := by
  unfold replaceAll
  cases mark with
  | nil => exact (some rfl).elim
  | cons c mark =>
    have found : (c :: mark).isPrefixOf (c :: (mark ++ back)) = true :=
      List.isPrefixOf_iff_prefix.mpr (List.prefix_append (c :: mark) back)
    rw [List.cons_append, replaceFrom, if_pos found]
    exact congrArg (text ++ ·) (replaceFrom_skip mark back)

/-- What is not at the front of an occurrence stays. -/
theorem replaceAll_cons {c : Char} {cs : List Char} (missing : ¬ mark <+: c :: cs) :
    replaceAll mark text (c :: cs) = c :: replaceAll mark text cs := by
  have notFound : ¬ mark.isPrefixOf (c :: cs) = true := by
    intro found
    exact missing (List.isPrefixOf_iff_prefix.mp found)
  unfold replaceAll
  rw [replaceFrom, if_neg notFound]

/-- A text is read from left to right over occurrences of the mark and over single characters. -/
theorem mark_induction (some : mark ≠ []) {motive : List Char → Prop} (nil : motive [])
    (found : ∀ back, motive back → motive (mark ++ back))
    (other : ∀ c cs, ¬ mark <+: c :: cs → motive cs → motive (c :: cs)) (cs : List Char) :
    motive cs := by
  induction h : cs.length using Nat.strong_induction_on generalizing cs with
  | h length ih =>
    subst h
    by_cases begins : mark <+: cs
    · obtain ⟨back, rfl⟩ := begins
      have shorter : back.length < (mark ++ back).length := by
        have positive := List.length_pos_iff.mpr some
        rw [List.length_append]
        omega
      exact found back (ih _ shorter back rfl)
    · cases cs with
      | nil => exact nil
      | cons c cs => exact other c cs begins (ih _ (Nat.lt_succ_self _) cs rfl)

theorem replaceAll_of_not_infix {cs : List Char} (missing : ¬ mark <:+: cs) :
    replaceAll mark text cs = cs := by
  induction cs with
  | nil => rfl
  | cons c cs ih =>
    rw [List.infix_cons_iff, not_or] at missing
    rw [replaceAll_cons missing.1, ih missing.2]

theorem replaceAll_self (some : mark ≠ []) (cs : List Char) : replaceAll mark mark cs = cs := by
  induction cs using mark_induction some with
  | nil => rfl
  | found back ih => rw [replaceAll_mark some, ih]
  | other c cs missing ih => rw [replaceAll_cons missing, ih]

/-- Each replacement takes the length of the mark away and adds that of the new text. -/
theorem length_replaceAll (some : mark ≠ []) (text cs : List Char) :
    ∃ count, (replaceAll mark text cs).length + count * mark.length =
      cs.length + count * text.length := by
  induction cs using mark_induction some with
  | nil => exact ⟨0, by rw [Nat.zero_mul, Nat.zero_mul]; rfl⟩
  | found back ih =>
    obtain ⟨count, same⟩ := ih
    refine ⟨count + 1, ?_⟩
    rw [replaceAll_mark some, List.length_append, List.length_append, Nat.succ_mul, Nat.succ_mul]
    omega
  | other c cs missing ih =>
    obtain ⟨count, same⟩ := ih
    refine ⟨count, ?_⟩
    rw [replaceAll_cons missing, List.length_cons, List.length_cons]
    omega

/-- **A replacement by another text shows**, whatever it makes of the occurrences further on. -/
theorem replaceAll_ne_self (some : mark ≠ []) (other : text ≠ mark) {cs : List Char}
    (occurs : mark <:+: cs) : replaceAll mark text cs ≠ cs := by
  induction cs using mark_induction some with
  | nil => exact absurd (List.infix_nil.mp occurs) some
  | found back ih =>
    intro same
    rw [replaceAll_mark some] at same
    obtain ⟨count, lengths⟩ := length_replaceAll some text back
    have total := congrArg List.length same
    rw [List.length_append, List.length_append] at total
    -- both sides have the same count of replacements, so mark and text are equally long
    have equal : (count + 1) * text.length = (count + 1) * mark.length := by
      rw [Nat.succ_mul, Nat.succ_mul]
      omega
    have long : text.length = mark.length := Nat.eq_of_mul_eq_mul_left (Nat.succ_pos count) equal
    exact other (List.append_inj_left same long)
  | other c cs missing ih =>
    intro same
    rw [replaceAll_cons missing] at same
    have later : mark <:+: cs := (List.infix_cons_iff.mp occurs).resolve_left missing
    exact ih later (List.cons.inj same).2

/-- **Two parts of a text are replaced alone** when no occurrence crosses the seam. -/
theorem replaceAll_append (some : mark ≠ []) {front back : List Char}
    (apart : ∀ tail, tail ≠ [] → tail <:+ front → mark <+: tail ++ back → mark <+: tail) :
    replaceAll mark text (front ++ back) =
      replaceAll mark text front ++ replaceAll mark text back := by
  induction front using mark_induction some with
  | nil => rfl
  | found rest ih =>
    have inner : replaceAll mark text (rest ++ back) =
        replaceAll mark text rest ++ replaceAll mark text back := by
      apply ih
      intro tail nonempty inside
      exact apart tail nonempty (inside.trans (List.suffix_append mark rest))
    rw [List.append_assoc, replaceAll_mark some, replaceAll_mark some, inner, List.append_assoc]
  | other c cs missing ih =>
    have inner : replaceAll mark text (cs ++ back) =
        replaceAll mark text cs ++ replaceAll mark text back := by
      apply ih
      intro tail nonempty inside
      exact apart tail nonempty (inside.trans (List.suffix_cons c cs))
    have begins : ¬ mark <+: c :: (cs ++ back) := by
      intro crosses
      exact missing (apart (c :: cs) (List.cons_ne_nil c cs) (List.suffix_refl _) crosses)
    rw [List.cons_append, replaceAll_cons begins, replaceAll_cons missing, inner, List.cons_append]

/-- A character that the mark does not have parts a text into two that are replaced alone. -/
theorem replaceAll_append_cons (some : mark ≠ []) {c : Char} (absent : c ∉ mark)
    (front back : List Char) :
    replaceAll mark text (front ++ c :: back) =
      replaceAll mark text front ++ c :: replaceAll mark text back := by
  have inside {tail : List Char} (occurs : mark <+: tail ++ c :: back) : mark <+: tail := by
    rcases List.prefix_or_prefix_of_prefix occurs (List.prefix_append tail (c :: back)) with
      within | ⟨beyond, parts⟩
    · exact within
    · rw [← parts, List.prefix_append_right_inj] at occurs
      cases beyond with
      | nil => rw [← parts, List.append_nil]
      | cons d beyond =>
        obtain ⟨rfl, -⟩ := List.cons_prefix_cons.mp occurs
        exact absurd (parts ▸ List.mem_append_right tail List.mem_cons_self) absent
  have begins : ¬ mark <+: c :: back := by
    intro occurs
    exact some (List.prefix_nil.mp (inside (List.nil_append (c :: back) ▸ occurs)))
  rw [replaceAll_append some fun tail _ _ => inside, replaceAll_cons begins]

end LineTemplate.Text
