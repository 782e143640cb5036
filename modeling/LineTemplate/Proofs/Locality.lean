import LineTemplate.Proofs.Accounting

/-!
# How far a part of a line is formatted alone

A name is replaced wherever its reference is written, once it is accepted anywhere on the line. So
the part of a line before or behind a blank is not formatted as a line of its own: it is formatted
with the names of both parts (`format_append`), and `format_not_local` shows the difference.

**The law** (`format_local`): formatting is local for two parts when neither comes to spell a name
that only the other one refers to. For parts that spell their own names at references only, and
where no name shows a dollar sign or a closing brace, it is local exactly when the whole line does.
-/

namespace LineTemplate.Reference

variable (provider : Provider) (scopes : Scopes)

/-- The parts of a line before and behind a blank are formatted as lines of their own. -/
def FormatsAlone (front back : List Char) : Prop :=
  format provider scopes (front ++ ' ' :: back) =
    format provider scopes front ++ ' ' :: format provider scopes back

/-- Of the names that are substituted in a text, those with a value that are not its own are never
written in what the text has become. -/
def KeepsTo (own : List String) : List String → List Char → Prop
  | [], _ => True
  | name :: all, text =>
    (name ∉ own → (shown provider scopes name).isSome → ¬ written name <:+: text) ∧
      KeepsTo own all (substitute provider scopes text name)

variable {provider scopes} {name : String} {text : List Char} {own all : List String}

/-! ## Two parts of a line -/

theorem blank_not_mem_written {line : List Char} (member : name ∈ names line) :
    ' ' ∉ written name := by
  intro inside
  rcases List.mem_cons.mp inside with blank | inside
  · exact absurd blank (by decide)
  · exact absurd ((goesOn_of_mem_names member).2 ' ' inside) (by decide)

theorem substitute_append (absent : ' ' ∉ written name) (front back : List Char) :
    substitute provider scopes (front ++ ' ' :: back) name =
      substitute provider scopes front name ++ ' ' :: substitute provider scopes back name := by
  unfold substitute
  cases scopes.lookup provider name with
  | none => rfl
  | some value => exact Text.replaceAll_append_cons (written_ne_nil name) absent front back

/-- **Both parts of a line are formatted with all of its names.** -/
theorem format_append (front back : List Char) :
    format provider scopes (front ++ ' ' :: back) =
      (names (front ++ ' ' :: back)).foldl (substitute provider scopes) front ++
        ' ' :: (names (front ++ ' ' :: back)).foldl (substitute provider scopes) back := by
  have steps (todo : List String) (front' back' : List Char)
      (inLine : ∀ name ∈ todo, name ∈ names (front ++ ' ' :: back)) :
      todo.foldl (substitute provider scopes) (front' ++ ' ' :: back') =
        todo.foldl (substitute provider scopes) front' ++
          ' ' :: todo.foldl (substitute provider scopes) back' := by
    induction todo generalizing front' back' with
    | nil => rfl
    | cons name todo ih =>
      have absent := blank_not_mem_written (inLine name List.mem_cons_self)
      rw [List.foldl_cons, substitute_append absent]
      exact ih _ _ fun other member => inLine other (List.mem_cons_of_mem name member)
  exact steps _ front back fun name => id

/-! ## Names of the other part -/

/-- A text that has all the names keeps to its own. -/
theorem keepsTo_of_subset (included : ∀ name ∈ all, name ∈ own) :
    KeepsTo provider scopes own all text := by
  induction all generalizing text with
  | nil => trivial
  | cons name all ih =>
    refine ⟨fun other => absurd (included name List.mem_cons_self) other, ih ?_⟩
    exact fun later member => included later (List.mem_cons_of_mem name member)

/-- Names that are never written change nothing. -/
theorem KeepsTo.foldl (keeps : KeepsTo provider scopes own all text) :
    all.foldl (substitute provider scopes) text =
      (all.filter (· ∈ own)).foldl (substitute provider scopes) text := by
  induction all generalizing text with
  | nil => rfl
  | cons name all ih =>
    obtain ⟨here, later⟩ := keeps
    rw [List.foldl_cons, ih later, List.filter_cons]
    by_cases member : name ∈ own
    · rw [if_pos (decide_eq_true member), List.foldl_cons]
    · have unchanged : substitute provider scopes text name = text := by
        rcases substitute_cases provider scopes text name with
          ⟨-, unchanged⟩ | ⟨value, shows, replaced⟩
        · exact unchanged
        · have missing := here member (by rw [shows]; rfl)
          exact replaced.trans (Text.replaceAll_of_not_infix missing)
      rw [if_neg (by simpa using member), unchanged]

/-- A text that keeps to its own names is formatted alone. -/
theorem KeepsTo.foldl_eq_format (increasing : all.Pairwise (· < ·))
    (included : ∀ name ∈ names text, name ∈ all)
    (keeps : KeepsTo provider scopes (names text) all text) :
    all.foldl (substitute provider scopes) text = format provider scopes text := by
  have ordered : (all.filter (· ∈ names text)).Pairwise (· < ·) := increasing.filter _
  have same : all.filter (· ∈ names text) = names text := by
    apply List.Perm.eq_of_pairwise (fun _ _ _ _ less more => absurd more (not_lt_of_gt less))
      ordered (names_increasing text)
    rw [List.perm_ext_iff_of_nodup (ordered.imp ne_of_lt) ((names_increasing text).imp ne_of_lt)]
    intro name
    rw [List.mem_filter, decide_eq_true_eq]
    exact and_iff_right_of_imp (included name)
  rw [keeps.foldl, same, format]

/-! ## Locality -/

/-- **How far formatting is local.** The parts of a line before and behind a blank are formatted
with the names of both. When neither comes to spell a name with a value that only the other one
refers to, each is formatted as a line of its own. And when no name shows a dollar sign or a closing
brace, two parts that spell their own names at references only are formatted alone exactly when the
whole line spells its names at references only. -/
theorem format_local (provider : Provider) (scopes : Scopes) (front back : List Char) :
    let all := names (front ++ ' ' :: back)
    ((∀ name, name ∈ all ↔ name ∈ names front ∨ name ∈ names back) ∧
      format provider scopes (front ++ ' ' :: back) =
        all.foldl (substitute provider scopes) front ++
          ' ' :: all.foldl (substitute provider scopes) back) ∧
    (KeepsTo provider scopes (names front) all front →
      KeepsTo provider scopes (names back) all back → FormatsAlone provider scopes front back) ∧
    (ShowsNo provider scopes '$' → ShowsNo provider scopes '}' →
      SpellsOnlyReferences provider scopes front → SpellsOnlyReferences provider scopes back →
        (FormatsAlone provider scopes front back ↔
          SpellsOnlyReferences provider scopes (front ++ ' ' :: back))) := by
  intro all
  have members (name : String) : name ∈ all ↔ name ∈ names front ∨ name ∈ names back :=
    mem_names_append front back
  refine ⟨⟨members, format_append front back⟩, ?_, ?_⟩
  · intro keeps keeps'
    have first := keeps.foldl_eq_format (names_increasing _) fun name h =>
      (members name).mpr (.inl h)
    have second := keeps'.foldl_eq_format (names_increasing _) fun name h =>
      (members name).mpr (.inr h)
    rw [FormatsAlone, ← first, ← second]
    exact format_append front back
  · intro plain plain' spells spells'
    have first := format_eq_of_spells plain plain' spells
    have second := format_eq_of_spells plain plain' spells'
    rw [← format_eq_singlePass_iff_spells plain plain', FormatsAlone, first, second,
      singlePass_append]

/-- Where both parts refer to the same names, a reference that is not accepted stays with its part;
and two parts that are fine alone need not be so together. -/
theorem format_local_glued :
    let provider : Provider := ⟨fun _ name => if name = "a" then some (.string "V") else none,
      fun _ => "V"⟩
    FormatsAlone provider .root "$\x7ba\x7d $\x7ba\x7db".toList "$\x7ba\x7d".toList ∧
      (FormatsAlone provider .root "$\x7ba\x7d".toList "$\x7ba\x7db".toList ↔
        SpellsOnlyReferences provider .root "$\x7ba\x7d $\x7ba\x7db".toList) := by
  intro provider
  have shows (c : Char) (absent : c ∉ "V".toList) : ShowsNo provider .root c :=
    ShowsNo.of_display (fun _ => absent) .root
  constructor
  · refine (format_local provider .root _ _).2.1 (keepsTo_of_subset ?_) (keepsTo_of_subset ?_)
    · decide +kernel
    · decide +kernel
  · refine (format_local provider .root _ _).2.2 (shows '$' ?_) (shows '\x7d' ?_) ?_ ?_
    · decide
    · decide
    · decide +kernel
    · decide +kernel

/-- A reference that is not accepted where it stands is replaced after all, since the other part of
the line refers to its name. -/
theorem format_not_local :
    let provider : Provider := ⟨fun _ name => if name = "a" then some (.string "V") else none,
      fun _ => "V"⟩
    (∀ value, ∀ c ∈ ['$', '\x7b', '\x7d'], c ∉ (provider.display value).toList) ∧
      ¬ FormatsAlone provider .root "$\x7ba\x7d".toList "$\x7ba\x7db".toList ∧
      format provider .root "$\x7ba\x7d $\x7ba\x7db".toList = "V Vb".toList ∧
      format provider .root "$\x7ba\x7d".toList ++
        ' ' :: format provider .root "$\x7ba\x7db".toList = "V $\x7ba\x7db".toList := by
  intro provider
  refine ⟨?_, ?_, ?_, ?_⟩
  · intro value c sign display
    have single : (provider.display value).toList = ['V'] := show "V".toList = _ by decide
    rw [single, List.mem_singleton] at display
    rw [display] at sign
    exact absurd sign (by decide)
  · show ¬ _ = _
    decide +kernel
  · decide +kernel
  · decide +kernel

end LineTemplate.Reference
