import LineTemplate.Proofs.Substitution

/-!
# The order of substitution

A line is formatted one name after the other. Where nothing that is shown has a dollar sign, no
reference comes into being on the way, so each name is found at its own references and nowhere else:
every order of the names gives the text of a single pass (`foldl_substitute_of_perm`). This asks
nothing of the braces in what is shown, and of names that begin alike.
-/

namespace LineTemplate.Reference

/-- No name shows this character. -/
def ShowsNo (provider : Provider) (scopes : Scopes) (c : Char) : Prop :=
  ∀ name text, shown provider scopes name = some text → c ∉ text

variable {provider : Provider} {scopes : Scopes} {line : List Char}

theorem ShowsNo.of_display {c : Char} (plain : ∀ value, c ∉ (provider.display (some value)).toList)
    (scopes : Scopes) : ShowsNo provider scopes c := by
  intro name text shows
  obtain ⟨value, -, rfl⟩ := Option.map_eq_some_iff.mp shows
  exact plain value

/-- Without dollar signs in what is shown, no name is spelled there. -/
theorem undisturbed_of_plain (plain : ShowsNo provider scopes '$') (done : List String)
    (name : String) : Undisturbed provider scopes done name := by
  intro text shows
  right
  intro earlier before spelled
  have dollar : '$' ∈ earlier.flatMap Prod.snd := spelled.subset List.mem_cons_self
  obtain ⟨other, member, inside⟩ := List.mem_flatMap.mp dollar
  exact plain _ _ (before other member).2 inside

/-- **The order of substitution does not matter** on a regular line, when no name shows a dollar
sign: in every order of the names, formatting the line gives the text of a single pass. -/
theorem foldl_substitute_of_perm (plain : ShowsNo provider scopes '$') (regular : Regular line)
    {order : List String} (perm : order.Perm (names line)) :
    order.foldl (substitute provider scopes) line = singlePass provider scopes line ∧
      order.foldl (substitute provider scopes) line = format provider scopes line := by
  have anyOrder {order : List String} (perm : order.Perm (names line)) :
      order.foldl (substitute provider scopes) line = singlePass provider scopes line := by
    obtain ⟨pieces, proper, rfl⟩ := regular.exists_pieces
    have inLine (name : String) : name ∈ order ↔ .reference name ∈ pieces :=
      perm.mem_iff.trans (mem_names_spell proper)
    have distinct : ([] ++ order).Pairwise (· ≠ ·) :=
      perm.nodup_iff.mpr ((names_increasing _).imp ne_of_lt)
    have steps : order.foldl (substitute provider scopes) (filled provider scopes [] pieces) =
        filled provider scopes ([] ++ order) pieces :=
      foldl_filled (fun _ h => h rfl) [] order distinct
        (fun name member => proper.isName ((inLine name).mp member))
        (fun name _ front _ => undisturbed_of_plain plain front name) proper
    rw [filled_nil] at steps
    rw [steps, singlePass_spell proper fun name => (inLine name).mpr]
    rfl
  exact ⟨anyOrder perm, (anyOrder perm).trans (anyOrder (List.Perm.refl _)).symm⟩

/-- Of two names that begin alike, the longer one is substituted first, and the braces that it shows
come to stand behind the other reference. -/
theorem foldl_substitute_of_perm_braces :
    let provider : Provider := ⟨fun _ name => some (.string name), fun _ => "\x7bab\x7d"⟩
    let line := "$\x7ba\x7d$\x7bab\x7d".toList
    (ShowsNo provider .root '$' ∧ Regular line ∧ ["ab", "a"].Perm (names line)) ∧
      ["ab", "a"].foldl (substitute provider .root) line = singlePass provider .root line ∧
      ["ab", "a"].foldl (substitute provider .root) line = format provider .root line := by
  intro provider line
  have plain : ShowsNo provider .root '$' :=
    ShowsNo.of_display (fun _ => show '$' ∉ "\x7bab\x7d".toList by decide) .root
  have proper : Proper [.reference "a", .reference "ab"] :=
    ⟨by decide, stops_written "ab" [], by decide, nofun, trivial⟩
  have regular : Regular line := proper.regular
  have perm : ["ab", "a"].Perm (names line) := by decide +kernel
  exact ⟨⟨plain, regular, perm⟩, foldl_substitute_of_perm plain regular perm⟩

end LineTemplate.Reference
