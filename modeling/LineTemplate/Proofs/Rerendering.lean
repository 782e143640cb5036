import LineTemplate.Proofs.LoopNames

/-!
# Rendering what has been rendered

A render of plain lines without references writes lines of its template, and ends each with the line
break of the standard options.

**The law** (`Template.render_rendered`): the text of such a render is a template that renders to
itself, with any provider.

The line breaks are read back as they were written: a line of a text has no line feed, and keeps the
carriage returns that are not right before one, so a text is cut behind the same lines again
(`Text.lines_joinLines`). The lines that are written are plain lines of the template, because each
is written in a visited state, and there the lines ahead are lines of the template.
-/

namespace LineTemplate

open Render (Entry Setting Step State Performs joinLines writtenLines lines_goes lines_nil)

/-! ## Lines that are joined and cut again -/

namespace Text

/-- A line has no line feed. -/
theorem feed_not_mem_lines {cs line : List Char} (member : line ∈ lines cs) : '\n' ∉ line := by
  fun_induction lines cs generalizing line with
  | case1 => exact (List.not_mem_nil member).elim
  | case2 cs ih | case3 cs ih =>
    rcases List.mem_cons.mp member with rfl | later
    · exact List.not_mem_nil
    · exact ih later
  | case4 c cs notFeed _ ih =>
    have other : '\n' ≠ c := fun same => notFeed same.symm
    cases found : lines cs with
    | nil =>
      rw [found] at member
      obtain rfl := List.mem_singleton.mp member
      exact List.not_mem_cons_of_ne_of_not_mem other List.not_mem_nil
    | cons first others =>
      rw [found] at member ih
      rcases List.mem_cons.mp member with rfl | later
      · exact List.not_mem_cons_of_ne_of_not_mem other (ih List.mem_cons_self)
      · exact ih (List.mem_cons_of_mem _ later)

/-- The first line is what stands in front of the first line break, carriage returns included. -/
theorem lines_line {line : List Char} (noFeed : '\n' ∉ line) (behind : List Char) :
    lines (line ++ '\r' :: '\n' :: behind) = line :: lines behind := by
  induction line with
  | nil => rfl
  | cons c line ih =>
    have notFeed : c ≠ '\n' := fun same => noFeed (same ▸ List.mem_cons_self)
    have noFeed' : '\n' ∉ line := fun later => noFeed (List.mem_cons_of_mem c later)
    have notReturn (rest : List Char) (_ : c = '\r')
        (next : line ++ '\r' :: '\n' :: behind = '\n' :: rest) : False := by
      cases line with
      | nil => exact absurd (List.cons.inj next).1 (by decide)
      | cons d line => exact noFeed' ((List.cons.inj next).1 ▸ List.mem_cons_self)
    rw [List.cons_append, lines.eq_4 _ _ notFeed notReturn, ih noFeed']
    rfl

/-- **Lines that are joined are cut where they were joined.** -/
theorem lines_joinLines {texts : List (List Char)} (noFeed : ∀ line ∈ texts, '\n' ∉ line) :
    lines (joinLines ['\r', '\n'] texts) = texts := by
  induction texts with
  | nil => rfl
  | cons line texts ih =>
    have joined : joinLines ['\r', '\n'] (line :: texts) =
        line ++ '\r' :: '\n' :: joinLines ['\r', '\n'] texts := List.append_assoc _ _ _
    rw [joined, lines_line (noFeed line List.mem_cons_self),
      ih fun other later => noFeed other (List.mem_cons_of_mem line later)]

end Text

/-! ## Plain lines without references -/

namespace Reference

variable {provider : Provider} {scopes : Scopes} {line : List Char}

theorem format_of_no_names (free : names line = []) : format provider scopes line = line := by
  rw [format, free, List.foldl_nil]

theorem unresolved_of_no_names (free : names line = []) :
    unresolved provider scopes line = [] := by
  rw [unresolved, free, List.filter_nil]

end Reference

namespace Render

variable {setting : Setting} {scopes : Scopes}

/-- **Plain lines without references write themselves.** -/
theorem lines_write {texts : List (List Char)} (free : ∀ text ∈ texts, Reference.names text = [])
    {ahead line : Nat} (bound : texts.length ≤ ahead) :
    Performs (lines setting ahead .whole) ⟨⟨line, texts.map (⟨·, none⟩)⟩, scopes⟩
      (.wrote (texts.map .line)) ⟨⟨line + texts.length, []⟩, scopes⟩ := by
  induction texts generalizing ahead line with
  | nil => exact Performs.done.congr lines_nil
  | cons text texts ih =>
    obtain _ | ahead := ahead
    · exact (Nat.not_succ_le_zero _ bound).elim
    · have first : Performs (handle setting (block setting ahead) ⟨text, none⟩)
          ⟨⟨line, (text :: texts).map (⟨·, none⟩)⟩, scopes⟩ (.wrote [.line text])
          ⟨⟨line + 1, texts.map (⟨·, none⟩)⟩, scopes⟩ := by
        refine ((Performs.write _).then_silently fun _ => .forward_one _ _).congr ?_
        have free' := free text List.mem_cons_self
        simp only [handle, plain, Reference.format_of_no_names free',
          Reference.unresolved_of_no_names free', List.map_nil, List.nil_append]
      have free' (other : List Char) (later : other ∈ texts) : Reference.names other = [] :=
        free other (List.mem_cons_of_mem text later)
      have place : line + (text :: texts).length = line + 1 + texts.length := by
        rw [List.length_cons, Nat.add_assoc, Nat.add_comm 1]
      rw [place]
      have goes (directive : Directive) (found : none = some directive) :
          directive ∉ Extent.whole.closers := by
        cases found
      exact (first.andThen fun _ => ih free' (Nat.le_of_succ_le_succ bound)).congr
        (lines_goes goes)

theorem writtenLines_lines (texts : List (List Char)) :
    writtenLines (texts.map .line) = texts := by
  rw [writtenLines, List.filterMap_map]
  exact List.filterMap_some

/-- What is written without references is a plain line of the template. -/
theorem mem_of_writes {all : List Line}
    (free : ∀ line ∈ all, line.directive = none → Reference.names line.text = []) {m : State}
    (visited : Visited setting all m) {text : List Char} (writes : Writes setting m (.line text)) :
    ⟨text, none⟩ ∈ all := by
  cases writes with
  | @line text rest next =>
    obtain ⟨whole, -⟩ := visited_nests visited
    have member : ⟨text, none⟩ ∈ all := by
      rw [← whole, next]
      exact List.mem_append_right _ List.mem_cons_self
    rwa [Reference.format_of_no_names (free _ member rfl)]

end Render

namespace Template

variable {template : Template} {provider : Provider} {config : Config} {text : String}

/-- The text of a render is that of the lines it has written. -/
theorem text_of_renders (renders : template.render provider config = .ok text) :
    text = String.ofList (joinLines config.separator.toList
      (writtenLines (template.outcome provider config).log)) := by
  unfold render Render.Outcome.result at renders
  split at renders
  · exact nomatch renders
  · exact (Except.ok.inj renders).symm

/-- A template of plain lines without references renders to its lines. -/
theorem render_plain {texts : List (List Char)} (plain : template.lines = texts.map (⟨·, none⟩))
    (free : ∀ text ∈ texts, Reference.names text = []) (provider : Provider) (config : Config) :
    template.render provider config =
      .ok (String.ofList (joinLines config.separator.toList texts)) := by
  have bound : texts.length ≤ template.lines.length := by rw [plain, List.length_map]
  have writes : Performs (Render.lines ⟨provider, config.strays⟩ template.lines.length .whole)
      ⟨⟨1, texts.map (⟨·, none⟩)⟩, Scopes.root.push⟩ _ _ := Render.lines_write free bound
  rw [← plain] at writes
  have reports : (Render.run ⟨provider, config.strays⟩ template.lines).report =
      .wrote (texts.map .line) :=
    (Performs.inScope (t := ⟨_, Scopes.root⟩) writes (Scopes.pop_push .root)).report_eq
  rw [render_of_report reports, Report.result, Report.text, Report.wrote]
  simp only [← Render.joinLines_writtenLines, Render.writtenLines_lines]

/-- Plain lines that are joined with the standard line break are the lines of a template. -/
theorem lines_ofText_joinLines {texts : List (List Char)} (noFeed : ∀ text ∈ texts, '\n' ∉ text)
    (plain : ∀ text ∈ texts, Directive.ofText? text = none) :
    (ofText (String.ofList (joinLines Config.standard.separator.toList texts))).lines =
      texts.map (⟨·, none⟩) := by
  have separator : Config.standard.separator.toList = ['\r', '\n'] := rfl
  show Line.ofContent _ = _
  rw [Line.ofContent, String.toList_ofList, separator, Text.lines_joinLines noFeed]
  apply List.map_congr_left
  intro text member
  rw [Line.ofText, plain text member]

/-- **What has been rendered renders to itself.** Let no plain line of a template have a reference,
and let it render with the line break of the standard options. Then the text is a sequence of plain
lines of the template, each with this line break behind it, and it is a template that renders to
itself, whatever the provider and the policy for stray directives. -/
theorem render_rendered {strays : Strays}
    (free : ∀ line ∈ template.lines, line.directive = none → Reference.names line.text = [])
    (renders : template.render provider ⟨strays, Config.standard.separator⟩ = .ok text) :
    (∀ provider' strays', (ofText text).render provider' ⟨strays', Config.standard.separator⟩ =
      .ok text) ∧
    ∃ written : List (List Char), (∀ line ∈ written, ⟨line, none⟩ ∈ template.lines) ∧
      text = String.ofList (joinLines Config.standard.separator.toList written) := by
  obtain rfl := text_of_renders renders
  have written (line : List Char) (member : line ∈ writtenLines
      (template.outcome provider ⟨strays, Config.standard.separator⟩).log) :
      ⟨line, none⟩ ∈ template.lines := by
    obtain ⟨entry, logged, found⟩ := List.mem_filterMap.mp member
    cases entry with
    | event event => exact nomatch found
    | line text =>
      obtain rfl := Option.some.inj found
      obtain ⟨m, visited, writes⟩ := Render.mem_log_run logged
      exact Render.mem_of_writes free visited writes
  refine ⟨fun provider' strays' => ?_, _, written, rfl⟩
  have plain (line : List Char) (member : line ∈ writtenLines
      (template.outcome provider ⟨strays, Config.standard.separator⟩).log) :
      '\n' ∉ line ∧ Directive.ofText? line = none := by
    have kept := written line member
    rw [template.lines_eq] at kept
    obtain ⟨text, cut, spelled⟩ := List.mem_map.mp kept
    obtain ⟨rfl, directive⟩ := Line.mk.inj spelled
    exact ⟨Text.feed_not_mem_lines cut, directive⟩
  exact render_plain (lines_ofText_joinLines (fun line member => (plain line member).1)
    fun line member => (plain line member).2) (fun line member => free _ (written line member) rfl)
    provider' _

/-- Carriage returns that stand alone stay with their lines, also on the last line, and in every
pass of a loop. -/
theorem render_rendered_mixed_breaks :
    (ofText "a\r\r\n#foreach ($i in $n)\n\rb\n#end\n\r\nc\r").render
        (Table.provider (.ofEntries [("n", .list [.int 1, .int 2])])) .standard =
      .ok "a\r\r\n\rb\r\n\rb\r\n\r\nc\r\r\n" ∧
    ∀ provider strays, (ofText "a\r\r\n\rb\r\n\rb\r\n\r\nc\r\r\n").render provider
        ⟨strays, Config.standard.separator⟩ =
      .ok "a\r\r\n\rb\r\n\rb\r\n\r\nc\r\r\n" := by
  have free : ∀ line ∈ (ofText "a\r\r\n#foreach ($i in $n)\n\rb\n#end\n\r\nc\r").lines,
      line.directive = none → Reference.names line.text = [] := by decide +kernel
  have renders : (ofText "a\r\r\n#foreach ($i in $n)\n\rb\n#end\n\r\nc\r").render
      (Table.provider (.ofEntries [("n", .list [.int 1, .int 2])])) .standard =
      .ok "a\r\r\n\rb\r\n\rb\r\n\r\nc\r\r\n" := by decide +kernel
  exact ⟨renders, (render_rendered free renders).1⟩

end Template

end LineTemplate
