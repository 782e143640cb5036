import LineTemplate.Proofs.Comparison
import LineTemplate.Proofs.Refinement

/-!
# Rendering one text behind another

**The law** (`render_append`): a text that ends with a line break and renders does not notice what
follows it, and the text behind it renders as it does alone, with its line numbers moved on.

Three facts carry it. Lines distribute over such a join (`Text.lines_append`). A tree that is
evaluated without a failure has no unclosed block, so the nodes of the second text stand behind it
as they would alone (`Node.FitAll.closed_of_succeeds`). And an evaluation that starts further down
says the same with other line numbers (`Node.evalAll_shift`).
-/

namespace LineTemplate

open Render (Entry Extent Setting)

/-! ## Lines of joined texts -/

namespace Text

theorem onFirstLine_ne_nil (c : Char) (found : List (List Char)) : onFirstLine c found ≠ [] := by
  cases found <;> exact nofun

theorem onFirstLine_append (c : Char) {front : List (List Char)} (some : front ≠ [])
    (back : List (List Char)) : onFirstLine c (front ++ back) = onFirstLine c front ++ back := by
  cases front with
  | nil => exact (some rfl).elim
  | cons line front => rfl

theorem lines_ne_nil {cs : List Char} (some : cs ≠ []) : lines cs ≠ [] := by
  fun_cases lines cs with
  | case1 => exact (some rfl).elim
  | case2 => exact nofun
  | case3 => exact nofun
  | case4 => exact onFirstLine_ne_nil _ _

/-- A text is empty or ends with a line break. -/
def Ended (cs : List Char) : Prop :=
  cs = [] ∨ cs.getLast? = some '\n'

theorem Ended.tail {c : Char} {cs : List Char} (ended : Ended (c :: cs)) : Ended cs := by
  cases cs with
  | nil => exact .inl rfl
  | cons d ds =>
    rcases ended with h | h
    · exact nomatch h
    · exact .inr (by rwa [List.getLast?_cons_cons] at h)

/-- **Lines distribute over a join at a line break.** -/
theorem lines_append {front : List Char} (ended : Ended front) (back : List Char) :
    lines (front ++ back) = lines front ++ lines back := by
  fun_induction lines front with
  | case1 => rfl
  | case2 cs ih =>
    simp only [List.cons_append, lines, ih ended.tail]
  | case3 cs ih =>
    simp only [List.cons_append, lines, ih ended.tail.tail]
  | case4 c cs notFeed notReturn ih =>
    -- the first line goes on, so the text does not end with this character
    obtain ⟨d, ds, rfl⟩ : ∃ d ds, cs = d :: ds := by
      cases cs with
      | cons d ds => exact ⟨d, ds, rfl⟩
      | nil =>
        rcases ended with h | h
        · exact nomatch h
        · exact (notFeed (Option.some.inj h)).elim
    have notReturn' (rest : List Char) (hc : c = '\r') (h : d :: ds ++ back = '\n' :: rest) :
        False := notReturn ds hc (by rw [(List.cons.inj h).1])
    rw [List.cons_append, lines.eq_4 _ _ notFeed notReturn', ih ended.tail,
      onFirstLine_append c (lines_ne_nil (List.cons_ne_nil d ds))]

end Text

/-! ## Line numbers moved on -/

/-- The failure on a line further down. -/
def Failure.shift (count : Nat) : Failure → Failure
  | .notIterable line path found => .notIterable (line + count) path found
  | .parse ⟨line, fault⟩ => .parse ⟨line + count, fault⟩
  | failure => failure

/-- The event on a line further down. -/
def Event.shift (count : Nat) : Event → Event
  | .condition line path holds => .condition (line + count) path holds
  | .loop line item container size => .loop (line + count) item container size
  | .straySkipped line directive => .straySkipped (line + count) directive
  | event => event

/-- The entry of a line further down. -/
def Render.Entry.shift (count : Nat) : Entry → Entry
  | .line text => .line text
  | .event reported => .event (reported.shift count)

namespace Report

variable {count : Nat}

/-- The report of lines further down. -/
def shift (count : Nat) (report : Report) : Report :=
  ⟨report.log.map (Entry.shift count), report.failure.map (Failure.shift count)⟩

theorem shift_andThen (first second : Report) :
    (first.andThen second).shift count = (first.shift count).andThen (second.shift count) := by
  obtain ⟨log, failure⟩ := first
  cases failure with
  | some failure => rfl
  | none => simp only [shift, andThen, Option.map_none, List.map_append]

theorem text_shift (separator : List Char) (report : Report) :
    (report.shift count).text separator = report.text separator := by
  rw [text, shift, List.flatMap_map]
  congr 1
  funext entry
  cases entry <;> rfl

/-- A report further down gives the same text, or the same failure further down. -/
theorem result_shift (separator : String) (report : Report) :
    (report.shift count).result separator =
      (report.result separator).mapError (Failure.shift count) := by
  obtain ⟨log, failure⟩ := report
  cases failure with
  | some failure => rfl
  | none =>
    rw [result, text_shift]
    rfl

end Report

/-- **An evaluation and one that starts further down**, line by line. -/
theorem Comparison.shifted (setting : Setting) (count : Nat) :
    Comparison setting setting count Eq (fun report report' => report' = report.shift count) where
  nothing := rfl
  andThen now later := by rw [now, later, Report.shift_andThen]
  fault _ _ := rfl
  condition _ _ _ := rfl
  loop _ _ _ _ := rfl
  stray directive text line env env' := by
    rw [Node.eval, Node.eval]
    cases setting.strays <;> rfl
  plain same text line := by
    subst same
    rw [Node.eval, Node.eval]
    simp only [Report.wrote, Report.shift, List.map_append, List.map_map]
    rfl
  holds same path := by rw [same]
  items {env _} same path := by
    subst same
    exact items_self env _
  missing same path _ line := by rw [same]; rfl

namespace Node

variable {setting : Setting} {line count : Nat} {env : Environment}

/-- **Nodes further down say the same with other line numbers.** -/
theorem evalAll_shift (nodes : List Node) (line : Nat) (env : Environment) :
    evalAll setting nodes (line + count) env = (evalAll setting nodes line env).shift count :=
  (Comparison.shifted setting count).evalAll nodes line rfl

/-! ## A success leaves no block open -/

theorem ending_succeeds {extent : Extent} {closing : Option (List Char)} {lastLine : Nat}
    (succeeds : (ending extent closing lastLine).failure = none) : closing ≠ none := by
  rintro rfl
  exact nomatch succeeds

theorem decided_succeeds {header : List Char} {branch : Bool → Report}
    (succeeds : (decided setting header line env branch).failure = none) :
    ∃ holds, (branch holds).failure = none := by
  unfold decided at succeeds
  split at succeeds
  · exact nomatch succeeds
  · exact ⟨_, (Report.andThen_failure_eq_none.mp succeeds).2⟩

theorem looped_succeeds {header : List Char} {pass : Environment → Report} {ended : Report}
    (succeeds : (looped setting header line env pass ended).failure = none) :
    ended.failure = none ∨ ∃ inner, (pass inner).failure = none := by
  unfold looped at succeeds
  split at succeeds
  · exact nomatch succeeds
  · simp only at succeeds
    split at succeeds
    · exact nomatch succeeds
    next found items hitems =>
      have rest := (Report.andThen_failure_eq_none.mp succeeds).2
      cases items with
      | nil => exact .inl rest
      | cons item items =>
        rw [List.isEmpty_cons, if_neg Bool.false_ne_true, Report.forEach] at rest
        exact .inr ⟨_, (Report.andThen_failure_eq_none.mp rest).1⟩

/-- A block that is evaluated without a failure has its closing directive. -/
theorem Fits.closed_of_succeeds {node : Node} {extent : Extent} {last : Prop}
    (fits : node.Fits extent last) (succeeds : (node.eval setting line env).failure = none) :
    node.Fits extent False := by
  cases node with
  | plain text => trivial
  | stray directive text => exact fits
  | condition header yes closing =>
    rw [eval] at succeeds
    obtain ⟨holds, part⟩ := decided_succeeds succeeds
    exact ⟨ending_succeeds (Report.andThen_failure_eq_none.mp part).2, fits.2⟩
  | choice header yes middle no closing =>
    rw [eval] at succeeds
    obtain ⟨holds, part⟩ := decided_succeeds succeeds
    exact ⟨ending_succeeds (Report.andThen_failure_eq_none.mp part).2, fits.2⟩
  | loop header body closing =>
    rw [eval] at succeeds
    rcases looped_succeeds succeeds with ended | ⟨inner, pass⟩
    · exact ⟨ending_succeeds ended, fits.2⟩
    · exact ⟨ending_succeeds (Report.andThen_failure_eq_none.mp pass).2, fits.2⟩

/-- Nodes that are evaluated without a failure can be followed by others. -/
theorem FitAll.closed_of_succeeds {nodes : List Node} {extent : Extent} {last : Prop}
    (fits : FitAll nodes extent last)
    (succeeds : (evalAll setting nodes line env).failure = none) :
    FitAll nodes extent False := by
  induction nodes generalizing line with
  | nil => exact fitAll_nil.mpr trivial
  | cons node nodes ih =>
    rw [fitAll_cons] at fits ⊢
    rw [evalAll_cons, Report.andThen_failure_eq_none] at succeeds
    exact ⟨(fits.1.closed_of_succeeds succeeds.1).mono False.elim, ih fits.2 succeeds.2⟩

end Node

/-! ## Rendering joined texts -/

namespace Render

/-- **Lines behind closed ones** are rendered as their own tree says. -/
theorem report_run_append (setting : Setting) {front : List Line}
    (closed : Node.FitAll (treeOf front) .whole False) (back : List Line) :
    (run setting (front ++ back)).report =
      (Node.evalAll setting (treeOf front) 1 []).andThen
        (Node.evalAll setting (treeOf back) (1 + front.length) []) := by
  have spelled := linesOf_treeOf front
  have behind (ahead : Nat) (bound : back.length ≤ ahead) :
      Performs (lines setting ahead .whole)
        ⟨⟨1 + (Node.linesOf (treeOf front)).length, back⟩, Scopes.root.push⟩
        (Node.evalAll setting (treeOf back) (1 + (Node.linesOf (treeOf front)).length) [])
        ⟨⟨1 + (Node.linesOf (treeOf front)).length + back.length, []⟩, Scopes.root.push⟩ :=
    renders_to_end Scopes.binds_root.push bound
  have whole := renders_all (treeOf front) closed Scopes.binds_root.push False.elim
    (Nat.le_refl _) behind
  rw [spelled] at whole
  exact (Performs.inScope (t := ⟨_, Scopes.root⟩) whole (Scopes.pop_push .root)).report_eq

end Render

/-- A report that goes on behind a success gives the joined text, or the failure behind it. -/
theorem Report.result_andThen {separator : String} {first second : Report} {text : String}
    (succeeds : first.result separator = .ok text) :
    (first.andThen second).result separator =
      (second.result separator).map (text ++ ·) := by
  obtain ⟨log, failure⟩ := first
  cases failure with
  | some failure => exact nomatch succeeds
  | none =>
    obtain rfl := Except.ok.inj succeeds
    obtain ⟨log', failure'⟩ := second
    cases failure' with
    | some failure' => rfl
    | none =>
      simp only [andThen, result, text, Except.map, List.flatMap_append, String.ofList_append]

/-- The text of a success tells that nothing failed. -/
theorem Report.failure_of_result {separator : String} {report : Report} {text : String}
    (succeeds : report.result separator = .ok text) : report.failure = none := by
  obtain ⟨log, failure⟩ := report
  cases failure with
  | none => rfl
  | some failure => exact nomatch succeeds

theorem Template.lines_append {first : String} (ended : Text.Ended first.toList)
    (second : String) :
    (ofText (first ++ second)).lines = (ofText first).lines ++ (ofText second).lines := by
  simp only [Line.ofContent, ofText, String.toList_append, Text.lines_append ended, List.map_append]

/-- **Rendering is a homomorphism.** Behind a text that ends with a line break and renders, another
text renders as it does alone; when it fails, its failure is on a line that is further down by the
lines of the first text. -/
theorem render_append {first : String} (ended : Text.Ended first.toList) (second : String)
    (provider : Provider) (config : Config) {text : String}
    (renders : (Template.ofText first).render provider config = .ok text) :
    (Template.ofText (first ++ second)).render provider config =
      match (Template.ofText second).render provider config with
      | .ok rest => .ok (text ++ rest)
      | .error failure => .error (failure.shift (Template.ofText first).lines.length) := by
  have alone (content : String) := Template.render_of_report
    (Render.report_run ⟨provider, config.strays⟩ (Template.ofText content).lines)
  have succeeds := (alone first).symm.trans renders
  have closed := (fits_treeOf (Template.ofText first).lines).closed_of_succeeds
    (Report.failure_of_result succeeds)
  have joined := Render.report_run_append ⟨provider, config.strays⟩ closed
    (Template.ofText second).lines
  rw [← Template.lines_append ended, Node.evalAll_shift] at joined
  rw [Template.render_of_report joined, Report.result_andThen succeeds, Report.result_shift,
    alone second]
  cases Report.result config.separator _ <;> rfl

/-- Two items, and behind their loop a condition that is never closed. -/
theorem render_append_unclosed :
    Text.Ended "#foreach ($i in $n)\n$\x7bi\x7d\n#end\n".toList ∧
      (Template.ofText ("#foreach ($i in $n)\n$\x7bi\x7d\n#end\n" ++ "#if ($n)\nx")).render
        (Table.provider (.ofEntries [("n", .list [.int 1, .int 2])])) .standard =
      .error (.parse ⟨5, .unexpectedEnd "#else, #end"⟩) := by
  have ended : Text.Ended "#foreach ($i in $n)\n$\x7bi\x7d\n#end\n".toList := .inr (by decide)
  have renders : (Template.ofText "#foreach ($i in $n)\n$\x7bi\x7d\n#end\n").render
      (Table.provider (.ofEntries [("n", .list [.int 1, .int 2])])) .standard =
      .ok "1\r\n2\r\n" := by
    decide +kernel
  refine ⟨ended, ?_⟩
  rw [render_append ended "#if ($n)\nx" _ _ renders]
  decide +kernel

end LineTemplate
