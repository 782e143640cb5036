import LineTemplate.Proofs.StoredRegistries

/-!
# Histories of a registry

A registry is asked to take templates in, to render, to tell the paths of a template, and now and
then it is stored and read back. What it answers depends on its options and on the first content
that each name was given, and on nothing else.

**The law** (`history`): after every history the registry is what these two say it is (`IsFirst`),
and a reload anywhere in a history changes none of the other answers: a registry is read back as it
was, in whichever order its templates were written, and with the lines of every template read anew
(`serve_reload`).
-/

namespace LineTemplate

/-- An order in which the entries of a dictionary are written. -/
structure Arrangement where
  arrange : Dict Template → List (String × Template)
  perm : ∀ templates, (arrange templates).Perm templates.toList

/-- What a registry can be asked. -/
inductive Request where
  | add (name content : String)
  | render (name : String) (provider : Provider)
  | renderText (content : String) (provider : Provider)
  | variables (name : String)
  | template (name : String)
  | config
  /-- To be stored, with the templates in some order, and read back. -/
  | reload (order : Arrangement)

inductive Answer where
  | added (result : Traced (Except Failure Unit))
  | rendered (result : Traced (Except Failure String))
  | variables (paths : List String)
  | template (template : Option Template)
  | config (config : Config)
  | reloaded (succeeds : Bool)

namespace Request

def isReload : Request → Bool
  | .reload _ => true
  | _ => false

/-- The content that a request adds under a name. -/
def content? (name : String) : Request → Option String
  | .add other content => if other = name then some content else none
  | _ => none

end Request

/-- The content that is first added under a name. -/
def firstContent? (name : String) (requests : List Request) : Option String :=
  requests.findSome? (Request.content? name)

theorem firstContent?_cons (name : String) (request : Request) (requests : List Request) :
    firstContent? name (request :: requests) =
      (request.content? name).or (firstContent? name requests) := by
  rw [firstContent?, List.findSome?_cons]
  cases request.content? name <;> rfl

namespace Registry

/-- The registry after a request, and the answer. -/
def serve (registry : Registry) : Request → Registry × Answer
  | .add name content =>
    match registry.addTraced name content with
    | ⟨.ok grown, events⟩ => (grown, .added ⟨.ok (), events⟩)
    | ⟨.error failure, events⟩ => (registry, .added ⟨.error failure, events⟩)
  | .render name provider => (registry, .rendered (registry.render name provider))
  | .renderText content provider => (registry, .rendered (registry.renderText content provider))
  | .variables name => (registry, .variables (registry.variables name))
  | .template name => (registry, .template (registry.template? name))
  | .config => (registry, .config registry.config)
  | .reload order =>
    match ofJson? (documentOf registry.config (order.arrange registry.templates)).write with
    | some next => (next, .reloaded true)
    | none => (registry, .reloaded false)

/-- The registry after a history. -/
def after (registry : Registry) (requests : List Request) : Registry :=
  requests.foldl (fun registry request => (registry.serve request).1) registry

/-- The answers to a history, without those to reloads. -/
def answers (registry : Registry) : List Request → List Answer
  | [] => []
  | request :: requests =>
    let (next, answer) := registry.serve request
    if request.isReload then answers next requests else answer :: answers next requests

variable {registry : Registry}

/-! ## One request -/

/-- What a registry takes in: the first template of a name stays, and a further one is refused. -/
theorem serve_add_cases (registry : Registry) (name content : String) :
    (∃ template, registry.template? name = some template ∧
      registry.serve (.add name content) =
        (registry, .added ⟨.error (.templateExists name), []⟩)) ∨
    registry.template? name = none ∧
      registry.serve (.add name content) =
        (⟨registry.config, registry.templates.insert name (entry name content)⟩, .added
          ⟨.ok (), [.templateAdded name (entry name content).lines.length]⟩) := by
  unfold serve addTraced add
  dsimp only
  cases registry.template? name with
  | some template => exact .inl ⟨template, rfl, rfl⟩
  | none => exact .inr ⟨rfl, rfl⟩

/-- **A reload changes nothing.** -/
theorem serve_reload (registry : Registry) (order : Arrangement) :
    registry.serve (.reload order) = (registry, .reloaded true) := by
  have stored := ofJson?_write (order.perm registry.templates)
  unfold serve
  dsimp only
  rw [stored]

/-- What a request does to a registry. -/
theorem serve_keeps (registry : Registry) (request : Request) :
    (registry.serve request).1.config = registry.config ∧
      ∀ name, (registry.serve request).1.template? name =
        (registry.template? name).or ((request.content? name).map (entry name)) := by
  cases request with
  | add name content =>
    rcases serve_add_cases registry name content with ⟨template, known, same⟩ | ⟨free, same⟩
    · rw [same]
      refine ⟨rfl, fun other => ?_⟩
      rw [Request.content?]
      by_cases here : name = other
      · rw [← here, known, Option.some_or]
      · rw [if_neg here, Option.map_none, Option.or_none]
    · rw [same]
      refine ⟨rfl, fun other => ?_⟩
      rw [Request.content?]
      by_cases here : name = other
      · rw [← here, free, Option.none_or, if_pos rfl]
        exact Dict.get?_insert_self _ _ _
      · rw [if_neg here, Option.map_none, Option.or_none]
        exact Dict.get?_insert_of_ne (Ne.symm here) _ _
  | reload order =>
    rw [serve_reload]
    exact ⟨rfl, fun name => (Option.or_none).symm⟩
  | _ => exact ⟨rfl, fun name => (Option.or_none).symm⟩

/-! ## Histories -/

/-- What a history does to a registry. -/
theorem after_keeps (registry : Registry) (requests : List Request) :
    (registry.after requests).config = registry.config ∧
      ∀ name, (registry.after requests).template? name =
        (registry.template? name).or ((firstContent? name requests).map (entry name)) := by
  induction requests generalizing registry with
  | nil => exact ⟨rfl, fun name => (Option.or_none).symm⟩
  | cons request requests ih =>
    obtain ⟨config, template⟩ := serve_keeps registry request
    obtain ⟨config', template'⟩ := ih (registry.serve request).1
    refine ⟨config'.trans config, ?_⟩
    intro name
    show ((registry.serve request).1.after requests).template? name = _
    rw [template', template, firstContent?_cons, Option.map_or, Option.or_assoc]

/-- A history is answered as without its reloads. -/
theorem answers_filter (registry : Registry) (requests : List Request) :
    registry.answers requests = registry.answers (requests.filter (!·.isReload)) := by
  induction requests generalizing registry with
  | nil => rfl
  | cons request requests ih =>
    cases request with
    | reload order =>
      rw [answers, serve_reload]
      exact ih registry
    | _ => exact congrArg (_ :: ·) (ih _)

/-- What a registry is, and what it answers, when these are the options and each name has the first
content that is given for it, if there is one. -/
structure IsFirst (config : Config) (first? : String → Option String) (registry : Registry) :
    Prop where
  options : registry.config = config
  templates : ∀ name, registry.template? name = (first? name).map (entry name)
  /-- A template is kept with its content and its name, and its lines are those of its content. -/
  kept : ∀ name content, first? name = some content →
    ∃ template, registry.template? name = some template ∧ template.content = content ∧
      template.name = some name ∧ template.lines = (Text.lines content.toList).map Line.ofText
  /-- A name that is known is refused, and nothing changes. -/
  refuses : ∀ name content, (first? name).isSome →
    registry.serve (.add name content) = (registry, .added ⟨.error (.templateExists name), []⟩)
  accepts : ∀ name content, first? name = none →
    ∃ events, (registry.serve (.add name content)).2 = .added ⟨.ok (), events⟩
  /-- A template is rendered as its content is. -/
  renders : ∀ name provider, (registry.render name provider).value =
    match first? name with
    | some content => (registry.renderText content provider).value
    | none => .error (.missingTemplate name)
  rendersText : ∀ content provider, (registry.renderText content provider).value =
    (Template.ofText content).render provider config
  paths : ∀ name, registry.variables name =
    ((first? name).map fun content => (Template.ofText content).variables).getD []
  /-- A reload succeeds and changes nothing. -/
  reloads : ∀ order, registry.serve (.reload order) = (registry, .reloaded true)

theorem isFirst_of_template {first? : String → Option String}
    (template : ∀ name, registry.template? name = (first? name).map (entry name)) :
    IsFirst registry.config first? registry where
  options := rfl
  templates := template
  kept := by
    intro name content first
    rw [template, first]
    exact ⟨entry name content, rfl, rfl, rfl, (entry name content).lines_eq⟩
  refuses := by
    intro name content known
    obtain ⟨first, known⟩ := Option.isSome_iff_exists.mp known
    rcases serve_add_cases registry name content with ⟨-, -, same⟩ | ⟨free, -⟩
    · rw [same]
    · rw [template, known] at free
      exact nomatch free
  accepts := by
    intro name content free
    rcases serve_add_cases registry name content with ⟨found, known, -⟩ | ⟨-, same⟩
    · rw [template, free] at known
      exact nomatch known
    · rw [same]
      exact ⟨_, rfl⟩
  renders := by
    intro name provider
    rw [Registry.render, template]
    cases first? name <;> rfl
  rendersText := by
    intro content provider
    rfl
  paths := by
    intro name
    rw [Registry.variables, template]
    cases first? name <;> rfl
  reloads := serve_reload registry

/-- **The law of histories.** After every history that begins with an empty registry, each name has
the content that was first added under it; and two histories that differ in reloads only are
answered alike. -/
theorem history (config : Config) (requests : List Request) :
    IsFirst config (firstContent? · requests) ((ofConfig config).after requests) ∧
      ∀ others : List Request, others.filter (!·.isReload) = requests.filter (!·.isReload) →
        (ofConfig config).answers others = (ofConfig config).answers requests := by
  constructor
  · obtain ⟨same, template⟩ := after_keeps (ofConfig config) requests
    have first := isFirst_of_template fun name => (template name).trans Option.none_or
    rwa [same] at first
  · intro others same
    rw [answers_filter _ others, same, ← answers_filter _ requests]

/-- A name is added twice, with a reload before and one after that writes the templates backwards;
the first content stays, and the answers are those without the reloads. -/
theorem history_reloaded :
    let backwards : Arrangement :=
      ⟨fun templates => templates.toList.reverse, fun templates => templates.toList.reverse_perm⟩
    let requests : List Request := [.add "t" "first", .add "s" "other", .reload backwards,
      .add "t" "second", .reload backwards, .template "t"]
    ((ofConfig .standard).after requests).template? "t" = some (entry "t" "first") ∧
      (ofConfig .standard).answers requests =
        (ofConfig .standard).answers [.add "t" "first", .add "s" "other", .add "t" "second",
          .template "t"] := by
  intro backwards requests
  exact ⟨(history .standard requests).1.templates "t",
    (history .standard _).2 requests rfl⟩

end Registry

end LineTemplate
