import Mathlib.Data.List.Forall2
import LineTemplate.Proofs.Dictionaries
import LineTemplate.Proofs.Documents
import LineTemplate.Stored.Registry

/-!
# Registries that are stored and read back

What is stored is read back as it was: options, templates, and whole registries
(`Registry.ofJson?_write`). Each of these is a record, and a record is read back field by field
(`Json.Document.exists_record`). The templates of a registry may be written in any order, since a
dictionary is determined by its entries (`Dict.ofList_of_perm`). Of a template the lines are not
stored, and those that are read anew from its text are the same.
-/

namespace LineTemplate

namespace Json

/-- A document stores something, if its raw form is read as that. -/
def Document.Stores {α : Type} (document : Document) (read : Raw → Option α) (a : α) : Prop :=
  ∃ raw, document.raw? = some raw ∧ read raw = some a

theorem Document.Stores.write {α : Type} {document : Document} {read : Raw → Option α} {a : α}
    (stores : document.Stores read a) : (Raw.ofText? document.write).bind read = some a := by
  obtain ⟨raw, same, reads⟩ := stores
  rw [Raw.ofText?_write same, Option.bind_some, reads]

theorem Document.stores_string (s : String) : (Document.string s).Stores Raw.text? s :=
  ⟨_, rfl, spelled_pieces s⟩

/-- What may be missing is stored as it is, or as `null`. -/
theorem Document.stores_nullable {α : Type} {write : α → Document} {read : Raw → Option α}
    (stores : ∀ a, (write a).Stores read a) (given : ∀ a, (write a).raw? ≠ some .null)
    (a : Option α) : ((a.map write).getD .null).Stores (Raw.nullable? read) a := by
  cases a with
  | none => exact ⟨.null, rfl, rfl⟩
  | some a =>
    obtain ⟨raw, same, reads⟩ := stores a
    refine ⟨raw, same, ?_⟩
    rw [Raw.nullable?, reads, Option.map_some]
    rintro rfl
    exact given a same

/-! ## Records -/

/-- Members with written names have these names. -/
theorem Raw.named?_pieces (members : List (String × Raw)) :
    named? (members.map fun (name, content) => (pieces name, content)) = some members := by
  induction members with
  | nil => rfl
  | cons member members ih =>
    simp only [List.map_cons, named?, spelled_pieces, ih, Option.bind_eq_bind, Option.bind_some,
      Option.pure_def]

/-- An entry is the only one of its name, if the names are different. -/
theorem Raw.filter_name {named : List (String × Raw)} (distinct : (named.map Prod.fst).Nodup)
    {name : String} {content : Raw} (member : (name, content) ∈ named) :
    (named.filter fun (other, _) => other == name) = [(name, content)] := by
  induction named with
  | nil => exact (List.not_mem_nil member).elim
  | cons entry named ih =>
    rw [List.map_cons, List.nodup_cons] at distinct
    rcases List.mem_cons.mp member with rfl | later
    · have others : (named.filter fun (other, _) => other == name) = [] := by
        rw [List.filter_eq_nil_iff]
        intro other inside same
        exact distinct.1 (List.mem_map.mpr ⟨other, inside, beq_iff_eq.mp same⟩)
      refine (List.filter_cons_of_pos ?_).trans (congrArg _ others)
      exact beq_self_eq_true name
    · have different : ¬ (entry.1 == name) = true := by
        intro same
        exact distinct.1 (List.mem_map.mpr ⟨_, later, (beq_iff_eq.mp same).symm⟩)
      refine (List.filter_cons_of_neg ?_).trans (ih distinct.2 later)
      exact different

/-- The raw forms of members with the given names. -/
theorem Document.memberRaws?_zip (names : List String) {documents : List Document}
    {contents : List Raw}
    (same : List.Forall₂ (·.raw? = some ·) documents contents) :
    memberRaws? (names.zip documents) =
      some ((names.zip contents).map fun (name, content) => (pieces name, content)) := by
  induction same generalizing names with
  | nil => rw [List.zip_nil_right, List.zip_nil_right]; rfl
  | cons first _ ih =>
    cases names with
    | nil => rfl
    | cons name names =>
      rw [List.zip_cons_cons, memberRaws?, first, ih, Option.bind_some]
      rfl

theorem mapM_of_forall₂ {α β : Type} {read : α → Option β} {as : List α} {bs : List β}
    (reads : List.Forall₂ (fun a b => read a = some b) as bs) : as.mapM read = some bs := by
  induction reads with
  | nil => rfl
  | cons first _ ih => rw [List.mapM_cons, first, ih]; rfl

/-- An object of the fields of a record, in their order, has their contents. -/
theorem Raw.fields?_zip {fields : List Field} (distinct : (fields.map Field.name).Nodup)
    {contents : List Raw} (all : fields.length = contents.length) :
    fields? fields (.object (((fields.map Field.name).zip contents).map
      fun (name, content) => (pieces name, content))) = some (contents.map some) := by
  rw [fields?, named?_pieces, Option.bind_some]
  refine mapM_of_forall₂ (List.forall₂_map_right_iff.mpr (List.forall₂_iff_zip.mpr ⟨all, ?_⟩))
  intro field content member
  have inside : (field.name, content) ∈ (fields.map Field.name).zip contents := by
    rw [List.zip_map_left]
    exact List.mem_map.mpr ⟨_, member, rfl⟩
  have distinct' : (((fields.map Field.name).zip contents).map Prod.fst).Nodup := by
    rwa [List.map_fst_zip (by rw [List.length_map, all])]
  rw [member?, filter_name distinct' inside]

/-- **A record is read back**, field by field. -/
theorem Document.exists_record {fields : List Field} (distinct : (fields.map Field.name).Nodup)
    {documents : List Document} {contents : List Raw} (all : fields.length = contents.length)
    (same : List.Forall₂ (·.raw? = some ·) documents contents) :
    ∃ raw, (Document.object ((fields.map Field.name).zip documents)).raw? = some raw ∧
      raw.fields? fields = some (contents.map some) := by
  refine ⟨_, ?_, Raw.fields?_zip distinct all⟩
  rw [Document.raw?, memberRaws?_zip _ same, Option.map_some]

end Json

/-! ## Options, templates and registries -/

open Json

theorem Strays.stores (strays : Strays) : strays.document.Stores Strays.ofRaw? strays := by
  cases strays with
  | skip => exact ⟨_, rfl, by decide +kernel⟩
  | reject => exact ⟨_, rfl, by decide +kernel⟩

theorem Config.stores (config : Config) : config.document.Stores Config.ofRaw? config := by
  obtain ⟨strays, same, reads⟩ := config.strays.stores
  obtain ⟨separator, same', reads'⟩ := Document.stores_string config.separator
  have distinct : (fields.map Field.name).Nodup := by decide
  obtain ⟨raw, whole, found⟩ :=
    Document.exists_record distinct rfl (.cons same (.cons same' .nil))
  refine ⟨raw, whole, ?_⟩
  simp only [Config.ofRaw?, found, List.map_cons, List.map_nil, Option.bind_eq_bind,
    Option.bind_some, Option.map_some, Option.getD_some, reads, reads', Option.pure_def]

theorem Template.stores (template : Template) :
    template.document.Stores Template.ofRaw? template := by
  obtain ⟨content, _, name, rfl⟩ := template
  obtain ⟨text, same, reads⟩ := Document.stores_string content
  obtain ⟨stored, same', reads'⟩ :=
    Document.stores_nullable Document.stores_string (fun _ => nofun) name
  have distinct : (fields.map Field.name).Nodup := by decide
  obtain ⟨raw, whole, found⟩ :=
    Document.exists_record distinct rfl (.cons same (.cons same' .nil))
  refine ⟨raw, whole, ?_⟩
  simp only [Template.ofRaw?, found, List.map_cons, List.map_nil, Option.bind_eq_bind,
    Option.bind_some, Option.map_some, Option.getD_some, reads, reads', Option.pure_def]
  rfl

namespace Registry

/-- Templates are read back with their names, in the order in which they are written. -/
theorem exists_templateMembers (order : List (String × Template)) :
    ∃ members : List (String × Raw),
      Document.memberRaws? (templateDocuments order) =
        some (members.map fun (name, content) => (pieces name, content)) ∧
      members.mapM (fun (name, raw) => (Template.ofRaw? raw).map (name, ·)) = some order := by
  induction order with
  | nil => exact ⟨[], rfl, rfl⟩
  | cons entry order ih =>
    obtain ⟨name, template⟩ := entry
    obtain ⟨members, same, reads⟩ := ih
    obtain ⟨raw, same', reads'⟩ := template.stores
    refine ⟨(name, raw) :: members, ?_, ?_⟩
    · rw [templateDocuments] at same
      simp only [templateDocuments, List.map_cons, Document.memberRaws?, same', same,
        Option.bind_some, Option.map_some]
    · simp only [List.mapM_cons, reads, reads', Option.map_some, Option.bind_eq_bind,
        Option.bind_some, Option.pure_def]

/-- **A registry is read back as it was**, in whichever order its templates are written. -/
theorem ofJson?_write {registry : Registry} {order : List (String × Template)}
    (perm : order.Perm registry.templates.toList) :
    ofJson? (documentOf registry.config order).write = some registry := by
  obtain ⟨config, same, reads⟩ := registry.config.stores
  obtain ⟨members, listed, readsMembers⟩ := exists_templateMembers order
  let templates : Raw := .object (members.map fun (name, content) => (pieces name, content))
  have same' : (Document.object (templateDocuments order)).raw? = some templates := by
    rw [Document.raw?, listed, Option.map_some]
  have reads' : templatesOfRaw? templates = some registry.templates := by
    simp only [templatesOfRaw?, templates, Raw.named?_pieces, readsMembers, Option.bind_eq_bind,
      Option.bind_some, Option.pure_def, Dict.ofList_of_perm perm]
  have distinct : (fields.map Field.name).Nodup := by decide
  obtain ⟨raw, whole, found⟩ :=
    Document.exists_record distinct rfl (.cons same (.cons same' .nil))
  have stores : (documentOf registry.config order).Stores ofRaw? registry := by
    refine ⟨raw, whole, ?_⟩
    simp only [ofRaw?, found, List.map_cons, List.map_nil, Option.bind_eq_bind, Option.bind_some,
      reads, reads', Option.pure_def]
  exact stores.write

theorem reload?_eq_some (registry : Registry) : registry.reload? = some registry :=
  ofJson?_write (List.Perm.refl _)

end Registry

end LineTemplate
