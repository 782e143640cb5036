import LineTemplate.Model
import LineTemplate.Proofs.Parts
import LineTemplate.Value.Same

/-!
# Values that are told and taken back

A value that is told as a model comes back as its normal form (`Value.normal`): characters are
texts, packed arrays are lists, and floating-point numbers that are not finite are `null`. The way
there has two halves. The model of a value has the document of the value (`document?_model`), and
this document is the normal form as a value (`ofDocument_document`).

**The law** (`Value.model_normalizes`): every value comes back, as its normal form, in which whole
numbers and finite floating-point numbers stand where they stood. It comes back as it was exactly
when it is plain, that is, when it contains nothing of the three kinds that change.
-/

namespace LineTemplate

open Number Json

/-! ## Normal forms -/

/-- The value of a floating-point number that can be written. -/
def Value.ofFloat (x : Binary64) : Value :=
  if x.isFinite then .float x else .null

/-- The normal form of a scalar. -/
def Scalar.normal : Scalar → Value
  | .bool b => .bool b
  | .int n => .int n
  | .float x => .ofFloat x
  | .char c => .string c.toString

namespace Value

mutual

/-- The value with characters as texts, packed arrays as lists, and `null` for the floating-point
numbers that are not finite. -/
def normal : Value → Value
  | .null => .null
  | .bool b => (Scalar.bool b).normal
  | .int n => (Scalar.int n).normal
  | .float x => (Scalar.float x).normal
  | .char c => (Scalar.char c).normal
  | .string s => .string s
  | .list items => .list (normalItems items)
  | .array items => .list (items.scalars.map Scalar.normal)
  | .map entries => .map (normalEntries entries)

/-- The normal forms of the items of a list. -/
def normalItems : List Value → List Value
  | [] => []
  | item :: items => normal item :: normalItems items

/-- The normal forms of the entries of a map. -/
def normalEntries : {low : Option String} → Entries Value low → Entries Value low
  | _, .nil => .nil
  | _, .cons name behind value entries =>
    .cons name behind (normal value) (normalEntries entries)

end

-- What becomes of a value that has no parts is read off the definitions.
attribute [local simp] normal model document ofDocument same Scalar.normal Scalar.document

theorem normal_ofScalar (scalar : Scalar) : (ofScalar scalar).normal = scalar.normal := by
  cases scalar <;> simp [ofScalar]

theorem normal_list (items : List Value) : (list items).normal = .list (items.map normal) := by
  rw [normal, eq_map_of_cons normalItems.eq_1 normalItems.eq_2]

/-- An array becomes the list of its items, each in its normal form. -/
theorem normal_array (items : Packed) :
    (array items).normal = .list ((items.scalars.map ofScalar).map normal) := by
  rw [normal, List.map_map]
  congr 1
  exact List.map_congr_left fun scalar _ => (normal_ofScalar scalar).symm

theorem normal_map (entries : Dict Value) :
    (map entries).normal = .map (entries.map normal) := by
  rw [normal, Entries.eq_map_of_cons (normalEntries.eq_1 _) (normalEntries.eq_2 _)]

theorem normal_float (x : Binary64) : (float x).normal = ofFloat x := by
  simp

theorem normal_ofFloat (x : Binary64) : (ofFloat x).normal = ofFloat x := by
  by_cases finite : x.isFinite = true
  · rw [ofFloat, if_pos finite, normal_float, ofFloat, if_pos finite]
  · simp [ofFloat, finite]

theorem normal_normal_ofScalar (scalar : Scalar) :
    (ofScalar scalar).normal.normal = (ofScalar scalar).normal := by
  rw [normal_ofScalar]
  cases scalar with
  | float x => exact normal_ofFloat x
  | _ => simp

/-- **A normal form is its own normal form.** -/
theorem normal_normal (v : Value) : v.normal.normal = v.normal := by
  induction v with
  | float x => rw [normal_float, normal_ofFloat]
  | list items ih =>
    rw [normal_list, normal_list, List.map_map]
    exact congrArg list (List.map_congr_left ih)
  | array items =>
    rw [normal_array, normal_list, List.map_map, List.map_map, List.map_map]
    exact congrArg list (List.map_congr_left fun scalar _ => normal_normal_ofScalar scalar)
  | map entries ih =>
    rw [normal_map, normal_map, Entries.map_map]
    exact congrArg map (Entries.map_congr ih)
  | _ => simp

/-! ## There and back -/

theorem itemDocuments?_map {α : Type} {model : α → Model} {document : α → Document} {as : List α}
    (each : ∀ a ∈ as, (model a).document? = .ok (document a)) :
    Model.itemDocuments? (as.map model) = .ok (as.map document) := by
  induction as with
  | nil => rfl
  | cons a as ih =>
    rw [List.forall_mem_cons] at each
    rw [List.map_cons, Model.itemDocuments?, each.1, ih each.2]
    rfl

theorem entryDocuments?_map {low : Option String} {entries : Entries Value low}
    (each : ∀ entry ∈ entries.toList, entry.2.model.document? = .ok entry.2.document) :
    Model.entryDocuments? (entryModels entries) = .ok (entries.map document).toList := by
  induction entries with
  | nil => rfl
  | cons name behind value entries ih =>
    rw [Entries.toList_cons, List.forall_mem_cons] at each
    rw [entryModels, Model.entryDocuments?, each.1, ih each.2]
    rfl

theorem itemModels_eq (items : List Value) : itemModels items = items.map model :=
  eq_map_of_cons itemModels.eq_1 itemModels.eq_2 items

theorem itemDocuments_eq (items : List Value) : itemDocuments items = items.map document :=
  eq_map_of_cons itemDocuments.eq_1 itemDocuments.eq_2 items

theorem entryDocuments_eq {low : Option String} (entries : Entries Value low) :
    entryDocuments entries = (entries.map document).toList := by
  induction entries with
  | nil => rw [entryDocuments, Entries.map, Entries.toList_nil]
  | cons name behind value entries ih =>
    rw [entryDocuments, ih, Entries.map, Entries.toList_cons]

theorem ofItemDocuments_eq (items : List Document) :
    ofItemDocuments items = items.map ofDocument :=
  eq_map_of_cons ofItemDocuments.eq_1 ofItemDocuments.eq_2 items

theorem ofMemberDocuments_toList (members : Dict Document) :
    ofMemberDocuments members.toList = (members.map ofDocument).toList := by
  rw [Entries.toList_map]
  exact eq_map_of_cons ofMemberDocuments.eq_1
    (fun member => ofMemberDocuments.eq_2 member.1 member.2) members.toList

theorem document?_scalar (scalar : Scalar) : scalar.model.document? = .ok scalar.document := by
  cases scalar <;> rfl

/-- **The model of a value has the document of the value.** The entries of a map stay in their
order, which is that of their names. -/
theorem document?_model (v : Value) : v.model.document? = .ok v.document := by
  induction v with
  | null => rfl
  | bool b => exact document?_scalar (.bool b)
  | int n => exact document?_scalar (.int n)
  | float x => exact document?_scalar (.float x)
  | char c => exact document?_scalar (.char c)
  | string s => rfl
  | list items ih =>
    rw [model, document, Model.document?, itemModels_eq, itemDocuments?_map ih, itemDocuments_eq]
    rfl
  | array items =>
    have each : Model.itemDocuments? (items.scalars.map Scalar.model) =
        .ok (items.scalars.map Scalar.document) :=
      itemDocuments?_map fun scalar _ => document?_scalar scalar
    rw [model, document, Model.document?, each]
    rfl
  | map entries ih =>
    rw [model, document, Model.document?, entryDocuments?_map ih, entryDocuments_eq]
    exact congrArg (fun members : Dict Document => Except.ok (Document.object members.toList))
      (Dict.ofList_toList _)

/-- A whole number that is not negative fits into the range of `int` again. -/
theorem toUInt64_lt {n : Int64} (positive : ¬ n < 0) : n.toUInt64.toNat < twoTo 63 := by
  have half : twoTo 63 = 9223372036854775808 := by decide +kernel
  have zero : (0 : Int64).toInt = 0 := rfl
  have nonnegative := Int64.lt_iff_toInt_lt.not.mp positive
  have bits : n.toUInt64.toNat = n.toBitVec.toNat := rfl
  have signed : n.toInt = n.toBitVec.toInt := rfl
  rw [BitVec.toInt_eq_toNat_cond] at signed
  have bound := n.toBitVec.isLt
  split at signed <;> omega

/-- **Whole numbers come back as they are**, up to both ends of their range. -/
theorem ofDocument_int (n : Int64) : ofDocument (Document.int n) = .int n := by
  unfold Document.int
  split
  · rw [ofDocument, ofQuantity]
  next positive =>
    rw [ofDocument, ofQuantity, if_pos (toUInt64_lt positive), Int64.toInt64_toUInt64]

theorem ofDocument_float (x : Binary64) : ofDocument (Document.float x) = ofFloat x := by
  unfold Document.float ofFloat
  split
  · rw [ofDocument, ofQuantity]
  · rw [ofDocument]

theorem ofDocument_scalar (scalar : Scalar) : ofDocument scalar.document = scalar.normal := by
  cases scalar with
  | int n => exact ofDocument_int n
  | float x => exact ofDocument_float x
  | _ => simp

/-- **The document of a value is its normal form**, as a value. -/
theorem ofDocument_document (v : Value) : ofDocument v.document = v.normal := by
  induction v with
  | int n => rw [document, ofDocument_scalar, normal]
  | float x => rw [document, ofDocument_scalar, normal]
  | list items ih =>
    rw [document, ofDocument, itemDocuments_eq, ofItemDocuments_eq, List.map_map, normal_list]
    exact congrArg list (List.map_congr_left ih)
  | array items =>
    rw [document, ofDocument, ofItemDocuments_eq, List.map_map, normal]
    exact congrArg list (List.map_congr_left fun scalar _ => ofDocument_scalar scalar)
  | map entries ih =>
    rw [document, ofDocument, entryDocuments_eq, ofMemberDocuments_toList, Dict.ofList_toList,
      Entries.map_map, normal_map]
    exact congrArg map (Entries.map_congr ih)
  | _ => simp

theorem ofModel?_model (v : Value) : Value.ofModel? v.model = .ok v.normal := by
  rw [ofModel?, document?_model]
  exact congrArg Except.ok (ofDocument_document v)

/-! ## Parts of normal forms -/

theorem items?_normal (v : Value) : v.normal.items? = v.items?.map (List.map normal) := by
  cases v with
  | float x =>
    rw [normal_float, ofFloat]
    split <;> rfl
  | list items => rw [normal_list]; rfl
  | array items => rw [normal_array]; rfl
  | map entries => rw [normal_map]; rfl
  | _ => simp [items?]

theorem entries?_normal (v : Value) :
    v.normal.entries? = v.entries?.map (Entries.map normal) := by
  cases v with
  | float x =>
    rw [normal_float, ofFloat]
    split <;> rfl
  | list items => rw [normal_list]; rfl
  | array items => rw [normal_array]; rfl
  | map entries => rw [normal_map]; rfl
  | _ => simp [entries?]

theorem part?_normal (v : Value) (place : Place) :
    v.normal.part? place = (v.part? place).map normal := by
  cases place with
  | item index =>
    rw [part?, part?, items?_normal]
    cases v.items? with
    | none => rfl
    | some items => exact List.getElem?_map
  | entry name =>
    rw [part?, part?, entries?_normal]
    cases v.entries? with
    | none => rfl
    | some entries => exact Entries.get?_map normal name entries

/-- **The parts of a normal form are the normal forms of the parts**, each at its place. -/
theorem at?_normal (v : Value) (path : List Place) :
    v.normal.at? path = (v.at? path).map normal := by
  induction path generalizing v with
  | nil => rfl
  | cons place path ih =>
    rw [at?, at?, part?_normal]
    cases v.part? place with
    | none => rfl
    | some part => exact ih part

theorem normal_eq_int_iff {v : Value} {n : Int64} : v.normal = .int n ↔ v = .int n := by
  cases v with
  | float x =>
    rw [normal_float, ofFloat]
    split <;> exact ⟨nofun, nofun⟩
  | _ => simp

theorem normal_eq_float_iff {v : Value} {x : Binary64} :
    v.normal = .float x ↔ v = .float x ∧ x.isFinite = true := by
  cases v with
  | float y =>
    rw [normal_float, ofFloat]
    split
    next finite => exact ⟨fun same => ⟨same, float.inj same ▸ finite⟩, And.left⟩
    next infinite => exact ⟨nofun, fun ⟨same, finite⟩ => (infinite (float.inj same ▸ finite)).elim⟩
  | _ => simp

/-- A whole number stands where one stood, and nowhere else. -/
theorem at?_normal_int (v : Value) (path : List Place) (n : Int64) :
    v.normal.at? path = some (.int n) ↔ v.at? path = some (.int n) := by
  simp only [at?_normal, Option.map_eq_some_iff, normal_eq_int_iff, exists_eq_right]

theorem at?_normal_float (v : Value) (path : List Place) (x : Binary64) :
    v.normal.at? path = some (.float x) ↔ v.at? path = some (.float x) ∧ x.isFinite = true := by
  simp only [at?_normal, Option.map_eq_some_iff, normal_eq_float_iff]
  constructor
  · rintro ⟨part, found, rfl, finite⟩
    exact ⟨found, finite⟩
  · rintro ⟨found, finite⟩
    exact ⟨_, found, rfl, finite⟩

/-! ## Plain values -/

/-- The value contains no character, no packed array and no floating-point number that is not
finite, at any depth. -/
structure Plain (v : Value) : Prop where
  noChar : ∀ c, ¬ v.Contains (.char c)
  noArray : ∀ items, ¬ v.Contains (.array items)
  finite : ∀ x, v.Contains (.float x) → x.isFinite = true

theorem Plain.of_part? {v part : Value} (plain : v.Plain) {place : Place}
    (found : v.part? place = some part) : part.Plain where
  noChar c contains := plain.noChar c (contains.of_part? found)
  noArray items contains := plain.noArray items (contains.of_part? found)
  finite x contains := plain.finite x (contains.of_part? found)

/-- A plain value is in its normal form. -/
theorem Plain.normal_eq {v : Value} (plain : v.Plain) : v.normal = v := by
  induction v with
  | float x => rw [normal_float, ofFloat, if_pos (plain.finite x (contains_self _))]
  | char c => exact (plain.noChar c (contains_self _)).elim
  | list items ih =>
    have each : items.map normal = items := by
      refine map_eq_self_iff.mpr fun item member => ?_
      obtain ⟨place, found⟩ := exists_place_of_item member
      exact ih item member (plain.of_part? found)
    rw [normal_list, each]
  | array items => exact (plain.noArray items (contains_self _)).elim
  | map entries ih =>
    have each : entries.map normal = entries := by
      refine Entries.map_eq_self_iff.mpr fun entry member => ?_
      obtain ⟨place, found⟩ := exists_place_of_entry member
      exact ih entry member (plain.of_part? found)
    rw [normal_map, each]
  | _ => simp

/-- A value in its normal form is plain, since each part is in its normal form. -/
theorem plain_of_normal_eq {v : Value} (same : v.normal = v) : v.Plain := by
  have parts {part : Value} (contains : v.Contains part) : part.normal = part := by
    obtain ⟨path, leads⟩ := contains
    have found := at?_normal v path
    rw [same, leads, Option.map_some] at found
    exact (Option.some.inj found).symm
  refine ⟨fun c contains => ?_, fun items contains => ?_, fun x contains => ?_⟩
  · exact absurd (parts contains) (by simp)
  · exact absurd (parts contains) (by simp)
  · exact (normal_eq_float_iff.mp (parts contains)).2

/-- **The plain values are those in their normal form.** -/
theorem normal_eq_self_iff {v : Value} : v.normal = v ↔ v.Plain :=
  ⟨plain_of_normal_eq, Plain.normal_eq⟩

/-! ## Normal forms that compare as the same -/

theorem sameItems_map (f : Value → Value) (items : List Value) :
    sameItems (items.map f) items = true ↔ ∀ item ∈ items, (f item).same item = true := by
  induction items with
  | nil => simp only [List.map_nil, sameItems, List.not_mem_nil, false_implies, implies_true]
  | cons item items ih =>
    rw [List.map_cons, sameItems, Bool.and_eq_true, ih, List.forall_mem_cons]

theorem sameEntries_map (f : Value → Value) {low : Option String} (entries : Entries Value low) :
    sameEntries (entries.map f) entries = true ↔
      ∀ entry ∈ entries.toList, (f entry.2).same entry.2 = true := by
  induction entries with
  | nil => simp [Entries.map, sameEntries]
  | cons name behind value entries ih =>
    rw [Entries.toList_cons, List.forall_mem_cons, ← ih, Entries.map, sameEntries,
      beq_self_eq_true, Bool.true_and, Bool.and_eq_true]

/-- A finite number is the same as itself. -/
theorem same_self_of_finite {f : Format} {x : Binary f} (finite : x.isFinite = true) :
    Binary.same x x = true := by
  cases x with
  | finite negative exponent fraction => simp [Binary.same]
  | _ => exact nomatch finite

/-- To compare as the same as one's normal form is to be in it: the numbers that differ from
themselves are not there any more. -/
theorem same_normal_iff (v : Value) : v.normal.same v = true ↔ v.normal = v := by
  induction v with
  | float x =>
    rw [normal_float, ofFloat]
    split
    next finite => simp [same_self_of_finite finite]
    next => simp
  | list items ih =>
    rw [normal_list, same, sameItems_map, list.injEq, map_eq_self_iff]
    exact forall₂_congr ih
  | map entries ih =>
    rw [normal_map, same, sameEntries_map, map.injEq, Entries.map_eq_self_iff]
    exact forall₂_congr ih
  | _ => simp

end Value

/-- The root values of a map that is told as a model are its entries, in their normal form. -/
theorem Table.ofModel?_map (entries : Dict Value) :
    Table.ofModel? (Value.map entries).model = ⟨.ok ⟨entries.map Value.normal⟩, []⟩ := by
  rw [Table.ofModel?, Value.ofModel?_model, Value.normal_map]

theorem Table.ofModel?_of_noEntries {v : Value} (none : v.entries? = none) :
    Table.ofModel? v.model = ⟨.ok .empty, [.modelNotMap v.normal.kind]⟩ := by
  have none' : v.normal.entries? = Option.none := by
    rw [Value.entries?_normal, none, Option.map_none]
  rw [Table.ofModel?, Value.ofModel?_model]
  cases normal : v.normal with
  | map entries => rw [normal] at none'; exact nomatch none'
  | _ => rfl

/-- **Every value comes back as its normal form**, and as it was exactly if it is plain. Whole
numbers and finite floating-point numbers stay what they are, at every depth. A map is the root of a
table again, with its values in their normal form; any other value gives the empty table. -/
theorem Value.model_normalizes (v : Value) :
    Value.ofModel? v.model = .ok v.normal ∧
      v.normal.normal = v.normal ∧
      (v.normal = v ↔ v.Plain) ∧
      (v.normal.same v = true ↔ v.Plain) ∧
      (∀ path n, v.normal.at? path = some (.int n) ↔ v.at? path = some (.int n)) ∧
      (∀ path x, v.normal.at? path = some (.float x) ↔
        v.at? path = some (.float x) ∧ x.isFinite = true) ∧
      (∀ entries, v = .map entries → v.normal = .map (entries.map Value.normal) ∧
        Table.ofModel? v.model = ⟨.ok ⟨entries.map Value.normal⟩, []⟩) ∧
      (v.kind ≠ .map → Table.ofModel? v.model = ⟨.ok .empty, [.modelNotMap v.normal.kind]⟩) := by
  refine ⟨ofModel?_model v, normal_normal v, normal_eq_self_iff,
    (same_normal_iff v).trans normal_eq_self_iff, at?_normal_int v, at?_normal_float v, ?_, ?_⟩
  · rintro entries rfl
    exact ⟨normal_map entries, Table.ofModel?_map entries⟩
  · intro noMap
    refine Table.ofModel?_of_noEntries ?_
    cases v with
    | map entries => exact (noMap rfl).elim
    | _ => rfl

/-- Both ends of the range of whole numbers in a packed array, and a list with a floating-point
number that is whole and far out of that range, an infinity, an array of characters, and `null`. -/
theorem Value.model_normalizes_mixed :
    let huge : Binary64 := .finite false ⟨2046, by decide⟩ ⟨0, by decide⟩
    let v : Value := .ofEntries [("codes", .array (.longs [Int64.minValue, Int64.maxValue])),
      ("parts", .list [.float huge, .float (.infinity true), .array (.chars ['x']), .null])]
    Value.ofModel? v.model = .ok (.ofEntries
        [("codes", .list [.int Int64.minValue, .int Int64.maxValue]),
          ("parts", .list [.float huge, .null, .list [.string "x"], .null])]) ∧
      v.normal.at? [.entry "codes", .item 1] = some (.int Int64.maxValue) ∧
      v.normal.at? [.entry "parts", .item 0] = some (.float huge) ∧
      ¬ v.Plain := by
  intro huge v
  obtain ⟨comes, -, -, plain, ints, floats, -⟩ := Value.model_normalizes v
  have differ : v.normal.same v = false := by rfl
  refine ⟨comes.trans ?_, (ints _ _).mpr rfl, (floats _ _).mpr ⟨rfl, rfl⟩, ?_⟩
  · rfl
  · rw [← plain, differ]
    exact nofun

end LineTemplate
