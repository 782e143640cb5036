import Mathlib.Data.List.Nodup
import LineTemplate.Proofs.Failures
import LineTemplate.Proofs.StoredRegistries
import LineTemplate.Stored.Failure

/-!
# Failures that are stored and read back

A failure is stored as a choice between named cases, with a record for each, and a fault as such a
choice inside that of its failure. A case is read back by its own name from its content
(`Json.Document.stores_case`), and what stands inside of it by the law of its own kind.

**The law.** A failure is read back as it was, so that its message and its causes are the same, and
no two failures are stored alike (`Failure.read_as_stored`). Nothing is asked of the texts of a
failure. The number of a line is stored as one of 64 bits.
-/

namespace LineTemplate

open Json

/-! ## Numbers and cases -/

namespace Json

theorem Document.stores_natural {n : Nat} (fits : n < 2 ^ 64) :
    (Document.number (.natural (UInt64.ofNat n))).Stores Raw.natural? n := by
  refine ⟨_, rfl, ?_⟩
  rw [Raw.natural?, quantity?_wholeNumeral]
  exact congrArg some (UInt64.toNat_ofNat_of_lt' fits)

/-- A case is stored with its content, if it is read by its name and from this content. -/
theorem Document.stores_case {α : Type} {name : String} {content : Document} {raw : Raw}
    {read : Raw → Option α} {a : α} (same : content.raw? = some raw)
    (reads : ∀ choice : Raw, choice.choice? = some (name, some raw) → read choice = some a) :
    (Document.object [(name, content)]).Stores read a := by
  refine ⟨.object [(pieces name, raw)], ?_, reads _ ?_⟩
  · simp only [raw?, memberRaws?, same, Option.bind_some, Option.map_some]
  · rw [Raw.choice?, spelled_pieces, Option.map_some]

/-- A case with one text is stored, if it is read by its name and from the field of this text. -/
theorem Document.stores_textCase {α : Type} {name field text : String} {read : Raw → Option α}
    {a : α} (reads : ∀ choice record content : Raw, choice.choice? = some (name, some record) →
      record.onlyField? field = some content → content.text? = some text →
      read choice = some a) :
    (storedCase name [(field, .string text)]).Stores read a := by
  obtain ⟨content, same, text⟩ := Document.stores_string text
  have distinct : (([⟨field, .needed⟩] : List Field).map Field.name).Nodup :=
    List.nodup_singleton field
  obtain ⟨record, whole, found⟩ := Document.exists_record distinct rfl (.cons same .nil)
  refine Document.stores_case whole fun choice chosen => reads choice record content chosen ?_ text
  simp only [Raw.onlyField?, found, List.map_cons, List.map_nil]

end Json

theorem Kind.stores (kind : Kind) : kind.document.Stores Kind.ofRaw? kind := by
  refine ⟨_, rfl, ?_⟩
  simp only [ofRaw?, Raw.bareChoice?, Raw.choice?, spelled_pieces, Option.map_some,
    Option.bind_some, ofTag?_tag]

/-! ## Failures -/

theorem Fault.stores (fault : Fault) : fault.document.Stores Fault.ofRaw? fault := by
  cases fault
  all_goals
    refine Document.stores_textCase fun choice record content chosen found reads => ?_
    simp only [ofRaw?, chosen, found, reads, Option.bind_eq_bind, Option.bind_some,
      Option.pure_def]

theorem ParseFailure.stores {failure : ParseFailure} (fits : failure.line < 2 ^ 64) :
    failure.document.Stores ParseFailure.ofRaw? failure := by
  obtain ⟨line, same, reads⟩ := Document.stores_natural fits
  obtain ⟨fault, same', reads'⟩ := failure.fault.stores
  have distinct : (fields.map Field.name).Nodup := by decide
  obtain ⟨raw, whole, found⟩ :=
    Document.exists_record distinct rfl (.cons same (.cons same' .nil))
  refine ⟨raw, whole, ?_⟩
  simp only [ofRaw?, found, List.map_cons, List.map_nil, Option.bind_eq_bind, Option.bind_some,
    reads, reads', Option.pure_def]

namespace Failure

/-- The number of the line, if there is one, has 64 bits. -/
def Storable (failure : Failure) : Prop :=
  ∀ line, failure.line? = some line → line < 2 ^ 64

variable {failure : Failure}

/-- A container without items is stored with what was found in its place, if there was anything. -/
theorem stores_notIterable {line : Nat} (fits : line < 2 ^ 64) (path : String)
    (kind : Option Kind) :
    (Failure.notIterable line path kind).document.Stores ofRaw? (.notIterable line path kind) := by
  obtain ⟨number, same, reads⟩ := Document.stores_natural fits
  obtain ⟨text, same', reads'⟩ := Document.stores_string path
  obtain ⟨place, same'', reads''⟩ :=
    Document.stores_nullable Kind.stores (fun _ => nofun) kind
  have distinct : (notIterableFields.map Field.name).Nodup := by decide
  obtain ⟨record, whole, found⟩ :=
    Document.exists_record distinct rfl (.cons same (.cons same' (.cons same'' .nil)))
  refine Document.stores_case whole fun choice chosen => ?_
  simp only [ofRaw?, chosen, found, List.map_cons, List.map_nil, Option.bind_eq_bind,
    Option.bind_some, Option.map_some, Option.getD_some, reads, reads', reads'', Option.pure_def]

theorem stores (storable : failure.Storable) : failure.document.Stores ofRaw? failure := by
  cases failure with
  | templateExists | missingTemplate | serialization =>
    refine Document.stores_textCase fun choice record content chosen found reads => ?_
    simp only [ofRaw?, chosen, found, reads, Option.bind_eq_bind, Option.bind_some,
      Option.pure_def]
  | notIterable line path found => exact stores_notIterable (storable line rfl) path found
  | parse failure =>
    obtain ⟨record, whole, reads⟩ := ParseFailure.stores (storable failure.line rfl)
    refine Document.stores_case whole fun choice chosen => ?_
    simp only [ofRaw?, chosen, reads, Option.bind_eq_bind, Option.bind_some, Option.pure_def]

/-- A failure of a render can be stored, if 64 bits count the lines of the template. -/
theorem storable_of_fails {template : Template} {provider : Provider} {config : Config}
    (fails : template.render provider config = .error failure)
    (fits : template.lines.length < 2 ^ 64) : failure.Storable := by
  obtain ⟨line, named, -, inside⟩ := (Template.truthful_of_fails fails).exists_line
  intro other named'
  obtain rfl : line = other := Option.some.inj (named.symm.trans named')
  exact inside.trans_lt fits

theorem ofText?_document (storable : failure.Storable) :
    ofText? failure.document.write = some failure :=
  (stores storable).write

/-- **A failure is read back as it was**, whatever its texts are, and so with its message and its
causes. No other failure is stored as the same text. -/
theorem read_as_stored (storable : failure.Storable) :
    ofText? failure.document.write = some failure ∧
      (ofText? failure.document.write).map message = some failure.message ∧
      (ofText? failure.document.write).map sources = some failure.sources ∧
      ∀ other : Failure, other.Storable →
        other.document.write = failure.document.write → other = failure := by
  have reads := ofText?_document storable
  refine ⟨reads, ?_, ?_, ?_⟩
  · rw [reads, Option.map_some]
  · rw [reads, Option.map_some]
  · intro other storable' alike
    have reads' := ofText?_document storable'
    rw [alike, reads] at reads'
    exact (Option.some.inj reads').symm

/-- The largest number of a line, and a header with a quote, a control character and a letter of two
bytes. The same header under another fault is stored as another text. -/
theorem read_as_stored_parse :
    let failure : Failure := .parse ⟨2 ^ 64 - 1, .malformedLoop "a\"\u0001é"⟩
    let other : Failure := .parse ⟨2 ^ 64 - 1, .malformedCondition "a\"\u0001é"⟩
    failure.Storable ∧ ofText? failure.document.write = some failure ∧
      other.document.write ≠ failure.document.write := by
  intro failure other
  have storable : failure.Storable := by
    rintro line ⟨⟩
    decide
  have storable' : other.Storable := by
    rintro line ⟨⟩
    decide
  obtain ⟨reads, -, -, only⟩ := read_as_stored storable
  have different : other ≠ failure := by decide
  exact ⟨storable, reads, fun alike => different (only other storable' alike)⟩

end Failure

end LineTemplate
