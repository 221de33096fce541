import Taxonomy.Document.Reader
import Taxonomy.Proofs.JsonReading

/-!
# Only whole texts are documents

A decoder stops at the first fault, so it may never get to a break further behind. If it accepts a
value, though, it has gone through all of it: there is no break in the value. Hence a text that is
accepted as a document is readable from its beginning to its end.
-/
namespace Taxonomy.Document

open Json (Value)

/-! ## Simple values -/

section Whole

variable {α : Type}

/-- The decoder accepts nothing with a break in it. -/
def WholeOnly (decode : Decoder α) : Prop :=
  ∀ ⦃value content⦄, decode value = .ok content → value.whole = .ok ()

/-- A refusal is never a result: either it tells what was wanted, or the break it met. -/
theorem refuse_ne_ok (wanted : Wanted) (value : Value) (content : α) :
    refuse wanted value ≠ .ok content := by
  unfold refuse
  split <;> simp

/-- To hand a break on as a fault changes nothing about a result. -/
theorem liftBreak_ok_iff (outcome : Except Json.Break α) (content : α) :
    liftBreak outcome = .ok content ↔ outcome = .ok content := by
  cases outcome <;> simp [liftBreak]

/-- Texts are single tokens. -/
theorem text_wholeOnly : WholeOnly text := by
  intro value content accepted
  unfold text at accepted
  split at accepted
  · rfl
  · exact absurd accepted (refuse_ne_ok _ _ _)

/-- Flags are single tokens. -/
theorem flag_wholeOnly : WholeOnly flag := by
  intro value content accepted
  unfold flag at accepted
  split at accepted
  · rfl
  · exact absurd accepted (refuse_ne_ok _ _ _)

/-- Counts are single tokens. -/
theorem count_wholeOnly : WholeOnly count := by
  intro value content accepted
  unfold count at accepted
  split at accepted
  · rfl
  · rfl
  · exact absurd accepted (refuse_ne_ok _ _ _)

/-- A list goes through all its items, and then looks whether the array was closed. -/
theorem list_wholeOnly {item : Decoder α} (each : WholeOnly item) : WholeOnly (list item) := by
  intro value contents accepted
  unfold list at accepted
  split at accepted
  · simp only [Outcome.bind_ok_iff, liftBreak_ok_iff] at accepted
    obtain ⟨_, decoded, _, closed, _⟩ := accepted
    rw [Outcome.mapM_ok_iff] at decoded
    rw [Value.whole_array_iff, ← Value.check_ok_iff]
    refine ⟨fun item member => ?_, closed⟩
    obtain ⟨_, _, ok⟩ := Outcome.forall₂_mem decoded member
    exact each ok
  · exact absurd accepted (refuse_ne_ok _ _ _)

/-- Null is a single token, and everything else is left to the decoder. -/
theorem nullable_wholeOnly {decode : Decoder α} (wholeOnly : WholeOnly decode) :
    WholeOnly (nullable decode) := by
  intro value content accepted
  unfold nullable at accepted
  split at accepted
  · rfl
  · obtain ⟨_, decoded, _⟩ := (Outcome.bind_ok_iff _ _ _).mp accepted
    exact wholeOnly decoded

/-- There is nothing left in an array or an object exactly if it was closed. -/
theorem checkLast_ok_iff (ending : Json.Ending) : ending.checkLast = .ok () ↔ ending = .closed := by
  rcases ending with _ | ⟨_ | _, why⟩ <;> simp [Json.Ending.checkLast]

/-- The object of a member's kind has null under its only key. -/
theorem memberKindReading_wholeOnly : WholeOnly memberKindReading := by
  intro value kind accepted
  unfold memberKindReading at accepted
  split at accepted
  · rfl
  · simp at accepted
  · simp only [Outcome.bind_ok_iff] at accepted
    obtain ⟨_, _, _, isUnit, rest⟩ := accepted
    split at rest
    · rename_i noMore
      obtain ⟨closed, _⟩ := (Outcome.check_ok_iff _ _ _).mp rest
      rw [liftBreak_ok_iff, checkLast_ok_iff] at closed
      unfold unitReading at isUnit
      split at isUnit
      · rw [closed, List.isEmpty_iff.mp noMore]
        rfl
      · exact absurd isUnit (refuse_ne_ok _ _ _)
    · simp at rest
  · simp at accepted
  · simp at accepted

/-- A publicity is written as a flag or a text. -/
theorem Publicity.decode_wholeOnly : WholeOnly Publicity.decode := by
  intro value content accepted
  unfold Publicity.decode at accepted
  split at accepted
  · rfl
  · rfl
  · simp [Outcome.bind_ok_iff] at accepted

/-! ## Records -/

/-- The field accepts nothing with a break in it. -/
def Field.WholeOnly (field : Field) : Prop :=
  ∀ value, field.check value = .ok () → value.whole = .ok ()

/-- The field of a column accepts what the column can decode. -/
theorem Column.check_ok_iff (column : Column α) (value : Value) :
    column.field.check value = .ok () ↔ ∃ content, column.decode value = .ok content := by
  cases decoded : column.decode value <;>
    simp [Column.field, decoded, bind, Except.bind, pure, Except.pure]

/-- Hence it accepts nothing with a break in it, if the decoder of the column does not. -/
theorem Column.field_wholeOnly {column : Column α} (wholeOnly : WholeOnly column.decode) :
    column.field.WholeOnly := by
  intro value accepted
  obtain ⟨content, decoded⟩ := (column.check_ok_iff value).mp accepted
  exact wholeOnly decoded

/-- An entry is accepted if it is unknown to a record that is not strict, or belongs to a field that
has not been given before and accepts it. -/
theorem checkEntries_cons_ok_iff (fields : List Field) (strict : Bool) (seen : List String)
    (key : String) (value : Value) (entries : List (String × Value)) :
    checkEntries fields strict seen ((key, value) :: entries) = .ok () ↔
      (fields.find? (fun field => field.name == key) = none ∧ strict = false ∧
        checkEntries fields strict seen entries = .ok ()) ∨
      ∃ field, fields.find? (fun field => field.name == key) = some field ∧ key ∉ seen ∧
        field.check value = .ok () ∧ checkEntries fields strict (key :: seen) entries = .ok () := by
  rw [checkEntries]
  cases fields.find? fun field => field.name == key with
  | none => cases strict <;> simp
  | some field => by_cases given : key ∈ seen <;> simp [given, Outcome.check_ok_iff]

/-- A strict record checks every entry of an object. -/
theorem checkEntries_wholeOnly {fields : List Field} (each : ∀ field ∈ fields, field.WholeOnly)
    {seen : List String} {entries : List (String × Value)}
    (accepted : checkEntries fields true seen entries = .ok ()) :
    ∀ entry ∈ entries, entry.2.whole = .ok () := by
  induction entries generalizing seen with
  | nil => exact fun _ member => absurd member List.not_mem_nil
  | cons entry entries inductionHypothesis =>
    rcases (checkEntries_cons_ok_iff ..).mp accepted with
      ⟨_, loose, _⟩ | ⟨field, found, _, checked, rest⟩
    · simp at loose
    · exact List.forall_mem_cons.mpr
        ⟨each field (List.mem_of_find?_eq_some found) entry.2 checked, inductionHypothesis rest⟩

/-- Every item of a record that is written as an array belongs to a field. -/
theorem checkItems_wholeOnly {phase : Phase} {kind : RecordKind} {width : Nat}
    {ending : Json.Ending} {fields : List Field} (each : ∀ field ∈ fields, field.WholeOnly)
    {index : Nat} {items : List Value}
    (accepted : checkItems phase kind width ending index fields items = .ok ()) :
    (∀ item ∈ items, item.whole = .ok ()) ∧ ending = .closed := by
  induction fields generalizing index items with
  | nil =>
    cases items with
    | nil => exact ⟨by simp, (checkLast_ok_iff _).mp ((liftBreak_ok_iff _ _).mp accepted)⟩
    | cons item items => cases phase <;> simp [checkItems] at accepted
  | cons field fields inductionHypothesis =>
    obtain ⟨head, tail⟩ := List.forall_mem_cons.mp each
    cases items with
    | nil =>
      simp only [checkItems] at accepted
      obtain ⟨closed, _⟩ := (Outcome.check_ok_iff _ _ _).mp accepted
      exact ⟨by simp, (Value.check_ok_iff _).mp ((liftBreak_ok_iff _ _).mp closed)⟩
    | cons item items =>
      simp only [checkItems] at accepted
      obtain ⟨checked, rest⟩ := (Outcome.check_ok_iff _ _ _).mp accepted
      obtain ⟨others, closed⟩ := inductionHypothesis tail rest
      exact ⟨List.forall_mem_cons.mpr ⟨head item checked, others⟩, closed⟩

/-- A record is read from an object or an array, and either way every part of it belongs to a field.
The decoders of the records differ in what they build from the entries, and that does not matter
here. -/
theorem record_wholeOnly {phase : Phase} {kind : RecordKind} {fields : List Field}
    (each : ∀ field ∈ fields, field.WholeOnly) {decode : Decoder α}
    {build : List (String × Value) → Except Fault α}
    (steps : ∀ value, decode value = record phase kind fields value >>= build) :
    WholeOnly decode := by
  intro value content accepted
  rw [steps] at accepted
  obtain ⟨entries, checked, _⟩ := (Outcome.bind_ok_iff _ _ _).mp accepted
  unfold record at checked
  split at checked
  · simp only [Outcome.bind_ok_iff, liftBreak_ok_iff] at checked
    obtain ⟨_, fit, _, closed, _⟩ := checked
    exact (Value.whole_object_iff _ _).mpr
      ⟨checkEntries_wholeOnly each fit, (Value.check_ok_iff _).mp closed⟩
  · obtain ⟨fit, _⟩ := (Outcome.check_ok_iff _ _ _).mp checked
    exact (Value.whole_array_iff _ _).mpr (checkItems_wholeOnly each fit)
  · exact absurd checked (refuse_ne_ok _ _ _)

end Whole

/-! ## Documents -/

/-- Most columns that can be left out hold a text. -/
theorem optionalText_wholeOnly : WholeOnly (nullable text) :=
  nullable_wholeOnly text_wholeOnly

/-- Every column of a member goes through its value. -/
theorem Member.decode_wholeOnly : WholeOnly (Member.decode .reading) := by
  refine record_wholeOnly ?_ fun _ => rfl
  simp only [Member.fields, List.forall_mem_cons]
  exact ⟨Column.field_wholeOnly text_wholeOnly, Column.field_wholeOnly memberKindReading_wholeOnly,
    Column.field_wholeOnly text_wholeOnly, Column.field_wholeOnly flag_wholeOnly,
    Column.field_wholeOnly flag_wholeOnly, Column.field_wholeOnly optionalText_wholeOnly,
    Column.field_wholeOnly optionalText_wholeOnly, fun _ member => absurd member List.not_mem_nil⟩

/-- Every column of a type goes through its value, also the one of the members. -/
theorem TypeDef.decode_wholeOnly : WholeOnly TypeDef.decode := by
  refine record_wholeOnly ?_ fun _ => rfl
  simp only [TypeDef.fields, List.forall_mem_cons]
  exact ⟨Column.field_wholeOnly text_wholeOnly, Column.field_wholeOnly optionalText_wholeOnly,
    Column.field_wholeOnly flag_wholeOnly, Column.field_wholeOnly optionalText_wholeOnly,
    Column.field_wholeOnly optionalText_wholeOnly,
    Column.field_wholeOnly (list_wholeOnly Member.decode_wholeOnly),
    Column.field_wholeOnly optionalText_wholeOnly,
    Column.field_wholeOnly (nullable_wholeOnly Publicity.decode_wholeOnly),
    fun _ member => absurd member List.not_mem_nil⟩

/-- Every column of a tag enumeration goes through its value. -/
theorem Tag.decode_wholeOnly : WholeOnly Tag.decode := by
  refine record_wholeOnly ?_ fun _ => rfl
  simp only [Tag.fields, List.forall_mem_cons]
  exact ⟨Column.field_wholeOnly text_wholeOnly, Column.field_wholeOnly text_wholeOnly,
    Column.field_wholeOnly (nullable_wholeOnly count_wholeOnly),
    Column.field_wholeOnly optionalText_wholeOnly, fun _ member => absurd member List.not_mem_nil⟩

namespace Variant

/-- The kind of a variant is a single token. -/
theorem kind_wholeOnly : WholeOnly kind := by
  intro value content accepted
  unfold kind at accepted
  split at accepted
  · rfl
  · exact absurd accepted (refuse_ne_ok _ _ _)

/-- The search for the kind goes through all entries. -/
theorem findKind_wholeOnly {found result : Option VariantKind} {entries : List (String × Value)}
    (accepted : findKind found entries = .ok result) :
    ∀ entry ∈ entries, entry.2.whole = .ok () := by
  induction entries generalizing found with
  | nil => exact fun _ member => absurd member List.not_mem_nil
  | cons entry entries inductionHypothesis =>
    simp only [findKind] at accepted
    split at accepted
    · split at accepted
      · simp at accepted
      · obtain ⟨_, decoded, rest⟩ := (Outcome.bind_ok_iff _ _ _).mp accepted
        exact List.forall_mem_cons.mpr ⟨kind_wholeOnly decoded, inductionHypothesis rest⟩
    · obtain ⟨whole, rest⟩ := (Outcome.check_ok_iff _ _ _).mp accepted
      exact List.forall_mem_cons.mpr
        ⟨(liftBreak_ok_iff _ _).mp whole, inductionHypothesis rest⟩

/-- A variant has gone through its object when it has found its kind. What it then builds from the
entries does not matter. -/
theorem decode_wholeOnly : WholeOnly Variant.decode := by
  intro value variant accepted
  unfold Variant.decode at accepted
  split at accepted
  · obtain ⟨_, found, rest⟩ := (Outcome.bind_ok_iff _ _ _).mp accepted
    obtain ⟨closed, _⟩ := (Outcome.check_ok_iff _ _ _).mp rest
    rw [liftBreak_ok_iff, Value.check_ok_iff] at closed
    exact (Value.whole_object_iff _ _).mpr ⟨findKind_wholeOnly found, closed⟩
  · simp [Outcome.bind_ok_iff] at accepted
  · simp [Outcome.bind_ok_iff] at accepted
  · exact absurd accepted (refuse_ne_ok _ _ _)

end Variant

/-- Every column of a union goes through its value, also the one of the variants. -/
theorem Union.decode_wholeOnly : WholeOnly Union.decode := by
  refine record_wholeOnly ?_ fun _ => rfl
  simp only [Union.fields, List.forall_mem_cons]
  exact ⟨Column.field_wholeOnly text_wholeOnly, Column.field_wholeOnly Tag.decode_wholeOnly,
    Column.field_wholeOnly optionalText_wholeOnly,
    Column.field_wholeOnly (list_wholeOnly Variant.decode_wholeOnly),
    Column.field_wholeOnly optionalText_wholeOnly, Column.field_wholeOnly optionalText_wholeOnly,
    Column.field_wholeOnly optionalText_wholeOnly, Column.field_wholeOnly optionalText_wholeOnly,
    Column.field_wholeOnly optionalText_wholeOnly, Column.field_wholeOnly flag_wholeOnly,
    fun _ member => absurd member List.not_mem_nil⟩

/-- A document is a record of a list of types and a list of unions. -/
theorem decode_wholeOnly : WholeOnly Document.decode := by
  refine record_wholeOnly ?_ fun _ => rfl
  simp only [Document.fields, List.forall_mem_cons]
  exact ⟨Column.field_wholeOnly (list_wholeOnly TypeDef.decode_wholeOnly),
    Column.field_wholeOnly (list_wholeOnly Union.decode_wholeOnly),
    fun _ member => absurd member List.not_mem_nil⟩

/-- A text that is read to its end is the document that its value is. -/
theorem parse_of_read {text : String} {value : Value} (read : Value.ofText text = (value, [])) :
    parse text = Document.decode value := by
  simp only [parse, read]
  cases Document.decode value <;> rfl

/-- An accepted text is read to its end. -/
theorem read_of_parse {text : String} {document : Document} (accepted : parse text = .ok document) :
    ∃ value, Value.ofText text = (value, []) := by
  rcases read : Value.ofText text with ⟨value, rest⟩
  cases rest with
  | nil => exact ⟨value, rfl⟩
  | cons token rest => simp [parse, read, Outcome.bind_ok_iff] at accepted

/-- A text that is accepted as a document is readable. -/
theorem readable_of_parse {text : String} {document : Document}
    (accepted : parse text = .ok document) : Json.Readable text := by
  obtain ⟨value, read⟩ := read_of_parse accepted
  exact ⟨value, read, decode_wholeOnly ((parse_of_read read).symm.trans accepted)⟩

end Taxonomy.Document
