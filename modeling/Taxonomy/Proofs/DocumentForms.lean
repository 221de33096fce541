import Taxonomy.Document.Reader
import Taxonomy.Proofs.JsonText
import Taxonomy.Proofs.Outcome

/-!
# Forms of the records of a document

A document is written as objects. Which keys an object may have, what may stand under
them and which of them may be left out is said here for each record, without reference to
the decoder. The keys of an object come in any order. What a record does not have is left
out or null, and what has its default may be left out.

The decoder of each record gives back what was written, whatever the order of the keys and
whatever is left out. Each record also has a bound on how deep its values nest, as the
reader of texts asks for one.
-/
namespace Taxonomy.Document

open Json (Value)

/-! ## Writing -/

/-- How a field of a record may be written. -/
structure Form where
  key : String
  /-- What may stand under the key. -/
  Written : Value → Prop
  /-- Whether the key may be left out. -/
  Omissible : Prop

section Forms

variable {α : Type}

/-- A field that has to be given. -/
def Form.mandatory (key : String) (written : α → Value → Prop) (content : α) : Form where
  key := key
  Written := written content
  Omissible := False

/-- A field that is null or left out if there is nothing to say. -/
def Form.optional (key : String) (written : α → Value → Prop) : Option α → Form
  | none => { key := key, Written := fun value => value = .null, Omissible := True }
  | some content => .mandatory key written content

/-- A field that may be left out if it has its default. -/
def Form.defaulted (key : String) (default : α) (written : α → Value → Prop) (content : α) :
    Form where
  key := key
  Written := written content
  Omissible := content = default

/-- The entries of an object agree with the form. -/
@[mk_iff]
structure Form.Holds (form : Form) (entries : List (String × Value)) : Prop where
  written : ∀ value, (form.key, value) ∈ entries → form.Written value
  given : form.key ∈ entries.map Prod.fst ∨ form.Omissible

/-- An object with the given forms, its keys in any order. -/
inductive ObjectWritten (forms : List Form) : Value → Prop
  | object {entries : List (String × Value)} (distinct : (entries.map Prod.fst).Nodup)
      (known : ∀ key ∈ entries.map Prod.fst, key ∈ forms.map Form.key)
      (holds : ∀ form ∈ forms, form.Holds entries) : ObjectWritten forms (.object entries .closed)

/-- An array of things that are written alike. -/
inductive ListWritten (written : α → Value → Prop) (contents : List α) : Value → Prop
  | array {items : List Value} (each : List.Forall₂ written contents items) :
      ListWritten written contents (.array items .closed)

end Forms

/-- A string. -/
def TextWritten (content : String) (value : Value) : Prop :=
  value = .text content

/-- A truth value. -/
def FlagWritten (content : Bool) (value : Value) : Prop :=
  value = .boolean content

/-- A number that fits into 64 bits. -/
def CountWritten (content : Nat) (value : Value) : Prop :=
  content < 2 ^ 64 ∧ value = .number (.natural content)

/-- The word of a choice. -/
def ChoiceWritten {α : Type} [Spelled α] (content : α) (value : Value) : Prop :=
  value = .text (spelling content)

/-- The fields of a member. -/
def Member.forms (member : Member) : List Form :=
  [.mandatory "name" TextWritten member.name,
   .mandatory "kind" ChoiceWritten member.kind,
   .mandatory "type" TextWritten member.type,
   .defaulted "required" true FlagWritten member.required,
   .defaulted "simple" false FlagWritten member.simple,
   .optional "pass_as" TextWritten member.passAs,
   .optional "doc" TextWritten member.doc]

/-- The ways to write a member. -/
def Member.Written (member : Member) : Value → Prop :=
  ObjectWritten member.forms

/-- A flag or a name. -/
def Publicity.Written : Publicity → Value → Prop
  | .flag isPublic => FlagWritten isPublic
  | .named name => TextWritten name

/-- The fields of a type. -/
def TypeDef.forms (type : TypeDef) : List Form :=
  [.mandatory "name" TextWritten type.name,
   .optional "base" TextWritten type.base,
   .defaulted "final" true FlagWritten type.isFinal,
   .optional "rendered_name" TextWritten type.renderedName,
   .optional "doc" TextWritten type.doc,
   .defaulted "members" [] (ListWritten Member.Written) type.members,
   .optional "walk_order" TextWritten type.walkOrder,
   .optional "public" Publicity.Written type.publicity]

/-- The ways to write a type. -/
def TypeDef.Written (type : TypeDef) : Value → Prop :=
  ObjectWritten type.forms

/-- The fields of a tag. -/
def Tag.forms (tag : Tag) : List Form :=
  [.mandatory "name" TextWritten tag.name,
   .mandatory "underlying" TextWritten tag.underlying,
   .optional "start" CountWritten tag.start,
   .optional "doc" TextWritten tag.doc]

/-- The ways to write a tag. -/
def Tag.Written (tag : Tag) : Value → Prop :=
  ObjectWritten tag.forms

/-- The kind of a variant with the given body. -/
def VariantBody.kind : VariantBody → VariantKind
  | .record _ => .record
  | .wrapped _ _ => .wrapped

/-- The fields that only variants of one kind have. -/
def VariantBody.forms : VariantBody → List Form
  | .record members => [.defaulted "members" [] (ListWritten Member.Written) members]
  | .wrapped target passAs =>
    [.mandatory "target" TextWritten target,
     .optional "pass_as" TextWritten passAs]

/-- The fields of a variant. -/
def Variant.forms (variant : Variant) : List Form :=
  [.mandatory "kind" ChoiceWritten variant.body.kind,
   .mandatory "name" TextWritten variant.name,
   .optional "doc" TextWritten variant.doc,
   .optional "argument_name" TextWritten variant.argumentName,
   .optional "accessor_name" TextWritten variant.accessorName] ++ variant.body.forms

/-- The ways to write a variant. -/
def Variant.Written (variant : Variant) : Value → Prop :=
  ObjectWritten variant.forms

/-- The fields of a union. -/
def Union.forms (union : Union) : List Form :=
  [.mandatory "name" TextWritten union.name,
   .mandatory "tag" Tag.Written union.tag,
   .optional "doc" TextWritten union.doc,
   .defaulted "variants" [] (ListWritten Variant.Written) union.variants,
   .optional "storage" TextWritten union.storage,
   .optional "format" TextWritten union.format,
   .optional "equality" TextWritten union.equality,
   .optional "hash" TextWritten union.hash,
   .optional "doc_mode" TextWritten union.docMode,
   .defaulted "final" true FlagWritten union.isFinal]

/-- The ways to write a union. -/
def Union.Written (union : Union) : Value → Prop :=
  ObjectWritten union.forms

/-- The fields of a document. -/
def forms (document : Document) : List Form :=
  [.defaulted "types" [] (ListWritten TypeDef.Written) document.types,
   .defaulted "unions" [] (ListWritten Union.Written) document.unions]

/-! ## Reading fields -/

section Columns

variable {α : Type}

/-- The decoder gives every content back from each of its writings, none of which nests
deeper than the given number. -/
structure Decodes (room : Nat) (decode : Decoder α) (written : α → Value → Prop) : Prop where
  result : ∀ {content value}, written content value → decode value = .ok content
  fits : ∀ {content value}, written content value → value.Fits room

/-- What fits fits as well where there is more room. -/
theorem Decodes.mono {room more : Nat} {decode : Decoder α} {written : α → Value → Prop}
    (decodes : Decodes room decode written) (larger : room ≤ more) :
    Decodes more decode written where
  result := decodes.result
  fits writing := (decodes.fits writing).mono larger

/-- A text is read back. -/
theorem text_decodes (room : Nat) : Decodes room text TextWritten where
  result := by
    rintro content _ rfl
    rfl
  fits := by
    rintro content _ rfl
    exact .text content

/-- A flag is read back. -/
theorem flag_decodes (room : Nat) : Decodes room flag FlagWritten where
  result := by
    rintro content _ rfl
    rfl
  fits := by
    rintro content _ rfl
    exact .boolean content

/-- A count is read back, as it fits into 64 bits. -/
theorem count_decodes (room : Nat) : Decodes room count CountWritten where
  result := by
    rintro content _ ⟨_, rfl⟩
    rfl
  fits := by
    rintro content _ ⟨bounded, rfl⟩
    exact .number bounded

/-- A choice is read back from its word. -/
theorem chosen_spelling [Spelled α] (content : α) : chosen (spelling content) = .ok content := by
  rw [chosen, (Spelled.read?_some_iff _ content).mpr rfl]

/-- The kind of a member is read back from its word, in either phase. -/
theorem memberKind_decodes (room : Nat) (phase : Phase) :
    Decodes room (memberKind phase) ChoiceWritten where
  result := by
    rintro content _ rfl
    cases phase <;> exact chosen_spelling content
  fits := by
    rintro content _ rfl
    exact .text _

/-- A flag and a name are told apart by what kind of value they are. -/
theorem Publicity.decodes (room : Nat) : Decodes room Publicity.decode Publicity.Written where
  result := by
    rintro (isPublic | name) _ rfl <;> rfl
  fits := by
    rintro (isPublic | name) _ rfl
    · exact .boolean isPublic
    · exact .text name

/-- Neither a flag nor a name is null. -/
theorem Publicity.not_null (publicity : Publicity) : ¬ Publicity.Written publicity .null := by
  rcases publicity with isPublic | name <;> exact fun isNull => nomatch isNull

/-- Items that are read back one by one are read back as a list. -/
theorem list_decodes {room : Nat} {item : Decoder α} {written : α → Value → Prop}
    (decodes : Decodes room item written) :
    Decodes (room + 1) (list item) (ListWritten written) where
  result := by
    rintro contents _ ⟨each⟩
    have read := (Outcome.mapM_ok_iff item _ contents).mpr
      (each.flip.imp fun _ _ writing => decodes.result writing)
    simp [list, read, Json.Ending.check, liftBreak, bind, Except.bind, pure, Except.pure]
  fits := by
    rintro contents _ ⟨each⟩
    refine .array fun item member => ?_
    obtain ⟨content, _, writing⟩ := Outcome.forall₂_mem each.flip member
    exact decodes.fits writing

/-- The column gives the content back from entries that agree with the form. -/
structure Column.Reads (room : Nat) (column : Column α) (content : α) (form : Form) : Prop where
  key : form.key = column.name
  result : ∀ {value}, form.Written value → column.decode value = .ok content
  fits : ∀ {value}, form.Written value → value.Fits room
  absent : form.Omissible → column.absent = some content

namespace Column.Reads

variable {room : Nat} {decode : Decoder α} {written : α → Value → Prop} {name : String}

/-- A field that has to be given is never found absent. -/
theorem mandatory (decodes : Decodes room decode written) (content : α) :
    (Column.mandatory name decode).Reads room content (.mandatory name written content) where
  key := rfl
  result := decodes.result
  fits := decodes.fits
  absent := False.elim

/-- A decoder behind an optional field is never asked about null. -/
theorem optional (decodes : Decodes room decode written)
    (notNull : ∀ content, ¬ written content .null) (content : Option α) :
    (Column.optional name decode).Reads room content (.optional name written content) := by
  cases content with
  | none =>
    refine ⟨rfl, ?_, ?_, fun _ => rfl⟩
    · rintro _ rfl
      rfl
    · rintro _ rfl
      exact .null
  | some content =>
    refine ⟨rfl, ?_, decodes.fits, False.elim⟩
    intro value writing
    have read : decode value = .ok content := decodes.result writing
    cases value with
    | null => exact absurd writing (notNull content)
    | _ => simp [Column.optional, nullable, read, bind, Except.bind, pure, Except.pure]

/-- A text is never null. -/
theorem optionalText (content : Option String) :
    (Column.optional name text).Reads room content (.optional name TextWritten content) :=
  .optional (text_decodes room) (fun _ isNull => nomatch isNull) content

/-- A field that has its default is the only one of its kind to be left out. -/
theorem defaulted {default : α} (decodes : Decodes room decode written) (content : α) :
    (Column.defaulted name default decode).Reads room content
      (.defaulted name default written content) where
  key := rfl
  result := decodes.result
  fits := decodes.fits
  absent isDefault := congrArg some (Eq.symm isDefault)

end Column.Reads

end Columns

/-- A column of a record with its content and the form that the content is written in. A record is
a list of them, so that what holds of a column is said once for all columns of all records. -/
structure Cell (room : Nat) where
  {α : Type}
  column : Column α
  content : α
  form : Form
  reads : column.Reads room content form

namespace Cell

variable {room : Nat}

/-- The field of a table accepts whatever the form writes. -/
theorem check (cell : Cell room) {value : Value} (writing : cell.form.Written value) :
    cell.column.field.check value = .ok () := by
  simp [Column.field, cell.reads.result writing, bind, Except.bind, pure, Except.pure]

/-- What a record holds in the field is the content. -/
theorem get (cell : Cell room) {entries : List (String × Value)} (holds : cell.form.Holds entries) :
    cell.column.get entries = .ok cell.content := by
  rw [Column.get, ← cell.reads.key]
  cases found : entries.lookup cell.form.key with
  | some value =>
    obtain ⟨before, after, same, _⟩ := List.lookup_eq_some_iff.mp found
    exact cell.reads.result (holds.written value (by simp [same]))
  | none =>
    have missing : cell.form.key ∉ entries.map Prod.fst := by
      intro member
      obtain ⟨entry, listed, key⟩ := List.mem_map.mp member
      have different := List.lookup_eq_none_iff.mp found entry listed
      simp [key] at different
    simp only [cell.reads.absent (holds.given.resolve_left missing)]

end Cell

/-! ## Reading records -/

/-- Entries with distinct keys that fit their fields pass the check. Other entries matter to
a strict record only. -/
theorem checkEntries_ok {fields : List Field} {strict : Bool} {entries : List (String × Value)}
    (distinct : (entries.map Prod.fst).Nodup)
    (known : strict = true → ∀ key ∈ entries.map Prod.fst, key ∈ fields.map Field.name)
    (fit : ∀ field ∈ fields, ∀ value, (field.name, value) ∈ entries → field.check value = .ok ())
    {seen : List String} (fresh : ∀ key ∈ entries.map Prod.fst, key ∉ seen) :
    checkEntries fields strict seen entries = .ok () := by
  induction entries generalizing seen with
  | nil => rfl
  | cons entry entries inductionHypothesis =>
    obtain ⟨key, value⟩ := entry
    obtain ⟨apart, distinctRest⟩ := List.nodup_cons.mp distinct
    obtain ⟨new, freshRest⟩ := List.forall_mem_cons.mp fresh
    have knownRest : strict = true → ∀ key ∈ entries.map Prod.fst, key ∈ fields.map Field.name :=
      fun isStrict => (List.forall_mem_cons.mp (known isStrict)).2
    have rest {seen : List String} (fresh : ∀ key ∈ entries.map Prod.fst, key ∉ seen) :
        checkEntries fields strict seen entries = .ok () :=
      inductionHypothesis distinctRest knownRest
        (fun field listed value member => fit field listed value (.tail _ member)) fresh
    cases found : fields.find? fun field => field.name == key with
    | none =>
      -- A strict record knows every key, so only a loose one gets here.
      have loose : strict = false := by
        by_contra isStrict
        obtain ⟨field, listed, name⟩ := List.mem_map.mp
          (known (by simpa using isStrict) key List.mem_cons_self)
        have different := List.find?_eq_none.mp found field listed
        simp [name] at different
      simp only [checkEntries, found, loose] at rest ⊢
      exact rest freshRest
    | some field =>
      have name : field.name = key := by simpa using List.find?_some found
      have checked : field.check value = .ok () :=
        fit field (List.mem_of_find?_eq_some found) value (by simp [name])
      simp only [checkEntries, found, if_neg new, checked, bind, Except.bind]
      refine rest fun other member => ?_
      rw [List.mem_cons, not_or]
      exact ⟨fun same => apart (same ▸ member), freshRest other member⟩

/-- An object passes the check of a table if it agrees with the forms of the columns. -/
theorem checkEntries_written {room : Nat} {cells : List (Cell room)} (strict : Bool)
    {entries : List (String × Value)} (distinct : (entries.map Prod.fst).Nodup)
    (known : strict = true → ∀ key ∈ entries.map Prod.fst,
      key ∈ cells.map fun cell => cell.column.field.name)
    (holds : ∀ cell ∈ cells, cell.form.Holds entries) :
    checkEntries (cells.map fun cell => cell.column.field) strict [] entries = .ok () := by
  refine checkEntries_ok distinct (by simpa using known) ?_ fun _ _ => List.not_mem_nil
  intro field listed value member
  obtain ⟨cell, cellListed, rfl⟩ := List.mem_map.mp listed
  have key : cell.form.key = cell.column.field.name := cell.reads.key
  exact cell.check ((holds cell cellListed).written value (key ▸ member))

/-- An object nests one deeper than what its forms write. -/
theorem ObjectWritten.fits {room : Nat} {forms : List Form} {value : Value}
    (written : ObjectWritten forms value)
    (fits : ∀ form ∈ forms, ∀ value, form.Written value → value.Fits room) :
    value.Fits (room + 1) := by
  obtain ⟨_, known, holds⟩ := written
  refine .object fun entry member => ?_
  obtain ⟨form, listed, key⟩ := List.mem_map.mp (known entry.1 (List.mem_map_of_mem member))
  exact fits form listed entry.2 ((holds form listed).written entry.2 (key ▸ member))

/-- A record that is put together from an object of the right forms is read back. What
remains to be said of a record is which cells it has, and how their contents are put together. -/
theorem decodes_record {α : Type} {room : Nat} {phase : Phase} {kind : RecordKind}
    {fields : List Field} {forms : α → List Form} {decode : Decoder α}
    {build : List (String × Value) → Except Fault α} (cells : α → List (Cell room))
    (steps : ∀ value, decode value = record phase kind fields value >>= build)
    (table : ∀ content, (cells content).map (fun cell => cell.column.field) = fields)
    (writes : ∀ content, (cells content).map Cell.form = forms content)
    (builds : ∀ content entries,
      (∀ cell ∈ cells content, cell.column.get entries = .ok cell.content) →
      build entries = .ok content) :
    Decodes (room + 1) decode fun content => ObjectWritten (forms content) where
  result := by
    rintro content _ @⟨entries, distinct, known, holds⟩
    rw [← writes content, List.forall_mem_map] at holds
    have names : (forms content).map Form.key =
        (cells content).map fun cell => cell.column.field.name := by
      rw [← writes content, List.map_map]
      exact List.map_congr_left fun cell _ => cell.reads.key
    have checked : checkEntries fields true [] entries = .ok () := by
      rw [← table content]
      exact checkEntries_written true distinct (fun _ => names ▸ known) holds
    rw [steps, record, checked]
    exact builds content entries fun cell listed => cell.get (holds cell listed)
  fits := by
    intro content value written
    refine written.fits ?_
    rw [← writes content, List.forall_mem_map]
    exact fun cell _ value writing => cell.reads.fits writing

/-! ## Reading each record -/

/-- The columns of a member. -/
def Member.cells (phase : Phase) (member : Member) : List (Cell 0) :=
  [⟨nameColumn, member.name, _, .mandatory (text_decodes 0) _⟩,
   ⟨kindColumn phase, member.kind, _, .mandatory (memberKind_decodes 0 phase) _⟩,
   ⟨typeColumn, member.type, _, .mandatory (text_decodes 0) _⟩,
   ⟨requiredColumn, member.required, _, .defaulted (flag_decodes 0) _⟩,
   ⟨simpleColumn, member.simple, _, .defaulted (flag_decodes 0) _⟩,
   ⟨passAsColumn, member.passAs, _, .optionalText _⟩,
   ⟨docColumn, member.doc, _, .optionalText _⟩]

/-- A member is read back, in either phase. -/
theorem Member.decodes (phase : Phase) : Decodes 1 (Member.decode phase) Member.Written := by
  refine decodes_record (cells phase) (fun _ => rfl) (fun _ => rfl) (fun _ => rfl) ?_
  intro member entries held
  simp only [cells, List.forall_mem_cons] at held
  simp only [held]
  rfl

/-- The columns of a type. -/
def TypeDef.cells (type : TypeDef) : List (Cell 2) :=
  [⟨nameColumn, type.name, _, .mandatory (text_decodes 2) _⟩,
   ⟨baseColumn, type.base, _, .optionalText _⟩,
   ⟨finalColumn, type.isFinal, _, .defaulted (flag_decodes 2) _⟩,
   ⟨renderedNameColumn, type.renderedName, _, .optionalText _⟩,
   ⟨docColumn, type.doc, _, .optionalText _⟩,
   ⟨membersColumn, type.members, _, .defaulted (list_decodes (Member.decodes .reading)) _⟩,
   ⟨walkOrderColumn, type.walkOrder, _, .optionalText _⟩,
   ⟨publicColumn, type.publicity, _, .optional (Publicity.decodes 2) Publicity.not_null _⟩]

/-- A type is read back. -/
theorem TypeDef.decodes : Decodes 3 TypeDef.decode TypeDef.Written := by
  refine decodes_record cells (fun _ => rfl) (fun _ => rfl) (fun _ => rfl) ?_
  intro type entries held
  simp only [cells, List.forall_mem_cons] at held
  simp only [held]
  rfl

/-- The columns of a tag. -/
def Tag.cells (tag : Tag) : List (Cell 0) :=
  [⟨nameColumn, tag.name, _, .mandatory (text_decodes 0) _⟩,
   ⟨underlyingColumn, tag.underlying, _, .mandatory (text_decodes 0) _⟩,
   ⟨startColumn, tag.start, _, .optional (count_decodes 0) (fun _ isNull => nomatch isNull.2) _⟩,
   ⟨docColumn, tag.doc, _, .optionalText _⟩]

/-- A tag is read back. -/
theorem Tag.decodes : Decodes 1 Tag.decode Tag.Written := by
  refine decodes_record cells (fun _ => rfl) (fun _ => rfl) (fun _ => rfl) ?_
  intro tag entries held
  simp only [cells, List.forall_mem_cons] at held
  simp only [held]
  rfl

namespace Variant

/-- Without a kind among them, whole entries change nothing. -/
theorem findKind_absent {entries : List (String × Value)}
    (absent : kindKey ∉ entries.map Prod.fst)
    (whole : ∀ entry ∈ entries, entry.2.whole = .ok ()) (found : Option VariantKind) :
    findKind found entries = .ok found := by
  induction entries with
  | nil => rfl
  | cons entry entries inductionHypothesis =>
    obtain ⟨here, rest⟩ := List.forall_mem_cons.mp whole
    rw [List.map_cons, List.mem_cons, not_or] at absent
    rw [findKind, if_neg (Ne.symm absent.1), here]
    exact inductionHypothesis absent.2 rest

/-- The kind is found wherever it stands among whole entries. -/
theorem findKind_given {kind : VariantKind} {entries : List (String × Value)}
    (distinct : (entries.map Prod.fst).Nodup) (given : kindKey ∈ entries.map Prod.fst)
    (written : ∀ value, (kindKey, value) ∈ entries → ChoiceWritten kind value)
    (whole : ∀ entry ∈ entries, entry.2.whole = .ok ()) :
    findKind none entries = .ok (some kind) := by
  induction entries with
  | nil => exact absurd given List.not_mem_nil
  | cons entry entries inductionHypothesis =>
    obtain ⟨key, value⟩ := entry
    obtain ⟨apart, distinctRest⟩ := List.nodup_cons.mp distinct
    obtain ⟨here, rest⟩ := List.forall_mem_cons.mp whole
    by_cases isKind : key = kindKey
    · subst isKind
      have word : value = .text (spelling kind) := written value List.mem_cons_self
      rw [findKind, if_pos rfl, word, Variant.kind, chosen_spelling]
      exact findKind_absent apart rest (some kind)
    · rw [findKind, if_neg isKind, here]
      rw [List.map_cons, List.mem_cons] at given
      exact inductionHypothesis distinctRest (given.resolve_left (Ne.symm isKind))
        (fun value member => written value (.tail _ member)) rest

/-- The columns of a variant that are read once its kind is known. -/
def bodyCells (variant : Variant) : List (Cell 2) :=
  match variant.body with
  | .record members =>
    [⟨nameColumn, variant.name, _, .mandatory (text_decodes 2) _⟩,
     ⟨membersColumn, members, _, .defaulted (list_decodes (Member.decodes .held)) _⟩,
     ⟨docColumn, variant.doc, _, .optionalText _⟩]
  | .wrapped target passAs =>
    [⟨nameColumn, variant.name, _, .mandatory (text_decodes 2) _⟩,
     ⟨targetColumn, target, _, .mandatory (text_decodes 2) _⟩,
     ⟨passAsColumn, passAs, _, .optionalText _⟩,
     ⟨docColumn, variant.doc, _, .optionalText _⟩]

/-- The columns of a variant that replace derived names. -/
def namingCells (variant : Variant) : List (Cell 2) :=
  [⟨argumentColumn, variant.argumentName, _, .optionalText _⟩,
   ⟨accessorColumn, variant.accessorName, _, .optionalText _⟩]

/-- Apart from the kind, the fields of a variant are the columns of its two tables. -/
theorem mem_forms_iff (variant : Variant) (form : Form) :
    form ∈ variant.forms ↔ form = .mandatory "kind" ChoiceWritten variant.body.kind ∨
      ∃ cell ∈ variant.bodyCells ++ variant.namingCells, form = cell.form := by
  rcases variant with ⟨name, members | ⟨target, passAs⟩, doc, argument, accessor⟩ <;>
    simp only [Variant.forms, VariantBody.forms, bodyCells, namingCells, List.cons_append,
      List.nil_append, List.mem_cons, List.not_mem_nil, or_false, exists_eq_or_imp,
      exists_eq_left] <;>
    tauto

/-- No field of a variant nests deeper than a list of members. -/
theorem forms_fit (variant : Variant) :
    ∀ form ∈ variant.forms, ∀ value, form.Written value → value.Fits 2 := by
  intro form listed value writing
  rcases (mem_forms_iff variant form).mp listed with rfl | ⟨cell, _, rfl⟩
  · obtain rfl : value = .text (spelling variant.body.kind) := writing
    exact .text _
  · exact cell.reads.fits writing

/-- The fields of its kind are read back, whatever other fields there are. -/
theorem decodeBody_written (variant : Variant) {entries : List (String × Value)}
    (distinct : (entries.map Prod.fst).Nodup)
    (holds : ∀ cell ∈ variant.bodyCells, cell.form.Holds entries) :
    decodeBody variant.body.kind entries = .ok (variant.name, variant.body, variant.doc) := by
  have checked : checkEntries (variant.bodyCells.map fun cell => cell.column.field) false []
      entries = .ok () :=
    checkEntries_written false distinct (fun isStrict => nomatch isStrict) holds
  have held : ∀ cell ∈ variant.bodyCells, cell.column.get entries = .ok cell.content :=
    fun cell listed => cell.get (holds cell listed)
  rcases variant with ⟨name, members | ⟨target, passAs⟩, doc, argument, accessor⟩
  · change checkEntries recordFields false [] entries = .ok () at checked
    simp only [bodyCells, List.forall_mem_cons] at held
    simp only [VariantBody.kind, decodeBody, checked, held]
    rfl
  · change checkEntries wrappedFields false [] entries = .ok () at checked
    simp only [bodyCells, List.forall_mem_cons] at held
    simp only [VariantBody.kind, decodeBody, checked, held]
    rfl

/-- A variant is read back, wherever its kind stands. -/
theorem decodes : Decodes 3 Variant.decode Variant.Written where
  fits written := written.fits (forms_fit _)
  result := by
    intro variant value written
    have fits : value.Fits 3 := written.fits (forms_fit variant)
    obtain @⟨entries, distinct, known, holds⟩ := written
    have holdsKind := holds _ ((mem_forms_iff variant _).mpr (.inl rfl))
    have holdsCell : ∀ cell ∈ variant.bodyCells ++ variant.namingCells, cell.form.Holds entries :=
      fun cell listed => holds _ ((mem_forms_iff variant _).mpr (.inr ⟨cell, listed, rfl⟩))
    obtain ⟨holdsBody, holdsNaming⟩ := List.forall_mem_append.mp holdsCell
    have found : findKind none entries = .ok (some variant.body.kind) := by
      refine findKind_given distinct (holdsKind.given.resolve_right id) holdsKind.written ?_
      cases fits with
      | object each => exact fun entry member => (each entry member).held.whole
    have checked : checkEntries namingFields false [] entries = .ok () :=
      checkEntries_written false distinct (fun isStrict => nomatch isStrict) holdsNaming
    have held : ∀ cell ∈ variant.namingCells, cell.column.get entries = .ok cell.content :=
      fun cell listed => cell.get (holdsNaming cell listed)
    simp only [namingCells, List.forall_mem_cons] at held
    simp only [Variant.decode, found, Json.Ending.check, liftBreak, bind, Except.bind, pure,
      Except.pure, decodeBody_written variant distinct holdsBody, checked, held]

end Variant

/-- The columns of a union. -/
def Union.cells (union : Union) : List (Cell 4) :=
  [⟨nameColumn, union.name, _, .mandatory (text_decodes 4) _⟩,
   ⟨tagColumn, union.tag, _, .mandatory (Tag.decodes.mono (by decide)) _⟩,
   ⟨docColumn, union.doc, _, .optionalText _⟩,
   ⟨variantsColumn, union.variants, _, .defaulted (list_decodes Variant.decodes) _⟩,
   ⟨storageColumn, union.storage, _, .optionalText _⟩,
   ⟨formatColumn, union.format, _, .optionalText _⟩,
   ⟨equalityColumn, union.equality, _, .optionalText _⟩,
   ⟨hashColumn, union.hash, _, .optionalText _⟩,
   ⟨docModeColumn, union.docMode, _, .optionalText _⟩,
   ⟨finalColumn, union.isFinal, _, .defaulted (flag_decodes 4) _⟩]

/-- A union is read back. -/
theorem Union.decodes : Decodes 5 Union.decode Union.Written := by
  refine decodes_record cells (fun _ => rfl) (fun _ => rfl) (fun _ => rfl) ?_
  intro union entries held
  simp only [cells, List.forall_mem_cons] at held
  simp only [held]
  rfl

/-- The columns of a document. -/
def cells (document : Document) : List (Cell 6) :=
  [⟨typesColumn, document.types, _,
     .defaulted ((list_decodes TypeDef.decodes).mono (by decide)) _⟩,
   ⟨unionsColumn, document.unions, _, .defaulted (list_decodes Union.decodes) _⟩]

/-- The value of a document is read back. -/
theorem decodes : Decodes 7 decode fun document => ObjectWritten document.forms := by
  refine decodes_record cells (fun _ => rfl) (fun _ => rfl) (fun _ => rfl) ?_
  intro document entries held
  simp only [cells, List.forall_mem_cons] at held
  simp only [held]
  rfl

end Taxonomy.Document
