import Taxonomy.Proofs.WholeDocuments

/-!
# Unknown keys

The objects of a document are the document itself and its types, members, tags, unions and
variants. Each has its own keys. If any other key is added to one of the objects of a text that is
accepted, the text is refused and the key is named. Variants are the exception: what a variant does
not know it passes over, so that the text still says the same document.

An object is found by going down from the document through fields that hold further objects. A
record that is written as an array has no keys, but its items may hold objects as well.
-/
namespace Taxonomy.Document

open Json (Value)

/-! ## The objects of a document -/

/-- The kinds of objects. -/
inductive Part where
  | document
  | type
  | member
  | tag
  | union
  | variant (kind : VariantKind)
deriving DecidableEq

namespace Part

/-- The keys that an object may have. -/
def keys : Part → List String
  | .document => ["types", "unions"]
  | .type => ["name", "base", "final", "rendered_name", "doc", "members", "walk_order", "public"]
  | .member => ["name", "kind", "type", "required", "simple", "pass_as", "doc"]
  | .tag => ["name", "underlying", "start", "doc"]
  | .union => ["name", "tag", "doc", "variants", "storage", "format", "equality", "hash",
      "doc_mode", "final"]
  | .variant .record => ["kind", "name", "members", "doc", "argument_name", "accessor_name"]
  | .variant .wrapped =>
    ["kind", "name", "target", "pass_as", "doc", "argument_name", "accessor_name"]

/-- Whether the object is a variant. -/
def isVariant : Part → Bool
  | .variant _ => true
  | _ => false

/-- Whether the value can be an object of the kind. Only the kinds of variants are told apart,
by what the object says of itself. -/
def Describes : Part → Value → Prop
  | .variant kind, .object entries _ => ("kind", .text (spelling kind)) ∈ entries
  | .variant _, _ => False
  | _, _ => True

end Part

/-- A place for one object, or for an array of them. -/
inductive Place where
  | one (part : Part)
  | many (part : Part)

/-- The fields that hold further objects. -/
inductive Part.Holds : Part → String → Place → Prop
  | types : Holds .document "types" (.many .type)
  | unions : Holds .document "unions" (.many .union)
  | members : Holds .type "members" (.many .member)
  | tag : Holds .union "tag" (.one .tag)
  | variants (kind : VariantKind) : Holds .union "variants" (.many (.variant kind))
  | variantMembers : Holds (.variant .record) "members" (.many .member)

/-- Two values that differ in what stands in the field of the given name. In an array the field is
found by its position. -/
inductive FieldReplaced (keys : List String) (name : String) (old new : Value) :
    Value → Value → Prop
  | entry (before after : List (String × Value)) :
      FieldReplaced keys name old new (.object (before ++ (name, old) :: after) .closed)
        (.object (before ++ (name, new) :: after) .closed)
  | item {before : List Value} (after : List Value)
      (position : keys[before.length]? = some name) :
      FieldReplaced keys name old new (.array (before ++ old :: after) .closed)
        (.array (before ++ new :: after) .closed)

/-- Two values that stand in the same place, the second with an unknown key more in one of the
objects of the given kind. -/
inductive Enlarged (target : Part) (key : String) : Place → Value → Value → Prop
  | here {before after : List (String × Value)} (added : Value)
      (describes : target.Describes (.object (before ++ after) .closed))
      (unknown : key ∉ target.keys) :
      Enlarged target key (.one target) (.object (before ++ after) .closed)
        (.object (before ++ (key, added) :: after) .closed)
  | inside {part : Part} {name : String} {place : Place} {old new outer larger : Value}
      (describes : part.Describes outer) (holds : part.Holds name place)
      (replaced : FieldReplaced part.keys name old new outer larger)
      (deeper : Enlarged target key place old new) : Enlarged target key (.one part) outer larger
  | element {part : Part} {before after : List Value} {old new : Value}
      (deeper : Enlarged target key (.one part) old new) :
      Enlarged target key (.many part) (.array (before ++ old :: after) .closed)
        (.array (before ++ new :: after) .closed)

/-! ## One entry more -/

section Inserted

variable {before after : List (String × Value)} {key : String} {added : Value}

/-- A field does not see entries of other names. -/
theorem Column.get_inserted {α : Type} (column : Column α) (apart : column.name ≠ key) :
    column.get (before ++ (key, added) :: after) = column.get (before ++ after) := by
  have found : (before ++ (key, added) :: after).lookup column.name =
      (before ++ after).lookup column.name := by
    have missed : (column.name == key) = false := by simpa using apart
    rw [List.lookup_append, List.lookup_append, List.lookup_cons, missed]
  rw [Column.get, Column.get, found]

/-- An unknown key has no field. -/
theorem find?_unknown {fields : List Field} (unknown : key ∉ fields.map Field.name) :
    (fields.find? fun field => field.name == key) = none := by
  rw [List.find?_eq_none]
  intro field listed same
  exact unknown (List.mem_map.mpr ⟨field, listed, by simpa using same⟩)

/-- A record that is not strict passes over what it does not know. -/
theorem checkEntries_inserted {fields : List Field} (unknown : key ∉ fields.map Field.name)
    (seen : List String) :
    checkEntries fields false seen (before ++ (key, added) :: after) =
      checkEntries fields false seen (before ++ after) := by
  induction before generalizing seen with
  | nil => simp [checkEntries, find?_unknown unknown]
  | cons entry before inductionHypothesis =>
    simp only [List.cons_append, checkEntries, inductionHypothesis]

/-- A strict record that accepts all else names the unknown key. -/
theorem checkEntries_unknown {fields : List Field} (unknown : key ∉ fields.map Field.name)
    {seen : List String} (accepted : checkEntries fields true seen (before ++ after) = .ok ()) :
    checkEntries fields true seen (before ++ (key, added) :: after) =
      .error (.unknownField key (fields.map Field.name)) := by
  induction before generalizing seen with
  | nil => simp [checkEntries, find?_unknown unknown]
  | cons entry before inductionHypothesis =>
    rcases (checkEntries_cons_ok_iff ..).mp accepted with
      ⟨_, loose, _⟩ | ⟨field, found, fresh, checked, rest⟩
    · simp at loose
    · simp only [List.cons_append, checkEntries, found, if_neg fresh, checked]
      exact inductionHypothesis rest

/-- Whatever stands beside the kind has to be whole, and counts for nothing else. -/
theorem Variant.findKind_inserted (apart : key ≠ kindKey) (whole : added.whole = .ok ())
    (found : Option VariantKind) :
    findKind found (before ++ (key, added) :: after) = findKind found (before ++ after) := by
  induction before generalizing found with
  | nil => rw [List.nil_append, findKind, if_neg apart, whole]; rfl
  | cons entry before inductionHypothesis =>
    simp only [List.cons_append, findKind, inductionHypothesis]

end Inserted

/-! ## One field replaced -/

section Replaced

variable {old new : Value}

/-- An accepted field stands in the entries once. -/
theorem checkEntries_fresh {fields : List Field} {strict : Bool} {seen : List String}
    {before after : List (String × Value)} {field : Field}
    (found : fields.find? (fun other => other.name == field.name) = some field)
    (accepted : checkEntries fields strict seen (before ++ (field.name, old) :: after) = .ok ()) :
    field.name ∉ seen ∧ field.name ∉ before.map Prod.fst := by
  induction before generalizing seen with
  | nil =>
    rcases (checkEntries_cons_ok_iff ..).mp accepted with ⟨missed, _⟩ | ⟨_, _, fresh, _⟩
    · simp [missed] at found
    · exact ⟨fresh, by simp⟩
  | cons entry before inductionHypothesis =>
    rcases (checkEntries_cons_ok_iff ..).mp accepted with
      ⟨missed, _, rest⟩ | ⟨other, known, fresh, _, rest⟩
    · obtain ⟨notSeen, notBefore⟩ := inductionHypothesis rest
      refine ⟨notSeen, ?_⟩
      rw [List.map_cons, List.mem_cons, not_or]
      refine ⟨fun same => ?_, notBefore⟩
      rw [← same, found] at missed
      simp at missed
    · obtain ⟨notSeen, notBefore⟩ := inductionHypothesis rest
      rw [List.mem_cons, not_or] at notSeen
      rw [List.map_cons, List.mem_cons, not_or]
      exact ⟨notSeen.2, notSeen.1, notBefore⟩

/-- If a field is replaced, only its own check can fail. -/
theorem checkEntries_replaced {fields : List Field} {strict : Bool} {seen : List String}
    {before after : List (String × Value)} {field : Field}
    (found : fields.find? (fun other => other.name == field.name) = some field)
    (accepted : checkEntries fields strict seen (before ++ (field.name, old) :: after) = .ok ()) :
    checkEntries fields strict seen (before ++ (field.name, new) :: after) = field.check new := by
  induction before generalizing seen with
  | nil =>
    rcases (checkEntries_cons_ok_iff ..).mp accepted with
      ⟨missed, _⟩ | ⟨other, known, fresh, _, rest⟩
    · simp [missed] at found
    · obtain rfl : other = field := Option.some.inj (known.symm.trans found)
      simp only [List.nil_append, checkEntries, known, if_neg fresh, rest]
      cases other.check new <;> rfl
  | cons entry before inductionHypothesis =>
    rcases (checkEntries_cons_ok_iff ..).mp accepted with
      ⟨missed, rfl, rest⟩ | ⟨other, known, fresh, checked, rest⟩
    · simp only [List.cons_append, checkEntries, missed]
      exact inductionHypothesis rest
    · simp only [List.cons_append, checkEntries, known, if_neg fresh, checked]
      exact inductionHypothesis rest

/-- If an item is replaced, only the check of its field can fail. -/
theorem checkItems_replaced {phase : Phase} {kind : RecordKind} {width : Nat}
    {ending : Json.Ending} {fields : List Field} {index : Nat} {before after : List Value}
    {field : Field} (position : fields[before.length]? = some field)
    (accepted : checkItems phase kind width ending index fields (before ++ old :: after) = .ok ()) :
    checkItems phase kind width ending index fields (before ++ new :: after) = field.check new := by
  induction before generalizing fields index with
  | nil =>
    cases fields with
    | nil => simp at position
    | cons first fields =>
      obtain rfl : first = field := by simpa using position
      rw [List.nil_append, checkItems, Outcome.check_ok_iff] at accepted
      rw [List.nil_append, checkItems, accepted.2]
      cases first.check new <;> rfl
  | cons item before inductionHypothesis =>
    cases fields with
    | nil => simp at position
    | cons first fields =>
      rw [List.cons_append, checkItems, Outcome.check_ok_iff] at accepted
      rw [List.cons_append, checkItems, accepted.1]
      exact inductionHypothesis (by simpa using position) accepted.2

/-- In a table of distinct names a field is found by its name. -/
theorem find?_listed {fields : List Field} (distinct : (fields.map Field.name).Nodup)
    {field : Field} (listed : field ∈ fields) :
    fields.find? (fun other => other.name == field.name) = some field := by
  cases found : fields.find? fun other => other.name == field.name with
  | none => exact absurd (List.find?_eq_none.mp found field listed) (by simp)
  | some other =>
    have name : other.name = field.name := by simpa using List.find?_some found
    rw [List.inj_on_of_nodup_map distinct (List.mem_of_find?_eq_some found) listed name]

/-- If a field of a record is replaced, only its own check can fail, and it is replaced in the
entries of the record. -/
theorem record_replaced {phase : Phase} {kind : RecordKind} {fields : List Field}
    (distinct : (fields.map Field.name).Nodup) {field : Field} (listed : field ∈ fields)
    {outer larger : Value}
    (replaced : FieldReplaced (fields.map Field.name) field.name old new outer larger)
    {entries : List (String × Value)} (accepted : record phase kind fields outer = .ok entries) :
    ∃ before after, entries = before ++ (field.name, old) :: after ∧
      field.name ∉ before.map Prod.fst ∧
      record phase kind fields larger = (do
        field.check new
        return before ++ (field.name, new) :: after) := by
  cases replaced with
  | entry before after =>
    have found := find?_listed distinct listed
    simp only [record, Outcome.check_ok_iff, Outcome.pure_ok_iff] at accepted
    obtain ⟨checked, _, rfl⟩ := accepted
    refine ⟨before, after, rfl, (checkEntries_fresh found checked).2, ?_⟩
    rw [record, checkEntries_replaced found checked]
    rfl
  | @item before after position =>
    simp only [record, Outcome.check_ok_iff, Outcome.pure_ok_iff] at accepted
    obtain ⟨checked, rfl⟩ := accepted
    obtain ⟨other, here, name⟩ : ∃ other, fields[before.length]? = some other ∧
        other.name = field.name := by
      simpa using position
    obtain rfl : other = field :=
      List.inj_on_of_nodup_map distinct (List.mem_of_getElem? here) listed name
    -- The names are split where the item stands, and the items are split alike.
    obtain ⟨earlier, later, names, length⟩ : ∃ earlier later,
        fields.map Field.name = earlier ++ other.name :: later ∧
          earlier.length = before.length := by
      obtain ⟨inside, nth⟩ := List.getElem?_eq_some_iff.mp position
      refine ⟨(fields.map Field.name).take before.length,
        (fields.map Field.name).drop (before.length + 1), ?_, ?_⟩
      · rw [← nth, ← List.drop_eq_getElem_cons inside, List.take_append_drop]
      · rw [List.length_take, Nat.min_eq_left inside.le]
    have items (value : Value) : (fields.map Field.name).zip (before ++ value :: after) =
        earlier.zip before ++ (other.name, value) :: later.zip after := by
      rw [names, List.zip_append length, List.zip_cons_cons]
    refine ⟨earlier.zip before, later.zip after, items old, ?_, ?_⟩
    · rw [List.map_fst_zip length.le]
      rw [names] at distinct
      exact fun member => (List.nodup_append.mp distinct).2.2 _ member _ List.mem_cons_self rfl
    · rw [record, checkItems_replaced here checked, items new]

end Replaced

/-! ## What an outcome hinges on -/

section Hinges

variable {α β : Type} {old new outer larger : Value}

/-- If the whole value is accepted, then so is its part. With a new part that comes to the same,
the whole comes to the same. With a new part that is refused, the whole is refused as well. -/
def HingesOn (decode : Decoder β) (outer larger : Value) (inner : Decoder α) (old new : Value) :
    Prop :=
  ∀ ⦃content⦄, decode outer = .ok content → ∃ part, inner old = .ok part ∧
    (inner new = .ok part → decode larger = .ok content) ∧
      ∀ fault, inner new = .error fault → decode larger = .error fault

/-- Where a field can be replaced, it can also be replaced by itself. -/
theorem FieldReplaced.unchanged {keys : List String} {name : String}
    (replaced : FieldReplaced keys name old new outer larger) :
    FieldReplaced keys name old old outer outer := by
  cases replaced with
  | entry before after => exact .entry before after
  | item after position => exact .item after position

/-- The field of a column fails as the decoder of the column does. -/
theorem Column.check_error {column : Column α} {value : Value} {fault : Fault}
    (failed : column.decode value = .error fault) : column.field.check value = .error fault := by
  simp [Column.field, failed, bind, Except.bind]

/-- A field holds the first entry of its name. -/
theorem Column.get_first (column : Column α) {before after : List (String × Value)} {value : Value}
    (fresh : column.name ∉ before.map Prod.fst) :
    column.get (before ++ (column.name, value) :: after) = column.decode value := by
  have missed : before.lookup column.name = none := by
    rw [List.lookup_eq_none_iff]
    intro entry member
    simpa using fun same => fresh (List.mem_map.mpr ⟨entry, member, same.symm⟩)
  simp [Column.get, List.lookup_append, missed]

/-- A record hinges on each of its fields, provided that it is put together from what its fields
hold. -/
theorem record_hinges {phase : Phase} {kind : RecordKind} {fields : List Field}
    (distinct : (fields.map Field.name).Nodup) (column : Column α)
    (listed : column.field ∈ fields) {decode : Decoder β}
    {build : List (String × Value) → Except Fault β}
    (steps : ∀ value, decode value = record phase kind fields value >>= build)
    (builds : ∀ left right,
      (∀ {γ : Type} (other : Column γ), other.name ≠ column.name →
        other.get left = other.get right) →
        column.get left = column.get right → build left = build right)
    (replaced : FieldReplaced (fields.map Field.name) column.name old new outer larger) :
    HingesOn decode outer larger column.decode old new := by
  intro content accepted
  obtain ⟨entries, checked, built⟩ := (Outcome.bind_ok_iff _ _ _).mp (steps outer ▸ accepted)
  obtain ⟨part, decoded⟩ : ∃ part, column.decode old = .ok part := by
    obtain ⟨_, _, _, _, again⟩ := record_replaced distinct listed replaced.unchanged checked
    rw [checked] at again
    exact (column.check_ok_iff old).mp ((Outcome.check_ok_iff _ _ _).mp again.symm).1
  obtain ⟨before, after, rfl, fresh, again⟩ := record_replaced distinct listed replaced checked
  refine ⟨part, decoded, fun same => ?_, fun fault failed => ?_⟩
  · have kept : column.field.check new = .ok () := (column.check_ok_iff new).mpr ⟨part, same⟩
    have builtAlike : build (before ++ (column.name, new) :: after) =
        build (before ++ (column.name, old) :: after) := by
      refine builds _ _ (fun other apart => ?_) ?_
      · rw [other.get_inserted apart, other.get_inserted apart]
      · rw [column.get_first fresh, column.get_first fresh, same, decoded]
    rw [steps, again, kept]
    exact builtAlike.trans built
  · rw [steps, again, Column.check_error failed]
    rfl

/-- A list hinges on each of its elements. -/
theorem list_hinges {item : Decoder α} {before after : List Value} :
    HingesOn (list item) (.array (before ++ old :: after) .closed)
      (.array (before ++ new :: after) .closed) item old new := by
  intro contents accepted
  simp only [list, List.mapM_append, List.mapM_cons, Outcome.bind_ok_iff, Outcome.pure_ok_iff]
    at accepted
  obtain ⟨_, ⟨earlier, ranBefore, _, ⟨part, decoded, later, ranAfter, rfl⟩, rfl⟩, _, _, rfl⟩ :=
    accepted
  refine ⟨part, decoded, fun same => ?_, fun fault failed => ?_⟩
  · simp only [list, List.mapM_append, List.mapM_cons, ranBefore, same, ranAfter]
    rfl
  · simp only [list, List.mapM_append, List.mapM_cons, ranBefore, failed]
    rfl

end Hinges

/-! ## Variants -/

namespace Variant

/-- Once a kind is known, there is no other one. -/
theorem findKind_known {known : VariantKind} {result : Option VariantKind}
    {entries : List (String × Value)} (accepted : findKind (some known) entries = .ok result) :
    kindKey ∉ entries.map Prod.fst ∧ result = some known := by
  induction entries with
  | nil => exact ⟨by simp, (Except.ok.inj accepted).symm⟩
  | cons entry entries inductionHypothesis =>
    rw [findKind] at accepted
    by_cases isKind : entry.1 = kindKey
    · simp [isKind] at accepted
    · rw [if_neg isKind, Outcome.check_ok_iff] at accepted
      obtain ⟨absent, same⟩ := inductionHypothesis accepted.2
      rw [List.map_cons, List.mem_cons, not_or]
      exact ⟨⟨Ne.symm isKind, absent⟩, same⟩

/-- The kind that is found is the one that the object says. -/
theorem findKind_described {kind : VariantKind} {result : Option VariantKind}
    {entries : List (String × Value)} (accepted : findKind none entries = .ok result)
    (described : (kindKey, Value.text (spelling kind)) ∈ entries) : result = some kind := by
  induction entries with
  | nil => exact absurd described List.not_mem_nil
  | cons entry entries inductionHypothesis =>
    rw [findKind] at accepted
    by_cases isKind : entry.1 = kindKey
    · rw [if_pos isKind, if_neg (by simp), Outcome.bind_ok_iff] at accepted
      obtain ⟨found, decoded, rest⟩ := accepted
      obtain ⟨absent, rfl⟩ := findKind_known rest
      rcases List.mem_cons.mp described with rfl | later
      · rw [Variant.kind, chosen, (Spelled.read?_some_iff _ kind).mpr rfl] at decoded
        rw [Except.ok.inj decoded]
      · exact absurd (List.mem_map.mpr ⟨_, later, rfl⟩) absent
    · rw [if_neg isKind, Outcome.check_ok_iff] at accepted
      refine inductionHypothesis accepted.2 ?_
      rcases List.mem_cons.mp described with rfl | later
      · exact absurd rfl isKind
      · exact later

/-- An accepted object says its kind. -/
theorem kind_of_decode {entries : List (String × Value)} {ending : Json.Ending} {content : Variant}
    (accepted : decode (.object entries ending) = .ok content) :
    ∃ kind, findKind none entries = .ok (some kind) := by
  obtain ⟨found, searched, rest⟩ := (Outcome.bind_ok_iff _ _ _).mp accepted
  obtain ⟨_, rest⟩ := (Outcome.check_ok_iff _ _ _).mp rest
  cases found with
  | none => simp at rest
  | some kind => exact ⟨kind, searched⟩

/-- How an object of a known kind is decoded. -/
theorem decode_of_kind {kind : VariantKind} {entries : List (String × Value)}
    (found : findKind none entries = .ok (some kind)) :
    decode (.object entries .closed) = (do
      let (name, body, doc) ← decodeBody kind entries
      checkEntries namingFields false [] entries
      return {
        name := name
        body := body
        doc := doc
        argumentName := ← argumentColumn.get entries
        accessorName := ← accessorColumn.get entries }) := by
  rw [decode, found]
  rfl

section Inserted

variable {before after : List (String × Value)} {key : String} {added : Value}

/-- What a variant of the kind holds does not depend on unknown keys. -/
theorem decodeBody_inserted {kind : VariantKind} (unknown : key ∉ (Part.variant kind).keys) :
    decodeBody kind (before ++ (key, added) :: after) = decodeBody kind (before ++ after) := by
  have apart : ∀ name ∈ (Part.variant kind).keys, name ≠ key :=
    fun name listed same => unknown (same ▸ listed)
  cases kind with
  | record =>
    have listed : recordFields.map Field.name ⊆ (Part.variant .record).keys := by decide
    rw [decodeBody, checkEntries_inserted (mt (listed ·) unknown),
      nameColumn.get_inserted (apart _ (by decide)),
      membersColumn.get_inserted (apart _ (by decide)),
      docColumn.get_inserted (apart _ (by decide))]
    rfl
  | wrapped =>
    have listed : wrappedFields.map Field.name ⊆ (Part.variant .wrapped).keys := by decide
    rw [decodeBody, checkEntries_inserted (mt (listed ·) unknown),
      nameColumn.get_inserted (apart _ (by decide)),
      targetColumn.get_inserted (apart _ (by decide)),
      passAsColumn.get_inserted (apart _ (by decide)),
      docColumn.get_inserted (apart _ (by decide))]
    rfl

/-- A variant passes over an unknown key. -/
theorem decode_inserted {kind : VariantKind} (unknown : key ∉ (Part.variant kind).keys)
    (described : (kindKey, Value.text (spelling kind)) ∈ before ++ after)
    (whole : added.whole = .ok ()) {content : Variant}
    (accepted : decode (.object (before ++ after) .closed) = .ok content) :
    decode (.object (before ++ (key, added) :: after) .closed) = .ok content := by
  obtain ⟨known, found⟩ := kind_of_decode accepted
  obtain rfl : known = kind := Option.some.inj (findKind_described found described)
  have listed : namingFields.map Field.name ⊆ (Part.variant known).keys := by
    cases known <;> decide
  have apart : ∀ name ∈ (Part.variant known).keys, key ≠ name :=
    fun name listed same => unknown (same ▸ listed)
  have kindApart : key ≠ kindKey := apart kindKey (by cases known <;> decide)
  have foundAgain : findKind none (before ++ (key, added) :: after) = .ok (some known) := by
    rw [findKind_inserted kindApart whole, found]
  rw [decode_of_kind found] at accepted
  rw [decode_of_kind foundAgain, decodeBody_inserted unknown,
    checkEntries_inserted (mt (listed ·) unknown),
    argumentColumn.get_inserted (Ne.symm (apart _ (listed (by decide)))),
    accessorColumn.get_inserted (Ne.symm (apart _ (listed (by decide))))]
  exact accepted

end Inserted

/-- A variant with members of its own hinges on their list. -/
theorem members_hinge {before after : List (String × Value)} {old new : Value}
    (described : (kindKey, Value.text (spelling VariantKind.record)) ∈
      before ++ (membersColumn.name, old) :: after) (whole : new.whole = .ok ()) :
    HingesOn decode (.object (before ++ (membersColumn.name, old) :: after) .closed)
      (.object (before ++ (membersColumn.name, new) :: after) .closed)
      membersColumn.decode old new := by
  intro content accepted
  have oldWhole : old.whole = .ok () :=
    ((Value.whole_object_iff _ _).mp (decode_wholeOnly accepted)).1 (membersColumn.name, old)
      (by simp)
  obtain ⟨known, found⟩ := kind_of_decode accepted
  obtain rfl : known = .record := Option.some.inj (findKind_described found described)
  have foundAgain :
      findKind none (before ++ (membersColumn.name, new) :: after) = .ok (some .record) := by
    rw [findKind_inserted (by decide) whole, ← found, findKind_inserted (by decide) oldWhole]
  have listed : recordFields.find? (fun field => field.name == membersColumn.field.name) =
      some membersColumn.field := find?_listed (by decide) (by simp [recordFields])
  rw [decode_of_kind found] at accepted
  have checked : checkEntries recordFields false []
      (before ++ (membersColumn.name, old) :: after) = .ok () := by
    obtain ⟨_, decoded, _⟩ := (Outcome.bind_ok_iff _ _ _).mp accepted
    rw [decodeBody, Outcome.check_ok_iff] at decoded
    exact decoded.1
  have checkedNew (value : Value) : checkEntries recordFields false []
      (before ++ (membersColumn.name, value) :: after) = membersColumn.field.check value :=
    checkEntries_replaced listed checked
  obtain ⟨part, decoded⟩ :=
    (membersColumn.check_ok_iff old).mp ((checkedNew old).symm.trans checked)
  have fresh := (checkEntries_fresh listed checked).2
  refine ⟨part, decoded, fun same => ?_, fun fault failed => ?_⟩
  · have kept : membersColumn.field.check new = .ok () :=
      (membersColumn.check_ok_iff new).mpr ⟨part, same⟩
    have bodyAlike : decodeBody .record (before ++ (membersColumn.name, new) :: after) =
        decodeBody .record (before ++ (membersColumn.name, old) :: after) := by
      rw [decodeBody, decodeBody, checkedNew new, kept, checked,
        nameColumn.get_inserted (by decide), nameColumn.get_inserted (by decide),
        membersColumn.get_first fresh, membersColumn.get_first fresh, same, decoded,
        docColumn.get_inserted (by decide), docColumn.get_inserted (by decide)]
    rw [checkEntries_inserted (by decide), argumentColumn.get_inserted (by decide),
      accessorColumn.get_inserted (by decide)] at accepted
    rw [decode_of_kind foundAgain, bodyAlike, checkEntries_inserted (by decide),
      argumentColumn.get_inserted (by decide), accessorColumn.get_inserted (by decide)]
    exact accepted
  · rw [decode_of_kind foundAgain, decodeBody, checkedNew new, Column.check_error failed]
    rfl

end Variant

/-! ## Places -/

/-- What an object comes to. -/
def Part.Content : Part → Type
  | .document => Document
  | .type => TypeDef
  | .member => Member
  | .tag => Tag
  | .union => Union
  | .variant _ => Variant

/-- The decoder of the objects of a kind. -/
def Part.decode (phase : Phase) : (part : Part) → Decoder part.Content
  | .document => Document.decode
  | .type => TypeDef.decode
  | .member => Member.decode phase
  | .tag => Tag.decode
  | .union => Union.decode
  | .variant _ => Variant.decode

/-- What stands in a place comes to. -/
def Place.Content : Place → Type
  | .one part => part.Content
  | .many part => List part.Content

/-- The decoder of what stands in a place. -/
def Place.decode (phase : Phase) : (place : Place) → Decoder place.Content
  | .one part => part.decode phase
  | .many part => list (part.decode phase)

/-- An object hinges on what stands in each of its places. -/
theorem Part.Holds.hinges {part : Part} {name : String} {place : Place}
    (holds : part.Holds name place) (phase : Phase) {old new outer larger : Value}
    (describes : part.Describes outer) (whole : new.whole = .ok ())
    (replaced : FieldReplaced part.keys name old new outer larger) :
    ∃ inner, HingesOn (part.decode phase) outer larger (place.decode inner) old new := by
  cases holds with
  | types =>
    refine ⟨.reading, record_hinges (by decide) typesColumn (by simp [Document.fields])
      (fun _ => rfl) (fun left right others same => ?_) replaced⟩
    simp only [same, others unionsColumn (by decide)]
    rfl
  | unions =>
    refine ⟨.reading, record_hinges (by decide) unionsColumn (by simp [Document.fields])
      (fun _ => rfl) (fun left right others same => ?_) replaced⟩
    simp only [same, others typesColumn (by decide)]
    rfl
  | members =>
    refine ⟨.reading, record_hinges (by decide) TypeDef.membersColumn (by simp [TypeDef.fields])
      (fun _ => rfl) (fun left right others same => ?_) replaced⟩
    simp only [same, others TypeDef.nameColumn (by decide), others TypeDef.baseColumn (by decide),
      others TypeDef.finalColumn (by decide), others TypeDef.renderedNameColumn (by decide),
      others TypeDef.docColumn (by decide), others TypeDef.walkOrderColumn (by decide),
      others TypeDef.publicColumn (by decide)]
    rfl
  | tag =>
    refine ⟨.reading, record_hinges (by decide) Union.tagColumn (by simp [Union.fields])
      (fun _ => rfl) (fun left right others same => ?_) replaced⟩
    simp only [same, others Union.nameColumn (by decide), others Union.docColumn (by decide),
      others Union.variantsColumn (by decide), others Union.storageColumn (by decide),
      others Union.formatColumn (by decide), others Union.equalityColumn (by decide),
      others Union.hashColumn (by decide), others Union.docModeColumn (by decide),
      others Union.finalColumn (by decide)]
    rfl
  | variants kind =>
    refine ⟨.reading, record_hinges (by decide) Union.variantsColumn (by simp [Union.fields])
      (fun _ => rfl) (fun left right others same => ?_) replaced⟩
    simp only [same, others Union.nameColumn (by decide), others Union.tagColumn (by decide),
      others Union.docColumn (by decide), others Union.storageColumn (by decide),
      others Union.formatColumn (by decide), others Union.equalityColumn (by decide),
      others Union.hashColumn (by decide), others Union.docModeColumn (by decide),
      others Union.finalColumn (by decide)]
    rfl
  | variantMembers =>
    cases replaced with
    | entry before after => exact ⟨.held, Variant.members_hinge describes whole⟩
    | item => exact absurd describes id

/-- What a text comes to once an unknown key is added to an object of the given kind. -/
def Part.verdict {α : Type} (target : Part) (key : String) (content : α) : Except Fault α :=
  if target.isVariant then .ok content else .error (.unknownField key target.keys)

/-- A strict record refuses an unknown key by its name. -/
theorem record_unknown {α : Type} {phase : Phase} {kind : RecordKind} {fields : List Field}
    {decode : Decoder α} {build : List (String × Value) → Except Fault α}
    (steps : ∀ value, decode value = record phase kind fields value >>= build)
    {before after : List (String × Value)} {key : String} (added : Value)
    (unknown : key ∉ fields.map Field.name) {content : α}
    (accepted : decode (.object (before ++ after) .closed) = .ok content) :
    decode (.object (before ++ (key, added) :: after) .closed) =
      .error (.unknownField key (fields.map Field.name)) := by
  obtain ⟨entries, checked, _⟩ := (Outcome.bind_ok_iff _ _ _).mp (steps _ ▸ accepted)
  rw [record, Outcome.check_ok_iff] at checked
  rw [steps, record, checkEntries_unknown unknown checked.1]
  rfl

/-- An unknown key in the object itself. -/
theorem Part.decode_unknown {target : Part} {before after : List (String × Value)} {key : String}
    {added : Value} (describes : target.Describes (.object (before ++ after) .closed))
    (unknown : key ∉ target.keys) (whole : added.whole = .ok ()) (phase : Phase)
    {content : target.Content}
    (accepted : target.decode phase (.object (before ++ after) .closed) = .ok content) :
    target.decode phase (.object (before ++ (key, added) :: after) .closed) =
      target.verdict key content := by
  cases target with
  | document => exact record_unknown (fun _ => rfl) added unknown accepted
  | type => exact record_unknown (fun _ => rfl) added unknown accepted
  | member => exact record_unknown (fun _ => rfl) added unknown accepted
  | tag => exact record_unknown (fun _ => rfl) added unknown accepted
  | union => exact record_unknown (fun _ => rfl) added unknown accepted
  | variant kind => exact Variant.decode_inserted unknown describes whole accepted

/-- The verdict on a part is passed on to the whole. -/
theorem HingesOn.verdict {α β : Type} {decode : Decoder β} {inner : Decoder α}
    {outer larger old new : Value} (hinges : HingesOn decode outer larger inner old new)
    {target : Part} {key : String}
    (part : ∀ {content}, inner old = .ok content → inner new = target.verdict key content)
    {content : β} (accepted : decode outer = .ok content) :
    decode larger = target.verdict key content := by
  obtain ⟨held, decoded, same, fails⟩ := hinges accepted
  have found := part decoded
  rw [Part.verdict] at found ⊢
  by_cases isVariant : target.isVariant = true
  · rw [if_pos isVariant] at found ⊢
    exact same found
  · rw [if_neg isVariant] at found ⊢
    exact fails _ found

/-- What is replaced is a part of the value around it. -/
theorem FieldReplaced.whole {keys : List String} {name : String} {old new outer larger : Value}
    (replaced : FieldReplaced keys name old new outer larger) (whole : larger.whole = .ok ()) :
    new.whole = .ok () := by
  cases replaced with
  | entry before after =>
    exact ((Value.whole_object_iff _ _).mp whole).1 (name, new) (by simp)
  | item after position => exact ((Value.whole_array_iff _ _).mp whole).1 new (by simp)

/-- An unknown key anywhere below a place decides on the place. -/
theorem Enlarged.decode {target : Part} {key : String} {place : Place} {value larger : Value}
    (enlarged : Enlarged target key place value larger) (whole : larger.whole = .ok ())
    (phase : Phase) {content : place.Content} (accepted : place.decode phase value = .ok content) :
    place.decode phase larger = target.verdict key content := by
  -- The induction goes up from the object that was enlarged.
  induction enlarged generalizing phase with
  | here added describes unknown =>
    have addedWhole : added.whole = .ok () :=
      ((Value.whole_object_iff _ _).mp whole).1 (key, added) (by simp)
    exact Part.decode_unknown describes unknown addedWhole phase accepted
  | inside describes holds replaced _ inductionHypothesis =>
    have newWhole := replaced.whole whole
    obtain ⟨inner, hinges⟩ := holds.hinges phase describes newWhole replaced
    exact hinges.verdict (inductionHypothesis newWhole inner) accepted
  | @element part before after old new _ inductionHypothesis =>
    have newWhole : new.whole = .ok () := ((Value.whole_array_iff _ _).mp whole).1 new (by simp)
    exact list_hinges.verdict (inductionHypothesis newWhole phase) accepted

/-- A key that is added to an object of an accepted text makes it a text that is refused, unless the
object is a variant and the text can be read at all. If the text can be read, then the fault names
the key, and a text with an unknown key in a variant says the same document.

Proof: go up from the object to which the key is added. A strict record that accepts all its other
entries refuses the key by name, and a variant passes over it. Each record and list on the way up
hinges on the part that was changed: it comes to the same if the part does, and fails with the fault
of the part if that fails. So the verdict on the object is that on the document. Reading the text
beforehand fails only if there is a break in it, and then the text is not readable. -/
theorem unknown_key_refused_unless_in_variant (target : Part) (key : String)
    (text longer : String) (value larger : Value) (document : Document)
    (accepted : parse text = .ok document) (said : value.SaidBy text)
    (enlarged : Enlarged target key (.one .document) value larger)
    (saidLonger : larger.SaidBy longer) :
    ((∃ fault, parse longer = .error fault) ↔
      target.isVariant = false ∨ ¬ Json.Readable longer) ∧
    (Json.Readable longer → parse longer =
      if target.isVariant then .ok document else .error (.unknownField key target.keys)) := by
  have decoded : Document.decode value = .ok document := by
    rw [← parse_of_read (said.read (readable_of_parse accepted)), accepted]
  have verdict (readable : Json.Readable longer) :
      parse longer = target.verdict key document := by
    rw [parse_of_read (saidLonger.read readable)]
    exact enlarged.decode saidLonger.whole .reading decoded
  refine ⟨⟨?_, ?_⟩, verdict⟩
  · rintro ⟨fault, failed⟩
    by_contra neither
    obtain ⟨isVariant, readable⟩ : target.isVariant = true ∧ Json.Readable longer := by
      simpa using neither
    rw [verdict readable, Part.verdict, if_pos isVariant] at failed
    simp at failed
  · intro strict
    cases outcome : parse longer with
    | error fault => exact ⟨fault, rfl⟩
    | ok other =>
      -- Then the text is readable and the object is no variant, so that the key is refused.
      have readable := readable_of_parse outcome
      have notVariant : target.isVariant = false := strict.resolve_right (not_not_intro readable)
      rw [verdict readable, Part.verdict, if_neg (by simp [notVariant])] at outcome
      simp at outcome

/-! ## A key too many -/

section Plain

open Json

/-- Whether a token is written without escapes and digits. -/
def isPlain : Token → Bool
  | .text content => content.toList.all fun c => ' ' ≤ c && c ≠ '"' && c ≠ '\\'
  | .number _ | .brokenText _ | .broken _ => false
  | _ => true

/-- The writing of a plain token. -/
def plainText : Token → List Char
  | .openArray => ['[']
  | .closeArray => [']']
  | .openObject => ['\x7b']
  | .closeObject => ['\x7d']
  | .colon => [':']
  | .comma => [',']
  | .null => ['n', 'u', 'l', 'l']
  | .boolean true => ['t', 'r', 'u', 'e']
  | .boolean false => ['f', 'a', 'l', 's', 'e']
  | .text content => '"' :: content.toList ++ ['"']
  | .number _ | .brokenText _ | .broken _ => []

/-- Plain tokens are written one after the other, without blanks. -/
theorem tokensWritten_plain {ts : List Token} (plain : ts.all isPlain = true) :
    TokensWritten ts (ts.flatMap plainText) := by
  induction ts with
  | nil => exact .nil .nil
  | cons token ts inductionHypothesis =>
    rw [List.all_cons, Bool.and_eq_true] at plain
    rw [List.flatMap_cons]
    refine .cons .nil ?_ (inductionHypothesis plain.2)
    cases token with
    | text content => exact .plain content (by simpa [isPlain, and_assoc] using plain.1)
    | boolean value => cases value <;> constructor
    | number | brokenText | broken => simp [isPlain] at plain
    | _ => constructor

/-- A text of plain tokens says their value. -/
theorem said_plain {value : Value} {text : String} (whole : value.whole = .ok ())
    (plain : value.toTokens.all isPlain = true)
    (same : text.toList = value.toTokens.flatMap plainText) : value.SaidBy text :=
  ⟨whole, same ▸ (tokensWritten_plain plain).spelled⟩

end Plain

/-- A text with one variant, at whose end more can be written. -/
def shapeText (more : String) : String :=
  "\x7b\"unions\":[\x7b\"name\":\"Shape\"," ++
    "\"tag\":\x7b\"name\":\"Kind\",\"underlying\":\"u8\"\x7d," ++
    "\"variants\":[\x7b\"kind\":\"struct\",\"name\":\"Dot\"" ++ more ++ "\x7d]\x7d]\x7d"

/-- The value of the text, with more entries at the end of its variant. -/
def shapeValue (more : List (String × Value)) : Value :=
  .object [("unions", .array [.object [
      ("name", .text "Shape"),
      ("tag", .object [("name", .text "Kind"), ("underlying", .text "u8")] .closed),
      ("variants", .array [
        .object ([("kind", .text "struct"), ("name", .text "Dot")] ++ more) .closed] .closed)]
    .closed] .closed)] .closed

/-- What the text says. -/
def shape : Document where
  unions := [{
    name := "Shape", tag := { name := "Kind", underlying := "u8" }
    variants := [{ name := "Dot", body := .record [] }] }]

/-- The text is accepted as it stands. -/
theorem shape_accepted : parse (shapeText "") = .ok shape := by
  decide +kernel

/-- The text says its value. -/
theorem shape_said : (shapeValue []).SaidBy (shapeText "") :=
  said_plain rfl (by decide +kernel) (by decide +kernel)

/-- So does the text with a colour. -/
theorem coloured_said : (shapeValue [("colour", .null)]).SaidBy (shapeText ",\"colour\":null") :=
  said_plain rfl (by decide +kernel) (by decide +kernel)

/-- The colour is one entry more, in a variant with members of its own. -/
theorem shape_enlarged : Enlarged (.variant .record) "colour" (.one .document) (shapeValue [])
    (shapeValue [("colour", .null)]) := by
  refine .inside trivial .unions (.entry [] []) ?_
  refine @Enlarged.element _ _ .union [] [] _ _ ?_
  refine .inside trivial (.variants .record) (.entry [("name", .text "Shape"),
    ("tag", .object [("name", .text "Kind"), ("underlying", .text "u8")] .closed)] []) ?_
  refine @Enlarged.element _ _ (.variant .record) [] [] _ _ ?_
  exact @Enlarged.here _ _ [("kind", .text "struct"), ("name", .text "Dot")] [] .null
    List.mem_cons_self (by decide)

/-- A colour does not make the text unreadable. -/
theorem coloured_readable : Json.Readable (shapeText ",\"colour\":null") := by
  have tokens : Json.tokens (shapeText ",\"colour\":null").toList =
      (shapeValue [("colour", .null)]).toTokens := by
    decide +kernel
  exact ⟨shapeValue [("colour", .null)], by rw [Value.ofText, tokens]; rfl, rfl⟩

/-- A number with a fraction and an exponent. -/
def scale : Json.Numeral where
  isNegative := false
  whole := ['2']
  fraction := some ['5']
  exponent := some ⟨'e', none, ['1'], by simp, by simp, ⟨by simp, by simp⟩⟩
  whole_digits := ⟨by simp, by simp⟩
  no_leading_zero := by simp
  fraction_digits := by
    rintro _ ⟨⟩
    exact ⟨by simp, by simp⟩

/-- The text says a number that is no natural number. -/
theorem scale_said : (Value.object [("scale", .number scale.number)] .closed).SaidBy
    "\x7b\"scale\":2.5e1\x7d" := by
  have spelled := Json.TokensSpelled.cons .nil (.written .openObject) <|
    .cons .nil (.written (.plain "scale" (by simp))) <| .cons .nil (.written .colon) <|
    .cons .nil (.numeral scale) <| .cons .nil (.written .closeObject) <| .nil .nil
  have same : "\x7b\"scale\":2.5e1\x7d".toList =
      ['\x7b'] ++ ('"' :: "scale".toList ++ ['"'] ++ ([':'] ++ (scale.text ++ ['\x7d']))) := by
    decide +kernel
  exact ⟨rfl, same ▸ spelled⟩

/-- A colour in a variant is passed over, and a scale in a document is refused. -/
theorem unknown_key_in_shapes :
    (parse (shapeText "") = .ok shape ∧ (shapeValue []).SaidBy (shapeText "") ∧
      Enlarged (.variant .record) "colour" (.one .document) (shapeValue [])
        (shapeValue [("colour", .null)]) ∧
      (shapeValue [("colour", .null)]).SaidBy (shapeText ",\"colour\":null") ∧
      parse (shapeText ",\"colour\":null") = .ok shape) ∧
    parse "\x7b\x7d" = .ok {} ∧ ∃ fault, parse "\x7b\"scale\":2.5e1\x7d" = .error fault := by
  have emptyAccepted : parse "\x7b\x7d" = .ok {} := by decide +kernel
  have emptySaid : (Value.object [] .closed).SaidBy "\x7b\x7d" :=
    said_plain rfl (by decide +kernel) (by decide +kernel)
  have scaleEnlarged : Enlarged .document "scale" (.one .document) (.object [] .closed)
      (.object [("scale", .number scale.number)] .closed) :=
    @Enlarged.here _ _ [] [] _ trivial (by decide)
  obtain ⟨_, passedOver⟩ := unknown_key_refused_unless_in_variant _ _ _ _ _ _ _ shape_accepted
    shape_said shape_enlarged coloured_said
  obtain ⟨refused, _⟩ := unknown_key_refused_unless_in_variant _ _ _ _ _ _ _ emptyAccepted
    emptySaid scaleEnlarged scale_said
  exact ⟨⟨shape_accepted, shape_said, shape_enlarged, coloured_said, passedOver coloured_readable⟩,
    emptyAccepted, refused.mpr (.inl rfl)⟩

/-- Not every unknown key makes an accepted text one that is refused. -/
theorem unknown_key_not_always_refused :
    ¬ ∀ (target : Part) (key text longer : String) (value larger : Value) (document : Document),
      parse text = .ok document → value.SaidBy text →
        Enlarged target key (.one .document) value larger → larger.SaidBy longer →
          ∃ fault, parse longer = .error fault := by
  intro always
  obtain ⟨fault, refused⟩ := always _ _ _ _ _ _ _ shape_accepted shape_said shape_enlarged
    coloured_said
  have accepted : parse (shapeText ",\"colour\":null") = .ok shape := by decide +kernel
  rw [accepted] at refused
  simp at refused

end Taxonomy.Document
