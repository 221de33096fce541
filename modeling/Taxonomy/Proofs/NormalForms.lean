import Mathlib.Tactic.Common
import Taxonomy.Proofs.Outcome
import Taxonomy.Schema

/-!
# Documents up to spelling

Several documents describe one schema: what is left out can also be said, a type can be public
under its own name or by a flag, and only data can be simple. The normal form of a document says
everything in one way. Two documents describe one schema exactly if their normal forms are the
same, so that nothing but these ways of saying a thing gets lost when a document is loaded.

A document describes the same as its normal form. Conversely, the normal form can be spelled out
from the schema that a document describes.
-/
namespace Taxonomy

/-! ## Normal forms -/

namespace Document

/-- The passing is said, and only data is simple. -/
def Member.normal (member : Member) : Member :=
  { member with
    simple := decide (member.kind = .data) && member.simple
    passAs := some (member.passAs.getD "copy") }

/-- A type that is not public says nothing of it, and a public one says its name. -/
def TypeDef.normalPublicity (type : TypeDef) : Option Publicity :=
  match type.publicity with
  | none => none
  | some (.flag false) => none
  | some (.flag true) => some (.named type.name)
  | some (.named name) => some (.named name)

/-- The order of the walk is said, and so is the name under which the type is public. -/
def TypeDef.normal (type : TypeDef) : TypeDef :=
  { type with
    members := type.members.map Member.normal
    walkOrder := some (type.walkOrder.getD "base_first")
    publicity := type.normalPublicity }

/-- The passing of an alias is said. -/
def VariantBody.normal : VariantBody → VariantBody
  | .record members => .record (members.map Member.normal)
  | .wrapped target passAs => .wrapped target (some (passAs.getD "copy"))

/-- The names that could be derived are said. -/
def Variant.normal (variant : Variant) : Variant :=
  { variant with
    body := variant.body.normal
    argumentName := some (variant.argumentName.getD (VariantNames.ofName variant.name).argument)
    accessorName := some (variant.accessorName.getD (VariantNames.ofName variant.name).accessor) }

/-- All capabilities are said. -/
def Union.normal (union : Union) : Union :=
  { union with
    variants := union.variants.map Variant.normal
    storage := some (union.storage.getD "trivial")
    format := some (union.format.getD "none")
    equality := some (union.equality.getD "none")
    hash := some (union.hash.getD "none")
    docMode := some (union.docMode.getD "member") }

/-- The document, with everything said that could be left out. -/
def normal (document : Document) : Document :=
  { types := document.types.map TypeDef.normal
    unions := document.unions.map Union.normal }

end Document

/-! ## A document describes the same as its normal form -/

section Choices

variable {α : Type} [Spelled α]

/-- A default that is said is the default. -/
theorem choiceOr_normal (fault : String → Fault) (default : α) (text : Option String) :
    choiceOr default (readChoice fault) (some (text.getD (spelling default))) =
      choiceOr default (readChoice fault) text := by
  cases text with
  | none =>
    have found : Spelled.read? (spelling default) = some default :=
      (Spelled.read?_some_iff _ default).mpr rfl
    simp only [Option.getD_none, choiceOr, readChoice, found]
  | some text => rfl

/-- A choice that was read is spelled as it was said. -/
theorem spelling_of_readChoice {fault : String → Fault} {value : α} {text : String}
    (read : readChoice fault text = .ok value) : spelling value = text := by
  rw [readChoice] at read
  cases found : (Spelled.read? text : Option α) with
  | none => simp [found] at read
  | some other =>
    obtain rfl : other = value := by simpa [found] using read
    exact (Spelled.read?_some_iff text other).mp found

/-- A choice is spelled as it was said, or as the default is. -/
theorem spelling_of_choiceOr {fault : String → Fault} {default value : α} {text : Option String}
    (read : choiceOr default (readChoice fault) text = .ok value) :
    spelling value = text.getD (spelling default) := by
  cases text with
  | none =>
    obtain rfl : default = value := Except.ok.inj read
    rfl
  | some text => exact spelling_of_readChoice read

end Choices

/-- If each element comes to the same as its normal form, so does the list. -/
theorem mapM_normal {α β : Type} {step : α → Except Fault β} {normal : α → α}
    (each : ∀ element, step (normal element) = step element) (elements : List α) :
    (elements.map normal).mapM step = elements.mapM step := by
  rw [List.mapM_map]
  exact congrArg (elements.mapM ·) (funext each)

/-- Whether a member is simple matters to data only. -/
theorem MemberKind.ofDocument_normal (member : Document.Member) :
    MemberKind.ofDocument member.normal = MemberKind.ofDocument member := by
  cases kind : member.kind <;> simp [MemberKind.ofDocument, Document.Member.normal, kind]

/-- A member comes to the same as its normal form, for any owner. -/
theorem Member.ofDocument_normal (owner : String) (member : Document.Member) :
    Member.ofDocument owner member.normal = Member.ofDocument owner member := by
  have passing : choiceOr .copy (Passing.read owner) member.normal.passAs =
      choiceOr .copy (Passing.read owner) member.passAs := choiceOr_normal _ Passing.copy _
  rw [Member.ofDocument, Member.ofDocument, passing, MemberKind.ofDocument_normal]
  rfl

/-- A type that is public without a name of its own is public under its name. -/
theorem publicNameOf_normal (type : Document.TypeDef) :
    publicNameOf type.normal = publicNameOf type := by
  unfold publicNameOf Document.TypeDef.normal Document.TypeDef.normalPublicity
  rcases type.publicity with _ | (isPublic | name)
  · rfl
  · cases isPublic <;> rfl
  · rfl

/-- A type comes to the same as its normal form. -/
theorem TypeDef.ofDocument_normal (type : Document.TypeDef) :
    TypeDef.ofDocument type.normal = TypeDef.ofDocument type := by
  have walkOrder : choiceOr .baseFirst (WalkOrder.read type.name) type.normal.walkOrder =
      choiceOr .baseFirst (WalkOrder.read type.name) type.walkOrder :=
    choiceOr_normal _ WalkOrder.baseFirst _
  have members : type.normal.members.mapM (Member.ofDocument type.name) =
      type.members.mapM (Member.ofDocument type.name) :=
    mapM_normal (Member.ofDocument_normal type.name) type.members
  have name : type.normal.name = type.name := rfl
  rw [TypeDef.ofDocument, TypeDef.ofDocument, name, walkOrder, members, publicNameOf_normal]
  rfl

/-- What a variant holds comes to the same as its normal form. -/
theorem VariantBody.ofDocument_normal (owner : String) (body : Document.VariantBody) :
    VariantBody.ofDocument owner body.normal = VariantBody.ofDocument owner body := by
  cases body with
  | record members =>
    rw [Document.VariantBody.normal, VariantBody.ofDocument, VariantBody.ofDocument,
      mapM_normal (Member.ofDocument_normal owner)]
  | wrapped target passAs =>
    have passing : choiceOr .copy (Passing.read owner) (some (passAs.getD "copy")) =
        choiceOr .copy (Passing.read owner) passAs := choiceOr_normal _ Passing.copy _
    rw [Document.VariantBody.normal, VariantBody.ofDocument, VariantBody.ofDocument, passing]

/-- A variant comes to the same as its normal form, which gives the derived names as if they had
been said. -/
theorem Variant.ofDocument_normal (union : String) (variant : Document.Variant) :
    Variant.ofDocument union variant.normal = Variant.ofDocument union variant := by
  have names : VariantNames.ofOverrides variant.normal.name variant.normal.argumentName
      variant.normal.accessorName =
        VariantNames.ofOverrides variant.name variant.argumentName variant.accessorName := rfl
  have body : VariantBody.ofDocument (union ++ "::" ++ variant.normal.name) variant.normal.body =
      VariantBody.ofDocument (union ++ "::" ++ variant.name) variant.body :=
    VariantBody.ofDocument_normal _ variant.body
  rw [Variant.ofDocument, Variant.ofDocument, names, body]
  rfl

/-- A union comes to the same as its normal form: each capability that is said to have its default
has it. -/
theorem Union.ofDocument_normal (union : Document.Union) :
    Union.ofDocument union.normal = Union.ofDocument union := by
  have storage : choiceOr .trivial (Storage.read union.name) union.normal.storage =
      choiceOr .trivial (Storage.read union.name) union.storage :=
    choiceOr_normal _ Storage.trivial _
  have formatting : choiceOr .none (Formatting.read union.name) union.normal.format =
      choiceOr .none (Formatting.read union.name) union.format :=
    choiceOr_normal _ Formatting.none _
  have equality : choiceOr .none (Equality.read union.name) union.normal.equality =
      choiceOr .none (Equality.read union.name) union.equality :=
    choiceOr_normal _ Equality.none _
  have hashing : choiceOr .none (Hashing.read union.name) union.normal.hash =
      choiceOr .none (Hashing.read union.name) union.hash :=
    choiceOr_normal _ Hashing.none _
  have docPlace : choiceOr .member (DocPlace.read union.name) union.normal.docMode =
      choiceOr .member (DocPlace.read union.name) union.docMode :=
    choiceOr_normal _ DocPlace.member _
  have variants : union.normal.variants.mapM (Variant.ofDocument union.name) =
      union.variants.mapM (Variant.ofDocument union.name) :=
    mapM_normal (Variant.ofDocument_normal union.name) union.variants
  have name : union.normal.name = union.name := rfl
  rw [Union.ofDocument, Union.ofDocument, name, storage, formatting, equality, hashing, docPlace,
    variants]
  rfl

/-- A document describes the same schema as its normal form, or fails alike. -/
theorem Schema.ofDocument_normal (document : Document) :
    Schema.ofDocument document.normal = Schema.ofDocument document := by
  rw [Schema.ofDocument, Schema.ofDocument, Document.normal,
    mapM_normal TypeDef.ofDocument_normal, mapM_normal Union.ofDocument_normal]

/-! ## The normal form is spelled out from the schema -/

namespace MemberKind

/-- The kind of a member in a document. -/
def toDocument : MemberKind → Document.MemberKind
  | .data _ _ => .data
  | .dataList _ => .dataList
  | .node _ => .node
  | .nodeList _ => .nodeList

/-- The type that a member in a document is of. -/
def typeText : MemberKind → String
  | .data type _ => type
  | .dataList element => element
  | .node type => type.text
  | .nodeList element => element.text

/-- Whether a member in a document is simple. -/
def isSimple : MemberKind → Bool
  | .data _ simple => simple
  | .dataList _ | .node _ | .nodeList _ => false

end MemberKind

/-- A member, with everything said. -/
def Member.toDocument (member : Member) : Document.Member where
  name := member.name
  kind := member.kind.toDocument
  type := member.kind.typeText
  required := member.required
  simple := member.kind.isSimple
  passAs := some (spelling member.passing)
  doc := member.doc

/-- A type, with everything said. -/
def TypeDef.toDocument (type : TypeDef) : Document.TypeDef where
  name := type.name
  base := type.base.map TypeRef.text
  isFinal := type.isFinal
  renderedName := type.renderedName
  doc := type.doc
  members := type.members.map Member.toDocument
  walkOrder := some (spelling type.walkOrder)
  publicity := type.publicName.map .named

/-- The tag of a union, with everything said. -/
def Tag.toDocument (tag : Tag) : Document.Tag where
  name := tag.name
  underlying := spelling tag.width
  start := tag.start
  doc := tag.doc

/-- What a variant holds, with everything said. -/
def VariantBody.toDocument : VariantBody → Document.VariantBody
  | .record members => .record (members.map Member.toDocument)
  | .wrapped target passing => .wrapped target (some (spelling passing))

/-- A variant, with everything said. -/
def Variant.toDocument (variant : Variant) : Document.Variant where
  name := variant.name
  body := variant.body.toDocument
  doc := variant.doc
  argumentName := some variant.names.argument
  accessorName := some variant.names.accessor

/-- A union, with everything said. -/
def Union.toDocument (union : Union) : Document.Union where
  name := union.name
  tag := union.tag.toDocument
  doc := union.doc
  variants := union.variants.map Variant.toDocument
  storage := some (spelling union.capabilities.storage)
  format := some (spelling union.capabilities.formatting)
  equality := some (spelling union.capabilities.equality)
  hash := some (spelling union.capabilities.hashing)
  docMode := some (spelling union.capabilities.docPlace)
  isFinal := union.isFinal

/-- A schema, with everything said. -/
def Schema.toDocument (schema : Schema) : Document where
  types := schema.types.map TypeDef.toDocument
  unions := schema.unions.map Union.toDocument

/-- If what each element comes to spells its normal form out, so do the elements of a list. -/
theorem map_toDocument {α β : Type} {step : α → Except Fault β} {normal : α → α}
    {spellOut : β → α} (each : ∀ element result, step element = .ok result →
      spellOut result = normal element) {elements : List α} {results : List β}
    (loaded : elements.mapM step = .ok results) :
    results.map spellOut = elements.map normal := by
  rw [Outcome.mapM_ok_iff] at loaded
  induction loaded with
  | nil => rfl
  | cons head _ inductionHypothesis =>
    rw [List.map_cons, List.map_cons, each _ _ head, inductionHypothesis]

/-- A loaded member spells its normal form out. The cases are the kinds, as each keeps other fields.
-/
theorem Member.toDocument_of_loaded {owner : String} (member : Document.Member) (result : Member)
    (loaded : Member.ofDocument owner member = .ok result) :
    result.toDocument = member.normal := by
  simp only [Member.ofDocument, Outcome.bind_ok_iff, Outcome.pure_ok_iff] at loaded
  obtain ⟨passing, read, rfl⟩ := loaded
  have word : spelling passing = member.passAs.getD "copy" := spelling_of_choiceOr read
  obtain ⟨name, kind, type, required, simple, passAs, doc⟩ := member
  cases kind <;> simp [toDocument, Document.Member.normal, MemberKind.ofDocument,
    MemberKind.toDocument, MemberKind.typeText, MemberKind.isSimple, TypeRef.text, word]

/-- A public name spells the normal publicity out. -/
theorem publicName_toDocument (type : Document.TypeDef) :
    (publicNameOf type).map Document.Publicity.named = type.normalPublicity := by
  unfold publicNameOf Document.TypeDef.normalPublicity
  rcases type.publicity with _ | (isPublic | name)
  · rfl
  · cases isPublic <;> rfl
  · rfl

/-- A loaded type spells its normal form out. -/
theorem TypeDef.toDocument_of_loaded (type : Document.TypeDef) (result : TypeDef)
    (loaded : TypeDef.ofDocument type = .ok result) : result.toDocument = type.normal := by
  simp only [TypeDef.ofDocument, Outcome.bind_ok_iff, Outcome.pure_ok_iff] at loaded
  obtain ⟨walkOrder, read, members, loadedMembers, rfl⟩ := loaded
  have word : spelling walkOrder = type.walkOrder.getD "base_first" := spelling_of_choiceOr read
  have base : (type.base.map TypeRef.named).map TypeRef.text = type.base := by
    cases type.base <;> rfl
  simp only [toDocument, Document.TypeDef.normal, word, base, publicName_toDocument,
    map_toDocument Member.toDocument_of_loaded loadedMembers]

/-- A loaded tag spells itself out. A start that is not said stays unsaid. -/
theorem Tag.toDocument_of_loaded {tag : Document.Tag} {result : Tag}
    (loaded : Tag.ofDocument tag = .ok result) : result.toDocument = tag := by
  simp only [Tag.ofDocument, Outcome.bind_ok_iff, Outcome.pure_ok_iff] at loaded
  obtain ⟨width, read, rfl⟩ := loaded
  have word : spelling width = tag.underlying := spelling_of_readChoice read
  simp only [toDocument, word]

/-- What a loaded variant holds spells its normal form out. -/
theorem VariantBody.toDocument_of_loaded {owner : String} {body : Document.VariantBody}
    {result : VariantBody} (loaded : VariantBody.ofDocument owner body = .ok result) :
    result.toDocument = body.normal := by
  cases body with
  | record members =>
    simp only [VariantBody.ofDocument, Outcome.bind_ok_iff, Outcome.pure_ok_iff] at loaded
    obtain ⟨members', loadedMembers, rfl⟩ := loaded
    simp only [toDocument, Document.VariantBody.normal,
      map_toDocument Member.toDocument_of_loaded loadedMembers]
  | wrapped target passAs =>
    simp only [VariantBody.ofDocument, Outcome.bind_ok_iff, Outcome.pure_ok_iff] at loaded
    obtain ⟨passing, read, rfl⟩ := loaded
    have word : spelling passing = passAs.getD "copy" := spelling_of_choiceOr read
    simp only [toDocument, Document.VariantBody.normal, word]

/-- A loaded variant spells its normal form out, with its names, derived or not. -/
theorem Variant.toDocument_of_loaded {union : String} (variant : Document.Variant)
    (result : Variant) (loaded : Variant.ofDocument union variant = .ok result) :
    result.toDocument = variant.normal := by
  simp only [Variant.ofDocument, Outcome.bind_ok_iff, Outcome.pure_ok_iff] at loaded
  obtain ⟨body, loadedBody, rfl⟩ := loaded
  simp only [toDocument, Document.Variant.normal, VariantBody.toDocument_of_loaded loadedBody,
    VariantNames.ofOverrides]

/-- A loaded union spells its normal form out. -/
theorem Union.toDocument_of_loaded (union : Document.Union) (result : Union)
    (loaded : Union.ofDocument union = .ok result) : result.toDocument = union.normal := by
  simp only [Union.ofDocument, Outcome.bind_ok_iff, Outcome.pure_ok_iff] at loaded
  obtain ⟨tag, loadedTag, storage, readStorage, formatting, readFormatting, equality,
    readEquality, hashing, readHashing, docPlace, readDocPlace, variants, loadedVariants, rfl⟩ :=
    loaded
  have storageWord : spelling storage = union.storage.getD "trivial" :=
    spelling_of_choiceOr readStorage
  have formattingWord : spelling formatting = union.format.getD "none" :=
    spelling_of_choiceOr readFormatting
  have equalityWord : spelling equality = union.equality.getD "none" :=
    spelling_of_choiceOr readEquality
  have hashingWord : spelling hashing = union.hash.getD "none" :=
    spelling_of_choiceOr readHashing
  have docPlaceWord : spelling docPlace = union.docMode.getD "member" :=
    spelling_of_choiceOr readDocPlace
  simp only [toDocument, Document.Union.normal, Tag.toDocument_of_loaded loadedTag, storageWord,
    formattingWord, equalityWord, hashingWord, docPlaceWord,
    map_toDocument Variant.toDocument_of_loaded loadedVariants]

/-- The schema that a document describes spells the normal form of the document out. -/
theorem Schema.toDocument_of_loaded {document : Document} {schema : Schema}
    (loaded : Schema.ofDocument document = .ok schema) : schema.toDocument = document.normal := by
  simp only [Schema.ofDocument, Outcome.bind_ok_iff, Outcome.pure_ok_iff] at loaded
  obtain ⟨types, loadedTypes, unions, loadedUnions, rfl⟩ := loaded
  simp only [toDocument, Document.normal, map_toDocument TypeDef.toDocument_of_loaded loadedTypes,
    map_toDocument Union.toDocument_of_loaded loadedUnions]

/-- Two documents describe one schema exactly if they are the same up to spelling.

Proof: a document describes the same schema as its normal form, which gives one direction.
For the other one, a schema spells a document out, and the one that it spells out is the
normal form of every document that describes it: a choice is spelled as it was said or as
its default is, and all else is kept. -/
theorem loading_forgets_only_spelling (first second : Document) (left right : Schema)
    (loadedFirst : Schema.ofDocument first = .ok left)
    (loadedSecond : Schema.ofDocument second = .ok right) :
    left = right ↔ first.normal = second.normal := by
  constructor
  · rintro rfl
    rw [← Schema.toDocument_of_loaded loadedFirst, ← Schema.toDocument_of_loaded loadedSecond]
  · intro same
    have alike : (Except.ok left : Except Fault Schema) = .ok right := by
      rw [← loadedFirst, ← loadedSecond, ← Schema.ofDocument_normal first, same,
        Schema.ofDocument_normal second]
    exact Except.ok.inj alike

/-- A union of one variant that leaves out what it can, and a type that is public under its own
name. -/
def terse : Document where
  types := [{
    name := "Twig", publicity := some (.flag true)
    members := [{ name := "bark", kind := .node, type := "Twig", simple := true }] }]
  unions := [{
    name := "Sap", tag := { name := "SapTag", underlying := "u8" }
    variants := [{ name := "TreeResin", body := .wrapped "Drop" none }] }]

/-- The same, said at more length. -/
def wordy : Document where
  types := [{
    name := "Twig", publicity := some (.named "Twig"), walkOrder := some "base_first"
    members := [{ name := "bark", kind := .node, type := "Twig" }] }]
  unions := [{
    name := "Sap", tag := { name := "SapTag", underlying := "u8" }, docMode := some "member"
    variants := [{
      name := "TreeResin", body := .wrapped "Drop" (some "copy")
      accessorName := some "as_tree_resin" }] }]

/-- The same, but for a tag that starts at zero explicitly. -/
def fromZero : Document where
  types := terse.types
  unions := [{
    name := "Sap", tag := { name := "SapTag", underlying := "u8", start := some 0 }
    variants := [{ name := "TreeResin", body := .wrapped "Drop" none }] }]

/-- The terse document and the wordy one describe one schema. The one that starts its tag at zero
describes another, as a start is kept as it was said. -/
theorem terse_and_wordy_loaded_alike :
    ∃ left right other, Schema.ofDocument terse = .ok left ∧ Schema.ofDocument wordy = .ok right ∧
      Schema.ofDocument fromZero = .ok other ∧ left = right ∧ left ≠ other := by
  obtain ⟨left, ofTerse⟩ : ∃ left, Schema.ofDocument terse = .ok left := ⟨_, rfl⟩
  obtain ⟨right, ofWordy⟩ : ∃ right, Schema.ofDocument wordy = .ok right := ⟨_, rfl⟩
  obtain ⟨other, ofFromZero⟩ : ∃ other, Schema.ofDocument fromZero = .ok other := ⟨_, rfl⟩
  have same : terse.normal = wordy.normal := by decide +kernel
  have differ : terse.normal ≠ fromZero.normal := by decide
  exact ⟨left, right, other, ofTerse, ofWordy, ofFromZero,
    (loading_forgets_only_spelling terse wordy left right ofTerse ofWordy).mpr same,
    fun alike => differ
      ((loading_forgets_only_spelling terse fromZero left other ofTerse ofFromZero).mp alike)⟩

end Taxonomy
