import Taxonomy.Proofs.Outcome
import Taxonomy.Schema

/-!
# The first illegal word of a document

A document spells choices out in words. The words stand in a fixed order: those of the types,
each with the order of its walk before the passing of its members, then those of the unions, each
with the width of its tag, its capabilities and then its variants. Every word has an owner, which
is the type, the tag, the union or the variant that it is about.

A document describes a schema exactly if each of its words is one to choose from. Otherwise the
fault is that of the first word that is not, whatever comes after it. The words and the choices
are listed here by themselves, without the functions that read them.
-/
namespace Taxonomy

/-- What a word of a document is to choose. -/
inductive Choice where
  | walkOrder
  | passing
  | tagWidth
  | storage
  | formatting
  | equality
  | hashing
  | docPlace
deriving DecidableEq, Repr

/-- The words to choose from. -/
def Choice.legal : Choice → List String
  | .walkOrder => ["base_first", "derived_first"]
  | .passing => ["copy", "move"]
  | .tagWidth => ["u8", "u16", "u32", "u64"]
  | .storage => ["trivial", "movable"]
  | .formatting => ["none", "declare", "define"]
  | .equality => ["none", "define"]
  | .hashing => ["none", "define"]
  | .docPlace => ["member", "tag"]

/-- A word of a document, with what it is to choose and for whom. -/
structure Word where
  choice : Choice
  owner : String
  text : String
deriving DecidableEq, Repr

/-- The word is one of those to choose from. -/
def Word.Legal (word : Word) : Prop :=
  word.text ∈ word.choice.legal

instance (word : Word) : Decidable word.Legal :=
  inferInstanceAs (Decidable (_ ∈ _))

/-- The fault that reports the word, with its owner. -/
def Word.fault (word : Word) : Fault :=
  match word.choice with
  | .walkOrder => .invalidWalkOrder word.owner word.text
  | .passing => .invalidPassing word.owner word.text
  | .tagWidth => .invalidTagWidth word.owner word.text
  | .storage => .invalidStorage word.owner word.text
  | .formatting => .invalidCapability word.owner .format word.text
  | .equality => .invalidCapability word.owner .equality word.text
  | .hashing => .invalidCapability word.owner .hash word.text
  | .docPlace => .invalidCapability word.owner .doc word.text

/-- The fault of a word, if it is none of those to choose from. -/
def Word.fault? (word : Word) : Option Fault :=
  if word.Legal then none else some word.fault

namespace Document

/-- The word of a choice that may be left open. -/
def given (choice : Choice) (owner : String) (text : Option String) : List Word :=
  text.toList.map fun text => ⟨choice, owner, text⟩

/-- The words of a member of the given owner. -/
def Member.words (owner : String) (member : Member) : List Word :=
  given .passing owner member.passAs

/-- The words of a type. -/
def TypeDef.words (type : TypeDef) : List Word :=
  given .walkOrder type.name type.walkOrder ++ type.members.flatMap (Member.words type.name)

/-- The words of what a variant holds. -/
def VariantBody.words (owner : String) : VariantBody → List Word
  | .record members => members.flatMap (Member.words owner)
  | .wrapped _ passAs => given .passing owner passAs

/-- The words of a variant of the given union. -/
def Variant.words (union : String) (variant : Variant) : List Word :=
  variant.body.words (union ++ "::" ++ variant.name)

/-- The words of a union. -/
def Union.words (union : Union) : List Word :=
  [⟨.tagWidth, union.tag.name, union.tag.underlying⟩] ++
    given .storage union.name union.storage ++
    given .formatting union.name union.format ++
    given .equality union.name union.equality ++
    given .hashing union.name union.hash ++
    given .docPlace union.name union.docMode ++
    union.variants.flatMap (Variant.words union.name)

/-- The words of a document in their order. -/
def words (document : Document) : List Word :=
  document.types.flatMap TypeDef.words ++ document.unions.flatMap Union.words

end Document

open Document (given)

/-- The values of the type are what the words of the choice choose from, and `read` reads them
for an owner. -/
structure Choice.ReadBy {α : Type} [Spelled α] (choice : Choice)
    (read : String → String → Except Fault α) : Prop where
  legal : choice.legal = (Spelled.values : List α).map spelling
  read : ∀ owner, read owner = readChoice fun text => Word.fault ⟨choice, owner, text⟩

/-- The walk order of a type is read for the type. -/
theorem WalkOrder.readBy : Choice.walkOrder.ReadBy WalkOrder.read := ⟨rfl, fun _ => rfl⟩

/-- The passing is read for the owner of the member or the variant. -/
theorem Passing.readBy : Choice.passing.ReadBy Passing.read := ⟨rfl, fun _ => rfl⟩

/-- The width of a tag is read for the tag. -/
theorem TagWidth.readBy : Choice.tagWidth.ReadBy TagWidth.read := ⟨rfl, fun _ => rfl⟩

/-- The storage of a union is read for the union. -/
theorem Storage.readBy : Choice.storage.ReadBy Storage.read := ⟨rfl, fun _ => rfl⟩

/-- The formatting of a union is read for the union, as one of its capabilities. -/
theorem Formatting.readBy : Choice.formatting.ReadBy Formatting.read := ⟨rfl, fun _ => rfl⟩

/-- The same for equality. -/
theorem Equality.readBy : Choice.equality.ReadBy Equality.read := ⟨rfl, fun _ => rfl⟩

/-- The same for hashing. -/
theorem Hashing.readBy : Choice.hashing.ReadBy Hashing.read := ⟨rfl, fun _ => rfl⟩

/-- The same for the place of the documentation. -/
theorem DocPlace.readBy : Choice.docPlace.ReadBy DocPlace.read := ⟨rfl, fun _ => rfl⟩

section Words

variable {α : Type} [Spelled α] {choice : Choice} {read : String → String → Except Fault α}

/-- A word is read unless it is none of those to choose from. -/
theorem Choice.ReadBy.fault? (readBy : choice.ReadBy read) (owner text : String) :
    Outcome.fault? (read owner text) = Word.fault? ⟨choice, owner, text⟩ := by
  have legal_iff : Word.Legal ⟨choice, owner, text⟩ ↔
      ∃ value : α, Spelled.read? text = some value := by
    rw [Word.Legal, readBy.legal, List.mem_map]
    simp [Spelled.read?_some_iff, Spelled.values_complete]
  rw [readBy.read, readChoice]
  cases found : (Spelled.read? text : Option α) with
  | none =>
    have illegal : ¬ Word.Legal ⟨choice, owner, text⟩ := by simp [legal_iff, found]
    rw [Word.fault?, if_neg illegal]
    rfl
  | some value =>
    have legal : Word.Legal ⟨choice, owner, text⟩ := legal_iff.mpr ⟨value, found⟩
    rw [Word.fault?, if_pos legal]
    rfl

/-- A choice that is left open has no fault. -/
theorem Choice.ReadBy.fault?_choiceOr (readBy : choice.ReadBy read) (default : α)
    (owner : String) (text : Option String) :
    Outcome.fault? (choiceOr default (read owner) text) =
      (given choice owner text).findSome? Word.fault? := by
  cases text with
  | none => rfl
  | some text =>
    rw [choiceOr, readBy.fault?, given, Option.toList_some, List.map_singleton,
      List.findSome?_singleton]

end Words

/-- If each element has the fault of its first illegal word, so has the list. -/
theorem fault?_mapM_words {α β : Type} {step : α → Except Fault β} {part : α → List Word}
    (each : ∀ element, Outcome.fault? (step element) = (part element).findSome? Word.fault?)
    (elements : List α) :
    Outcome.fault? (elements.mapM step) = (elements.flatMap part).findSome? Word.fault? := by
  rw [Outcome.fault?_mapM, Outcome.findSome?_flatMap]
  exact Outcome.findSome?_congr fun element _ => each element

/-- A member has one word at most. -/
theorem Member.ofDocument_fault? (owner : String) (member : Document.Member) :
    Outcome.fault? (Member.ofDocument owner member) =
      (member.words owner).findSome? Word.fault? := by
  rw [Member.ofDocument, Outcome.fault?_bind_pure, Passing.readBy.fault?_choiceOr]
  rfl

/-- A type reads its walk order before its members. -/
theorem TypeDef.ofDocument_fault? (type : Document.TypeDef) :
    Outcome.fault? (TypeDef.ofDocument type) = type.words.findSome? Word.fault? := by
  rw [TypeDef.ofDocument, Outcome.fault?_bind_const, WalkOrder.readBy.fault?_choiceOr,
    fault?_mapM_words (Member.ofDocument_fault? type.name), Document.TypeDef.words,
    List.findSome?_append]

/-- A variant with members of its own has the words of the members, any other one the passing of
what it holds. -/
theorem VariantBody.ofDocument_fault? (owner : String) (body : Document.VariantBody) :
    Outcome.fault? (VariantBody.ofDocument owner body) =
      (body.words owner).findSome? Word.fault? := by
  cases body with
  | record members =>
    rw [VariantBody.ofDocument, Outcome.fault?_bind_pure,
      fault?_mapM_words (Member.ofDocument_fault? owner)]
    rfl
  | wrapped target passAs =>
    rw [VariantBody.ofDocument, Outcome.fault?_bind_pure, Passing.readBy.fault?_choiceOr]
    rfl

/-- A variant is named with its union where its words are at fault. -/
theorem Variant.ofDocument_fault? (union : String) (variant : Document.Variant) :
    Outcome.fault? (Variant.ofDocument union variant) =
      (variant.words union).findSome? Word.fault? := by
  rw [Variant.ofDocument, Outcome.fault?_bind_pure, VariantBody.ofDocument_fault?]
  rfl

/-- A tag always says its width. -/
theorem Tag.ofDocument_fault? (tag : Document.Tag) :
    Outcome.fault? (Tag.ofDocument tag) = Word.fault? ⟨.tagWidth, tag.name, tag.underlying⟩ := by
  rw [Tag.ofDocument, Outcome.fault?_bind_pure, TagWidth.readBy.fault?]

/-- A union reads its tag first, then its capabilities, and its variants last. -/
theorem Union.ofDocument_fault? (union : Document.Union) :
    Outcome.fault? (Union.ofDocument union) = union.words.findSome? Word.fault? := by
  -- No step looks at the result of another one, so the faults come one after the other.
  rw [Union.ofDocument, Outcome.fault?_bind fun _ => Outcome.fault?_bind fun _ =>
    Outcome.fault?_bind fun _ => Outcome.fault?_bind fun _ => Outcome.fault?_bind fun _ =>
    Outcome.fault?_bind_const _ _ _,
    Tag.ofDocument_fault?, Storage.readBy.fault?_choiceOr, Formatting.readBy.fault?_choiceOr,
    Equality.readBy.fault?_choiceOr, Hashing.readBy.fault?_choiceOr,
    DocPlace.readBy.fault?_choiceOr, fault?_mapM_words (Variant.ofDocument_fault? union.name)]
  simp only [Document.Union.words, List.findSome?_append, List.findSome?_singleton, Option.or_assoc]

/-- Loading a document has the fault of the first illegal word, if there is one. -/
theorem Schema.ofDocument_fault? (document : Document) :
    Outcome.fault? (Schema.ofDocument document) = document.words.findSome? Word.fault? := by
  rw [Schema.ofDocument, Outcome.fault?_bind_const, fault?_mapM_words TypeDef.ofDocument_fault?,
    fault?_mapM_words Union.ofDocument_fault?, Document.words, List.findSome?_append]

/-- A word has no fault but its own, and that only if it is illegal. -/
theorem Word.fault?_some_iff (word : Word) (fault : Fault) :
    word.fault? = some fault ↔ ¬ word.Legal ∧ fault = word.fault := by
  rw [Word.fault?]
  by_cases legal : word.Legal
  · simp [legal]
  · simp [legal, eq_comm]

/-- The legal words are those without a fault. -/
theorem Word.fault?_none_iff (word : Word) : word.fault? = none ↔ word.Legal := by
  rw [Word.fault?]
  by_cases legal : word.Legal <;> simp [legal]

/-- A document fails to describe a schema exactly if one of its words is none of those to choose
from. The fault is then that of the first such word: it names the word and its owner.

Proof: loading is a run of steps none of which looks at the result of another one, so it has the
fault of the first step with one. The steps that can fail are those that read a word, in the order
of the words of the document, and each fails exactly if its word is illegal. -/
theorem loading_reports_first_illegal_word (document : Document) :
    ((∃ fault, Schema.ofDocument document = .error fault) ↔
      ∃ word ∈ document.words, ¬ word.Legal) ∧
    ∀ fault, Schema.ofDocument document = .error fault ↔
      ∃ before word after, document.words = before ++ word :: after ∧
        (∀ earlier ∈ before, earlier.Legal) ∧ ¬ word.Legal ∧ fault = word.fault := by
  constructor
  · simp only [← Outcome.fault?_some_iff, Schema.ofDocument_fault?]
    rw [← Option.isSome_iff_exists, List.findSome?_isSome_iff]
    refine exists_congr fun word => and_congr_right fun _ => ?_
    rw [← word.fault?_none_iff, Option.isSome_iff_ne_none]
  · intro fault
    rw [← Outcome.fault?_some_iff, Schema.ofDocument_fault?, List.findSome?_eq_some_iff]
    simp only [Word.fault?_some_iff, Word.fault?_none_iff]
    constructor
    · rintro ⟨before, word, after, order, ⟨illegal, same⟩, legal⟩
      exact ⟨before, word, after, order, legal, illegal, same⟩
    · rintro ⟨before, word, after, order, legal, illegal, same⟩
      exact ⟨before, word, after, order, ⟨illegal, same⟩, legal⟩

/-- The passing of an alias and the walk of a type are both misspelled. The type is reported,
since types come before unions. -/
example :
    Schema.ofDocument {
      types := [{ name := "Leaf" }, { name := "Twig", walkOrder := some "sideways" }]
      unions := [{
        name := "Sap", tag := { name := "SapTag", underlying := "u8" }
        variants := [{ name := "Resin", body := .wrapped "Drop" (some "pour") }] }] } =
      .error (.invalidWalkOrder "Twig" "sideways") := by
  decide

end Taxonomy
