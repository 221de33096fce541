import Taxonomy.Proofs.DerivedNames
import Taxonomy.Proofs.Labels
import Taxonomy.Proofs.MarkErasure
import Taxonomy.Proofs.NearestFacades
import Taxonomy.Proofs.NormalForms
import Taxonomy.Proofs.OutlineText

/-!
# The colours of an outline

The outline is the same sequence of spans for every palette, and only the marks among them are
written differently. Marks can be taken out of the coloured outline again if none of its texts
has an escape sequence in it. These texts are made from the texts of the model: names and types
as they are declared, and what is derived from them, which is labels, visitors and the way slots
are written. None of the derived texts has the character that begins an escape sequence unless
one of the declared texts has it.
-/
namespace Taxonomy

/-- Two texts make an unescaped one exactly if both are. -/
@[simp]
theorem isUnescaped_append (front back : String) :
    IsUnescaped (front ++ back) ↔ IsUnescaped front ∧ IsUnescaped back := by
  simp [IsUnescaped]

/-- Numbers are unescaped. -/
@[simp]
theorem isUnescaped_number (value : Nat) : IsUnescaped value.repr := by
  have digits := not_mem_toDigits (c := escapeChar) (by decide) value
  simpa [IsUnescaped] using digits

/-- Indents are unescaped. -/
@[simp]
theorem isUnescaped_indent (size : Nat) : IsUnescaped ("".pushn ' ' size) := by
  rw [IsUnescaped, toList_indent, List.mem_replicate, not_and]
  exact fun _ => by decide

/-- Texts in a row with an unescaped text between them are unescaped if each is. -/
theorem isUnescaped_intercalate {separator : String} (between : IsUnescaped separator)
    {texts : List String} (each : ∀ text ∈ texts, IsUnescaped text) :
    IsUnescaped (separator.intercalate texts) := by
  induction texts with
  | nil => simp [IsUnescaped]
  | cons text texts inductionHypothesis =>
    rw [List.forall_mem_cons] at each
    cases texts with
    | nil => simpa using each.1
    | cons next texts => simpa [between, each.1] using inductionHypothesis each.2

/-- The snake case of an unescaped name is unescaped. -/
theorem IsUnescaped.snakeCase {name : String} (unescaped : IsUnescaped name) :
    IsUnescaped (snakeCase name) := by
  intro member
  rw [snakeCase_toList] at member
  rcases mem_snakeParts member with ⟨given, _⟩ | underscore | small
  · exact unescaped given
  · exact absurd underscore (by decide)
  · exact absurd small (by decide)

/-- A choice is spelled without escape sequences if every value is. -/
theorem isUnescaped_spelling {α : Type} [Spelled α]
    (each : ∀ value ∈ (Spelled.values : List α), IsUnescaped (spelling value)) (value : α) :
    IsUnescaped (spelling value) :=
  each value (Spelled.values_complete value)

/-- The texts of a member: its name and its type. -/
def Member.texts (member : Member) : List String :=
  [member.name, member.kind.typeText]

/-- The texts of a type: its names, and the texts of its members. -/
def TypeDef.texts (type : TypeDef) : List String :=
  type.name :: type.renderedName.toList ++ type.publicName.toList ++
    type.members.flatMap Member.texts

/-- The texts of what a variant holds: those of its members, or the type that it wraps. -/
def VariantBody.texts : VariantBody → List String
  | .record members => members.flatMap Member.texts
  | .wrapped target _ => [target]

/-- The texts of a union: its name, that of its tag, and those of its variants. -/
def Union.texts (union : Union) : List String :=
  union.name :: union.tag.name ::
    union.variants.flatMap fun variant => variant.name :: variant.body.texts

/-- The texts that names are made with. -/
def Settings.texts (settings : Settings) : List String :=
  [settings.nodeStem, settings.singleSlot, settings.listSlot]

/-- The texts of a model, apart from documentation. -/
def Model.texts (model : Model) : List String :=
  model.registry.types.flatMap TypeDef.texts ++ model.unions.unions.flatMap Union.texts ++
    model.settings.texts

namespace Outline

/-- All texts of the line are unescaped. -/
def UnescapedLine (line : Line) : Prop :=
  ∀ span ∈ line, span.IsUnescaped

/-- A text at the beginning of a line. -/
@[simp]
theorem unescapedLine_text (content : String) (line : Line) :
    UnescapedLine (.text content :: line) ↔ IsUnescaped content ∧ UnescapedLine line :=
  List.forall_mem_cons

/-- A line that consists of two parts. -/
@[simp]
theorem unescapedLine_append (front back : Line) :
    UnescapedLine (front ++ back) ↔ UnescapedLine front ∧ UnescapedLine back :=
  List.forall_mem_append

/-- A text in some style. -/
@[simp]
theorem unescapedLine_styled (style : Style) (content : String) :
    UnescapedLine (Span.styled style content) ↔ IsUnescaped content := by
  simp [UnescapedLine, Span.styled, Span.IsUnescaped]

/-- An empty line. -/
@[simp]
theorem unescapedLine_nil : UnescapedLine [] := by
  simp [UnescapedLine]

/-- The line of a type is unescaped if its name is. -/
theorem unescapedLine_type (depth : Nat) {name : String} (unescaped : IsUnescaped name)
    (isLeaf : Bool) (range : TagRange) : UnescapedLine (typeLine depth name isLeaf range) := by
  cases isLeaf with
  | true => simp +decide [typeLine, unescaped]
  | false => simp +decide [typeLine, unescaped]

/-- The line of a label is unescaped if the name that the label is made from is. -/
theorem unescapedLine_tag {name : String} (unescaped : IsUnescaped name) (mark : TagMark)
    (value : Nat) : UnescapedLine (tagLine ⟨mark.label name, value⟩) := by
  cases mark with
  | only id => simp +decide [tagLine, TagMark.label, unescaped]
  | first id => simp +decide [tagLine, TagMark.label, unescaped]
  | last id => simp +decide [tagLine, TagMark.label, unescaped]

/-- The line of a slot is unescaped if what it is made of is. -/
theorem unescapedLine_slot {settings : Settings} {type : TypeDef}
    (chosen : ∀ text ∈ settings.texts, IsUnescaped text)
    (declared : ∀ text ∈ type.texts, IsUnescaped text) (kind : SlotKind) (id : TypeId) :
    UnescapedLine (slotLine (Slot.make settings kind id type)) := by
  simp only [Settings.texts, List.forall_mem_cons] at chosen
  obtain ⟨stem, single, list, _⟩ := chosen
  have name : IsUnescaped type.name := declared _ (by simp [TypeDef.texts])
  have rendered : IsUnescaped (type.rendered settings.nodeStem) := by
    rw [TypeDef.rendered]
    cases given : type.renderedName with
    | none => simp [stem, name]
    | some text => exact declared text (by simp [TypeDef.texts, given])
  have visitor := name.snakeCase
  cases kind with
  | single =>
    simp +decide [slotLine, Slot.make, TypeDef.visitor, visitName, single, rendered, visitor]
  | list =>
    simp +decide [slotLine, Slot.make, TypeDef.visitor, visitName, list, rendered, visitor]

/-- The line of a facade is unescaped if its name and the names of types are. -/
theorem unescapedLine_facade {registry : Registry} {facade : Facade}
    (named : IsUnescaped facade.name)
    (names : ∀ id name, registry.name? id = some name → IsUnescaped name) :
    UnescapedLine (facadeLine registry facade) := by
  have objects : IsUnescaped (", ".intercalate (facade.objects.filterMap registry.name?)) := by
    refine isUnescaped_intercalate (by decide) fun name member => ?_
    obtain ⟨id, _, found⟩ := List.mem_filterMap.mp member
    exact names id name found
  simp +decide [facadeLine, named, objects]

/-- The text of a member is unescaped if its texts are. -/
theorem isUnescaped_member {member : Member} (declared : ∀ text ∈ member.texts, IsUnescaped text) :
    IsUnescaped (memberText member) := by
  simp only [Member.texts, List.forall_mem_cons] at declared
  obtain ⟨name, type, _⟩ := declared
  have mark : IsUnescaped (if member.isRequired || member.kind.isList then "" else "?") := by
    split <;> decide
  simp only [memberText, isUnescaped_append]
  refine ⟨⟨⟨name, mark⟩, by decide⟩, ?_⟩
  cases kind : member.kind with
  | data text simple => simpa [kind, MemberKind.typeText] using type
  | dataList element => simpa +decide [kind, MemberKind.typeText] using type
  | node ref => simpa [kind, MemberKind.typeText] using type
  | nodeList element => simpa +decide [kind, MemberKind.typeText] using type

/-- The text of what a variant holds is unescaped if its texts are. -/
theorem isUnescaped_body {body : VariantBody} (declared : ∀ text ∈ body.texts, IsUnescaped text) :
    IsUnescaped (bodyText body) := by
  cases body with
  | record members =>
    cases members with
    | nil => decide
    | cons first members =>
      have each : IsUnescaped (", ".intercalate ((first :: members).map memberText)) := by
        refine isUnescaped_intercalate (by decide) fun text member => ?_
        obtain ⟨held, listed, rfl⟩ := List.mem_map.mp member
        exact isUnescaped_member fun text given =>
          declared text (List.mem_flatMap.mpr ⟨held, listed, given⟩)
      simp +decide only [bodyText, isUnescaped_append, each, and_self]
  | wrapped target passing =>
    have wraps : IsUnescaped target := declared target (by simp [VariantBody.texts])
    cases passing with
    | copy => simp +decide [bodyText, wraps]
    | move => simp +decide [bodyText, wraps]

/-- The line of a variant is unescaped if its name and the texts of what it holds are. -/
theorem unescapedLine_variant {variant : Variant} (name : IsUnescaped variant.name)
    (declared : ∀ text ∈ variant.body.texts, IsUnescaped text) (entry : TagEntry) :
    UnescapedLine (variantLine variant entry) := by
  have body := isUnescaped_body declared
  simp +decide [variantLine, name, body]

/-- The line of capabilities is unescaped. -/
theorem unescapedLine_capabilities (capabilities : Capabilities) :
    UnescapedLine (capabilitiesLine capabilities) := by
  have storage := isUnescaped_spelling (by decide) capabilities.storage
  have formatting := isUnescaped_spelling (by decide) capabilities.formatting
  have equality := isUnescaped_spelling (by decide) capabilities.equality
  have hashing := isUnescaped_spelling (by decide) capabilities.hashing
  have docPlace := isUnescaped_spelling (by decide) capabilities.docPlace
  simp +decide [capabilitiesLine, storage, formatting, equality, hashing, docPlace]

/-- The section of a union is unescaped if its texts are. -/
theorem unescapedLine_union {union : Union} (declared : ∀ text ∈ union.texts, IsUnescaped text) :
    ∀ line ∈ unionLines union, UnescapedLine line := by
  simp only [Union.texts, List.forall_mem_cons] at declared
  obtain ⟨name, tag, variants⟩ := declared
  have width := isUnescaped_spelling (by decide) union.tag.width
  have kind : IsUnescaped (if union.isFinal then "" else " (non-final)") := by
    split <;> decide
  simp only [unionLines, List.cons_append, List.forall_mem_cons, List.forall_mem_append]
  refine ⟨?_, ?_, unescapedLine_capabilities _, unescapedLine_nil, by simp⟩
  · simp +decide [title, name, tag, width, kind]
  · intro line member
    rw [← List.map_uncurry_zip_eq_zipWith] at member
    obtain ⟨⟨variant, entry⟩, listed, rfl⟩ := List.mem_map.mp member
    have held : ∀ text ∈ variant.name :: variant.body.texts, IsUnescaped text := fun text given =>
      variants text (List.mem_flatMap.mpr ⟨variant, (List.of_mem_zip listed).1, given⟩)
    rw [List.forall_mem_cons] at held
    exact unescapedLine_variant held.1 held.2 entry

/-- A section is unescaped if its title and its lines are. -/
theorem unescapedLine_titled {name : String} (title : IsUnescaped name) {lines : List Line}
    (each : ∀ line ∈ lines, UnescapedLine line) :
    ∀ line ∈ titled name lines, UnescapedLine line := by
  rw [titled]
  split
  · simp
  · simp only [List.cons_append, List.forall_mem_cons, List.forall_mem_append]
    exact ⟨by simp +decide [Outline.title, title], each, by simp⟩

mutual

/-- Every line of a tree is made from the name of a type. -/
theorem treeLines_made {registry : Registry} {tags : TagTable} {line : Line} (depth : Nat) :
    ∀ tree : Tree, line ∈ treeLines registry tags depth tree →
    ∃ level id name isLeaf range,
      registry.name? id = some name ∧ line = typeLine level name isLeaf range
  | .leaf id, member => by
    rw [treeLines] at member
    split at member
    · next name range found _ =>
      exact ⟨depth, id, name, true, range, found, List.mem_singleton.mp member⟩
    · exact absurd member List.not_mem_nil
  | .group id eldest others, member => by
    rw [treeLines] at member
    split at member
    · next name range found _ =>
      rw [List.mem_cons, List.mem_append] at member
      rcases member with own | first | later
      · exact ⟨depth, id, name, false, range, found, own⟩
      · exact treeLines_made (depth + 1) eldest first
      · exact treeLinesAll_made (depth + 1) others later
    · exact absurd member List.not_mem_nil

/-- The same for several trees. -/
theorem treeLinesAll_made {registry : Registry} {tags : TagTable} {line : Line} (depth : Nat) :
    ∀ trees : List Tree, line ∈ treeLinesAll registry tags depth trees →
    ∃ level id name isLeaf range,
      registry.name? id = some name ∧ line = typeLine level name isLeaf range
  | [], member => absurd member List.not_mem_nil
  | tree :: trees, member => by
    rw [treeLinesAll, List.mem_append] at member
    rcases member with first | later
    · exact treeLines_made depth tree first
    · exact treeLinesAll_made depth trees later

end

/-- The sections of a tree are unescaped if the names of its types are and the labels are made
from names. -/
theorem unescapedLine_hierarchy {registry : Registry} {hierarchy : Hierarchy}
    (names : ∀ id name, registry.name? id = some name → IsUnescaped name)
    (labels : ∀ entry ∈ hierarchy.tags.entries, ∃ mark id name value,
      registry.name? id = some name ∧ entry = ⟨TagMark.label mark name, value⟩) :
    ∀ line ∈ hierarchyLines registry hierarchy, UnescapedLine line := by
  simp only [hierarchyLines, List.cons_append, List.forall_mem_cons, List.forall_mem_append]
  refine ⟨by simp +decide [title], ⟨⟨?_, by simp⟩, by simp +decide [title], ?_⟩, by simp⟩
  · intro line member
    obtain ⟨depth, id, name, isLeaf, range, found, rfl⟩ := treeLines_made 0 hierarchy.tree member
    exact unescapedLine_type depth (names id name found) isLeaf range
  · intro line member
    obtain ⟨entry, listed, rfl⟩ := List.mem_map.mp member
    obtain ⟨mark, id, name, value, found, rfl⟩ := labels entry listed
    exact unescapedLine_tag (names id name found) mark value

variable {schema : Schema} {settings : Settings} {model : Model}

/-- The labels of a compiled model are made from the names of its types. -/
theorem labels_made (compiled : Model.compile schema settings = .ok model) {hierarchy : Hierarchy}
    (present : model.hierarchy = some hierarchy) :
    ∀ entry ∈ hierarchy.tags.entries, ∃ mark id name value,
      model.registry.name? id = some name ∧ entry = ⟨TagMark.label mark name, value⟩ := by
  obtain ⟨_, finished, grown, allocated⟩ := Model.hierarchy_allocated compiled present
  intro entry listed
  rw [grown.table_entries finished allocated] at listed
  obtain ⟨⟨mark, value⟩, marked, rfl⟩ := List.mem_map.mp listed
  have declared : mark ∈ hierarchy.tree.ids.flatMap model.registry.marksOf :=
    (grown.marks_perm settings.tagStart).mem_iff.mp (List.mem_map_of_mem marked)
  obtain ⟨type, _, found, labelled, _⟩ := grown.mark_declared finished declared
  refine ⟨mark, mark.type, type.name, value, ?_, by rw [labelled]⟩
  rw [finished.inStep.name?_eq, found, Option.map_some]

/-- The facades of a compiled model have the public names of its types. -/
theorem facades_made (compiled : Model.compile schema settings = .ok model) {facade : Facade}
    (listed : facade ∈ model.facades) :
    ∃ type ∈ model.registry.types, type.publicName = some facade.name := by
  obtain ⟨_, staged, _, _⟩ := (Model.compile_ok_iff schema settings model).mp compiled
  rw [Model.facades] at listed
  cases present : model.hierarchy with
  | none => simp [present] at listed
  | some hierarchy =>
    obtain ⟨links, finished, grown, _⟩ := Model.hierarchy_allocated compiled present
    rw [present] at staged listed
    obtain ⟨_, _, _, collected⟩ := (Hierarchy.build_ok_iff _ _ _).mp staged.2
    rw [Option.map_some, Option.getD_some, collected, Facade.collect_eq,
      List.mem_mergeSort] at listed
    obtain ⟨owner, _, covers⟩ :=
      Outcome.forall₂_mem (Facade.harvest_covers finished grown).flip listed
    obtain ⟨type, found, named⟩ := covers.named
    exact ⟨type, List.mem_of_getElem? ((Registry.type_ok_iff _ _ _).mp found), named⟩

/-- If the texts of a compiled model are unescaped, so are the lines of its outline. -/
theorem lines_unescaped (compiled : Model.compile schema settings = .ok model)
    (unescaped : ∀ text ∈ model.texts, IsUnescaped text) :
    ∀ line ∈ lines model, UnescapedLine line := by
  obtain ⟨_, _, _, sameSettings⟩ := (Model.compile_ok_iff schema settings model).mp compiled
  simp only [Model.texts, List.forall_mem_append] at unescaped
  obtain ⟨⟨types, unions⟩, chosen⟩ := unescaped
  have declared (type : TypeDef) (member : type ∈ model.registry.types) :
      ∀ text ∈ type.texts, IsUnescaped text := fun text given =>
    types text (List.mem_flatMap.mpr ⟨type, member, given⟩)
  have names (id : TypeId) (name : String) (found : model.registry.name? id = some name) :
      IsUnescaped name := by
    rw [(Model.registry_inStep compiled).name?_eq] at found
    obtain ⟨type, there, rfl⟩ := Option.map_eq_some_iff.mp found
    exact declared type (List.mem_of_getElem? there) _ (by simp [TypeDef.texts])
  simp only [lines, List.forall_mem_append]
  refine ⟨⟨⟨?_, ?_⟩, ?_⟩, ?_⟩
  · cases present : model.hierarchy with
    | none => simp
    | some hierarchy => exact unescapedLine_hierarchy names (labels_made compiled present)
  · refine unescapedLine_titled (by decide) fun line member => ?_
    obtain ⟨slot, listed, rfl⟩ := List.mem_map.mp member
    obtain ⟨type, there, made⟩ := Model.slot_made compiled listed
    have given := declared type (List.mem_of_getElem? there)
    rw [made]
    exact unescapedLine_slot (sameSettings ▸ chosen) given _ _
  · refine unescapedLine_titled (by decide) fun line member => ?_
    obtain ⟨facade, listed, rfl⟩ := List.mem_map.mp member
    obtain ⟨type, there, named⟩ := facades_made compiled listed
    exact unescapedLine_facade (declared type there _ (by simp [TypeDef.texts, named])) names
  · intro line member
    obtain ⟨union, listed, inside⟩ := List.mem_flatMap.mp member
    exact unescapedLine_union
      (fun text given => unions text (List.mem_flatMap.mpr ⟨union, listed, given⟩)) line inside

/-- The outline as one sequence of spans. -/
def spans (model : Model) : List Span :=
  (lines model).flatMap fun line => line ++ [.text "\n"]

/-- The outline is written span by span. -/
theorem render_eq (palette : Palette) (model : Model) :
    render palette model = Span.renderAll palette (spans model) := by
  rw [← String.toList_inj]
  simp [render, renderLine, spans, Span.renderAll, Span.render, List.flatMap_map,
    List.flatMap_assoc]

end Outline

/-- If no text of a compiled model has the character that begins an escape sequence, the outline
without colours is what is left of the outline with colours when the four escape sequences for
colours are taken out wherever they stand, all at once or one after the other in any order.

Proof: the outline is one sequence of spans, which are marks or texts, and the palettes differ only
in what they write for a mark. Every text among the spans is made from texts of the model and has no
character that begins an escape sequence, so erasing finds each mark where it was written and
nowhere else. Erasing marks from what one palette writes is what a palette without them writes, and
the coloured palette without all its marks is the plain one. -/
theorem colours_only_decorate (schema : Schema) (settings : Settings) (model : Model)
    (compiled : Model.compile schema settings = .ok model)
    (unescaped : ∀ text ∈ model.texts, IsUnescaped text) :
    eraseMarks Palette.colored.marks (Outline.render .colored model) =
      Outline.render .plain model ∧
    ∀ order : List String, order.Perm Palette.colored.marks →
      order.foldl (fun text mark => eraseMarks [mark] text) (Outline.render .colored model) =
        Outline.render .plain model := by
  have partly : Palette.colored.PartlyColored := fun style => Or.inr (by cases style <;> decide)
  have spans : ∀ span ∈ Outline.spans model, span.IsUnescaped := by
    intro span member
    obtain ⟨line, listed, inside⟩ := List.mem_flatMap.mp member
    rcases List.mem_append.mp inside with given | lineEnd
    · exact Outline.lines_unescaped compiled unescaped line listed span given
    · rw [List.mem_singleton.mp lineEnd, Span.IsUnescaped]
      decide
  rw [Outline.render_eq, Outline.render_eq]
  refine ⟨?_, fun order permuted => ?_⟩
  · rw [Span.eraseMarks_renderAll partly (List.Subset.refl _) spans,
      Palette.without_all (List.Subset.refl _)]
  · rw [Span.foldl_eraseMarks_renderAll partly permuted.subset spans,
      Palette.without_all permuted.symm.subset]

/-- Lamps are lights, lead to further lamps, and have shades. -/
def lampSchema : Schema where
  types := [
    { name := "Light", isFinal := false, publicName := some "Lighting" },
    { name := "Lamp", base := some (.named "Light"), members := [.node "next" (.named "Lamp")] }]
  unions := [{
    name := "Shade", tag := { name := "Cover", width := .u8 }
    variants := [.record "Paper" [.data "sheets" "u8"], .wrapped "Cloth" "Fabric"] }]

/-- The model of the lamps. -/
def lampModel : Model where
  registry := .holding lampSchema.types (some {
    bases := [none, some 0]
    derived := [[1], []]
    targets := [[], [some 1]] })
  hierarchy := some {
    tree := .group 0 (.leaf 1) []
    tags := .append {}
      [⟨"Lamp", 1⟩, ⟨"FirstLight", 1⟩, ⟨"LastLight", 1⟩]
      [(1, ⟨1, 1⟩), (0, ⟨1, 1⟩)]
    slots := [⟨.single, 1, "NodePtr<Lamp>", "visit_lamp"⟩]
    facades := [⟨"Lighting", [1]⟩] }
  unions := .holding lampSchema.unions
  settings := { root := "Light" }

/-- The outline of the lamps has all sections. Without its colours it is the plain one. -/
theorem colours_of_lamps :
    Model.compile lampSchema { root := "Light" } = .ok lampModel ∧
      (∀ text ∈ lampModel.texts, IsUnescaped text) ∧
      eraseMarks ["\x1b[34m", "\x1b[32m", "\x1b[2m", "\x1b[0m"]
        (Outline.render .colored lampModel) = Outline.render .plain lampModel ∧
      Outline.render .colored lampModel ≠ Outline.render .plain lampModel := by
  have compiled : Model.compile lampSchema { root := "Light" } = .ok lampModel :=
    Model.compile_of_linkedBy (by decide) (by decide +kernel) rfl rfl
  have unescaped : ∀ text ∈ lampModel.texts, IsUnescaped text := by decide
  have decorated : Outline.render .colored lampModel ≠ Outline.render .plain lampModel := by
    decide
  exact ⟨compiled, unescaped,
    (colours_only_decorate lampSchema _ lampModel compiled unescaped).1, decorated⟩

end Taxonomy
