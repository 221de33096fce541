import Taxonomy.Proofs.Compilation
import Taxonomy.Proofs.Slots
import Taxonomy.Proofs.SnakeCase
import Taxonomy.Proofs.UnionAcceptance

/-!
# Derived names

Names are checked to be different where they are declared, and not where others are derived from
them. Two derived names could clash if two names have the same snake case, or if what is put
before or behind it makes up for the difference.

Names in Pascal case can be told from their snake case, and an underscore at the end is not read.
Hence the names of the variants of an accepted union never clash, also where one of them is
escaped. The function that visits a list has one more word behind the name, so it can be that of a
type: the name of a list of rows is also the name of a single `RowList`. This is the only way in
which two slots come to share a function.
-/
namespace Taxonomy

/-- No reserved word ends in an underscore. -/
theorem reserved_underscore (word : String) : isReserved (word ++ "_") = false := by
  have ends : ∀ reserved ∈ reservedWords, reserved.toList.getLast? ≠ some '_' := by decide
  rw [← Bool.not_eq_true, isReserved, List.contains_iff_mem]
  intro member
  exact ends _ member (by simp)

/-- No escaped word is reserved. -/
theorem escapeReserved_free (word : String) : isReserved (escapeReserved word) = false := by
  rw [escapeReserved]
  by_cases reserved : isReserved word
  · rw [if_pos reserved, reserved_underscore]
  · rw [if_neg reserved]
    exact Bool.not_eq_true _ ▸ reserved

/-- Words are escaped alike only if they are equal or one is the other, which is reserved, with
an underscore at its end. -/
theorem escapeReserved_eq_iff (left right : String) :
    escapeReserved left = escapeReserved right ↔
      left = right ∨ (isReserved left = true ∧ right = left ++ "_") ∨
        (isReserved right = true ∧ left = right ++ "_") := by
  have free := reserved_underscore
  rw [escapeReserved, escapeReserved]
  by_cases first : isReserved left
  · by_cases second : isReserved right
    · rw [if_pos first, if_pos second, String.append_left_inj]
      grind
    · rw [if_pos first, if_neg second]
      grind
  · by_cases second : isReserved right
    · rw [if_neg first, if_pos second]
      grind
    · rw [if_neg first, if_neg second]
      grind

/-- A word and its escaped form are read alike. -/
theorem pascalCase_escapeReserved (word : String) :
    pascalCase (escapeReserved word) = pascalCase word := by
  rw [escapeReserved]
  by_cases reserved : isReserved word
  · rw [if_pos reserved, pascalCase_underscore]
  · rw [if_neg reserved]

/-- Names in Pascal case with the same snake case are equal. -/
theorem IsPascal.snakeCase_inj {left right : String} (leftPascal : IsPascal left)
    (rightPascal : IsPascal right) : snakeCase left = snakeCase right ↔ left = right := by
  constructor
  · intro same
    rw [← leftPascal.pascalCase_snakeCase, same, rightPascal.pascalCase_snakeCase]
  · rintro rfl
    rfl

/-- Variants with these names can be told apart wherever one of the names is used. -/
structure VariantNames.Apart (left right : VariantNames) : Prop where
  argument : left.argument ≠ right.argument
  accessor : left.accessor ≠ right.accessor
  factory : left.factory ≠ right.factory
  field : left.field ≠ right.field
  visit : left.visit ≠ right.visit

/-- Different names in Pascal case have different derived names of every kind. -/
theorem IsPascal.names_apart {left right : String} (leftPascal : IsPascal left)
    (rightPascal : IsPascal right) (different : left ≠ right) :
    (VariantNames.ofName left).Apart (.ofName right) := by
  have snakes : snakeCase left ≠ snakeCase right :=
    mt (leftPascal.snakeCase_inj rightPascal).mp different
  refine ⟨?_, ?_, ?_, ?_, ?_⟩
  · -- An escaped argument is not its snake case, but is read as the name that it comes from.
    intro same
    apply different
    have read := congrArg pascalCase same
    simpa only [VariantNames.ofName, pascalCase_escapeReserved, leftPascal.pascalCase_snakeCase,
      rightPascal.pascalCase_snakeCase] using read
  · exact mt (String.append_right_inj "as_").mp snakes
  · exact mt (String.append_right_inj "make_").mp snakes
  · exact mt (String.append_left_inj "_").mp snakes
  · exact mt (String.append_right_inj "visit_").mp snakes

/-- The variants of an accepted union have different names of every kind, if they are declared in
Pascal case and their names are derived. Whatever the name of a variant is, the argument derived
from it is not a reserved word.

Proof: a name in Pascal case can be read back from its snake case, also if that was escaped, since
an underscore at the end says nothing. So different names have different derived names, and the
names of the variants of an accepted union are different. Escaping adds an underscore, and no
reserved word ends in one. -/
theorem variant_names_never_clash :
    (∀ union : Union, union.validate = .ok () →
      (∀ variant ∈ union.variants, IsPascal variant.name) →
      (∀ variant ∈ union.variants, variant.names = .ofName variant.name) →
      union.variants.Pairwise fun left right => left.names.Apart right.names) ∧
    ∀ name : String, isReserved (VariantNames.ofName name).argument = false := by
  refine ⟨?_, fun name => escapeReserved_free (snakeCase name)⟩
  intro union accepted pascal derived
  have distinct := (union.validate_ok_iff.mp accepted).variants_distinct
  rw [List.Nodup, List.pairwise_map] at distinct
  refine distinct.imp_of_mem ?_
  intro left right leftMember rightMember different
  rw [derived left leftMember, derived right rightMember]
  exact (pascal left leftMember).names_apart (pascal right rightMember) different

/-- Literals whose names differ in capitals only, and one whose snake case is a reserved word. -/
def literalUnion : Union where
  name := "Literal"
  tag := { name := "LiteralKind", width := .u8 }
  variants := [.unit "Float", .unit "URL", .unit "Url", .wrapped "UrL" "Text"]

/-- The names of the literals are told apart, and the reserved word is escaped. -/
theorem literal_names_never_clash :
    literalUnion.validate = .ok () ∧
      (literalUnion.variants.Pairwise fun left right => left.names.Apart right.names) ∧
      literalUnion.variants.map (fun variant => variant.names.argument) =
        ["float_", "u_r_l", "url", "ur_l"] ∧
      isReserved (VariantNames.ofName "Float").argument = false := by
  have accepted : literalUnion.validate = .ok () := by decide
  refine ⟨accepted, ?_, by decide, variant_names_never_clash.2 "Float"⟩
  exact variant_names_never_clash.1 literalUnion accepted (by decide) (by decide)

/-- The function that visits a slot of a kind for a type of a name. -/
def SlotKind.visitor (kind : SlotKind) (name : String) : String :=
  match kind with
  | .single => visitName name
  | .list => visitName name ++ "_list"

/-- The visitor of a slot is that of its kind and the name of its type. -/
theorem Slot.make_visitor (settings : Settings) (kind : SlotKind) (id : TypeId) (type : TypeDef) :
    (make settings kind id type).visitor = kind.visitor type.name := by
  cases kind <;> rfl

namespace IsPascal

variable {left right : String}

/-- Types are visited by different functions. -/
theorem visitName_inj (leftPascal : IsPascal left) (rightPascal : IsPascal right) :
    visitName left = visitName right ↔ left = right := by
  rw [visitName, visitName, String.append_right_inj, leftPascal.snakeCase_inj rightPascal]

/-- The function for lists of a type is that for a type whose name ends in `List`. -/
theorem visitName_eq_list_iff (leftPascal : IsPascal left) (rightPascal : IsPascal right) :
    visitName left = visitName right ++ "_list" ↔ left = right ++ "List" := by
  have list : "_list" = "_" ++ snakeCase "List" := by decide
  rw [visitName, visitName, String.append_assoc, String.append_right_inj, list,
    ← String.append_assoc, ← rightPascal.snakeCase_append (by decide)]
  constructor
  · intro same
    have read := congrArg pascalCase same
    rwa [leftPascal.pascalCase_snakeCase, rightPascal.snakeCase_append (by decide),
      pascalCase_append, rightPascal.pascalCase_snakeCase,
      (by decide : pascalCase (snakeCase "List") = "List")] at read
  · rintro rfl
    rfl

/-- Two slots share a visitor only if they are alike, or if one is for lists and the name of the
other one's type is that of its own type with `List` behind it. -/
theorem visitor_eq_iff (leftPascal : IsPascal left) (rightPascal : IsPascal right)
    (kind other : SlotKind) :
    kind.visitor left = other.visitor right ↔
      (kind = other ∧ left = right) ∨
        (kind = .single ∧ other = .list ∧ left = right ++ "List") ∨
        (kind = .list ∧ other = .single ∧ right = left ++ "List") := by
  cases kind with
  | single =>
    cases other with
    | single => simp [SlotKind.visitor, leftPascal.visitName_inj rightPascal]
    | list => simp [SlotKind.visitor, leftPascal.visitName_eq_list_iff rightPascal]
  | list =>
    cases other with
    | single =>
      rw [eq_comm]
      simp [SlotKind.visitor, rightPascal.visitName_eq_list_iff leftPascal]
    | list => simp [SlotKind.visitor, String.append_left_inj, leftPascal.visitName_inj rightPascal]

end IsPascal

/-- The first slot holds one node of a type that is called like a list of nodes of the second
slot's type, which are held there. -/
def Slot.CalledList (registry : Registry) (single list : Slot) : Prop :=
  single.kind = .single ∧ list.kind = .list ∧
    ∃ name, registry.name? list.target = some name ∧
      registry.name? single.target = some (name ++ "List")

/-- The slots of a model are those of their kinds for declared types. -/
theorem Model.slot_made {schema : Schema} {settings : Settings} {model : Model}
    (compiled : Model.compile schema settings = .ok model) {slot : Slot}
    (listed : slot ∈ model.slots) :
    ∃ type, model.registry.types[slot.target]? = some type ∧
      slot = Slot.make settings slot.kind slot.target type := by
  obtain ⟨_, staged, _, _⟩ := (Model.compile_ok_iff schema settings model).mp compiled
  rw [Model.slots] at listed
  cases present : model.hierarchy with
  | none => simp [present] at listed
  | some hierarchy =>
    rw [present] at staged listed
    obtain ⟨_, _, collected, _⟩ := (Hierarchy.build_ok_iff _ _ _).mp staged.2
    exact Slot.collect_made collected listed

/-- Two slots of a model that differ in kind or type are visited by different functions, if the
names of types are in Pascal case, with one exception: the function for a list of nodes of a type
is also that for one node of the type that has the same name with `List` behind it.

Proof: a visitor is the snake case of the name of a type, with a word behind it for a list. Two
visitors with such a word, or two without, give the names of their types back. If only one has it,
reading the snake case back gives the name of a type with `List` behind it. Types of equal names are
the same type, so that slots of one kind would not differ. -/
theorem visitors_clash_only_over_lists (schema : Schema) (settings : Settings) (model : Model)
    (compiled : Model.compile schema settings = .ok model)
    (pascal : ∀ type ∈ model.registry.types, IsPascal type.name) (left right : Slot)
    (leftListed : left ∈ model.slots) (rightListed : right ∈ model.slots)
    (different : (left.kind, left.target) ≠ (right.kind, right.target)) :
    left.visitor = right.visitor ↔
      left.CalledList model.registry right ∨ right.CalledList model.registry left := by
  obtain ⟨registered, _⟩ := (Model.compile_ok_iff schema settings model).mp compiled
  obtain ⟨_, links, finished⟩ := Registry.ofList_finished registered
  obtain ⟨first, leftFound, leftMade⟩ := Model.slot_made compiled leftListed
  obtain ⟨second, rightFound, rightMade⟩ := Model.slot_made compiled rightListed
  have leftVisitor : left.visitor = left.kind.visitor first.name := by
    rw [← Slot.make_visitor settings left.kind left.target first, ← leftMade]
  have rightVisitor : right.visitor = right.kind.visitor second.name := by
    rw [← Slot.make_visitor settings right.kind right.target second, ← rightMade]
  -- Slots of one kind for types of one name would be for one type.
  have apart : ¬ (left.kind = right.kind ∧ first.name = second.name) := by
    rintro ⟨kinds, names⟩
    have targets := name_unique finished.distinct leftFound rightFound names
    exact different (by rw [kinds, targets])
  have leftPascal := pascal first (List.mem_of_getElem? leftFound)
  have rightPascal := pascal second (List.mem_of_getElem? rightFound)
  have leftName : model.registry.name? left.target = some first.name := by
    rw [finished.inStep.name?_eq, leftFound, Option.map_some]
  have rightName : model.registry.name? right.target = some second.name := by
    rw [finished.inStep.name?_eq, rightFound, Option.map_some]
  rw [leftVisitor, rightVisitor, leftPascal.visitor_eq_iff rightPascal, or_iff_right apart]
  simp only [Slot.CalledList, leftName, rightName, Option.some.injEq, exists_eq_left']
  tauto

/-- A list of rows is a node that has rows, one of them as its head, and a list of further rows. -/
def rowSchema : Schema where
  types := [
    { name := "Node", isFinal := false },
    { name := "Row", base := some (.named "Node") },
    { name := "RowList", base := some (.named "Node"),
      members := [.nodeList "rows" (.named "Row"), .node "head" (.named "Row"),
        .node "more" (.named "RowList")] }]

/-- The slots of the rows. -/
def rowSlots : List Slot :=
  [⟨.list, 1, "NodeList<Row>", "visit_row_list"⟩, ⟨.single, 1, "NodePtr<Row>", "visit_row"⟩,
    ⟨.single, 2, "NodePtr<RowList>", "visit_row_list"⟩]

/-- The model of the rows. -/
def rowModel : Model where
  registry := .holding rowSchema.types (some {
    bases := [none, some 0, some 0]
    derived := [[1, 2], [], []]
    targets := [[], [], [some 1, some 1, some 2]] })
  hierarchy := some {
    tree := .group 0 (.leaf 1) [.leaf 2]
    tags := .append {}
      [⟨"Row", 1⟩, ⟨"RowList", 2⟩, ⟨"FirstNode", 1⟩, ⟨"LastNode", 2⟩]
      [(1, ⟨1, 1⟩), (2, ⟨2, 2⟩), (0, ⟨1, 2⟩)]
    slots := rowSlots
    facades := [] }
  unions := {}
  settings := {}

/-- The rows are compiled to their model. -/
theorem rows_compiled : Model.compile rowSchema {} = .ok rowModel :=
  Model.compile_of_linkedBy (by decide) (by decide +kernel) rfl rfl

/-- A list of rows and one `RowList` are visited by one function, and one row by another. -/
theorem visitors_of_rows :
    Model.compile rowSchema {} = .ok rowModel ∧
      (∀ type ∈ rowModel.registry.types, IsPascal type.name) ∧
      rowSlots[2].CalledList rowModel.registry rowSlots[0] ∧
      rowSlots[0].visitor = rowSlots[2].visitor ∧ rowSlots[1].visitor ≠ rowSlots[2].visitor := by
  have pascal : ∀ type ∈ rowModel.registry.types, IsPascal type.name := by decide
  have clash := visitors_clash_only_over_lists rowSchema {} rowModel rows_compiled pascal
  have called : rowSlots[2].CalledList rowModel.registry rowSlots[0] :=
    ⟨rfl, rfl, "Row", by decide, by decide⟩
  refine ⟨rows_compiled, pascal, called, ?_, fun same => ?_⟩
  · exact (clash _ _ (by decide) (by decide) (by decide)).mpr (.inr called)
  · obtain listed | listed := (clash _ _ (by decide) (by decide) (by decide)).mp same
    · cases listed.2.1
    · cases listed.2.1

/-- A list of rows and one `RowList` are visited by one function, although the slots differ in kind
and type and all types have names in Pascal case. -/
theorem visitors_can_clash :
    ∃ (model : Model) (left right : Slot), Model.compile rowSchema {} = .ok model ∧
      (∀ type ∈ model.registry.types, IsPascal type.name) ∧
      left ∈ model.slots ∧ right ∈ model.slots ∧
      (left.kind, left.target) ≠ (right.kind, right.target) ∧ left.visitor = right.visitor := by
  refine ⟨rowModel, rowSlots[0], rowSlots[2], rows_compiled, ?_⟩
  decide

end Taxonomy
