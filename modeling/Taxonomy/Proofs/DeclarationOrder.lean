import Taxonomy.Proofs.ModelView

/-!
# The order of declarations

Where types refer to each other by name, the order of the declarations decides
about the numbers of the types and about nothing else. Two schemas with the same
declarations in different orders are both accepted or both refused, and what their
models show is the same.
-/
namespace Taxonomy

open Relation

/-- Lists with the same types include each other. -/
theorem Included.of_perm {left right : List TypeDef} (permuted : left.Perm right)
    (distinct : (left.map TypeDef.name).Nodup) (named : ∀ type ∈ left, type.RefersByName) :
    Included left right ∧ Included right left := by
  have rightDistinct := (permuted.map TypeDef.name).nodup_iff.mp distinct
  constructor
  · exact ⟨distinct, rightDistinct, fun type member => permuted.mem_iff.mp member, named⟩
  · exact ⟨rightDistinct, distinct, fun type member => permuted.mem_iff.mpr member,
      fun type member => named type (permuted.mem_iff.mpr member)⟩

namespace Included

variable {left right : List TypeDef} {settings : Settings}

/-- Every type of the second list has its number from a type of the first. -/
theorem covers (included : Included left right) (back : Included right left) {id : TypeId}
    (inside : id < right.length) : ∃ source < left.length, renumber left right source = id := by
  have common := back.declared right[id] (List.getElem_mem inside)
  exact included.covers_common (List.getElem?_eq_getElem inside) common

/-- A reference that means a type in the first list means one in the second. -/
theorem declared_renumber (included : Included left right) {ref : TypeRef} (named : ref.IsNamed)
    (declared : ref.Declared left) : ref.Declared right := by
  obtain ⟨id, means⟩ := declared
  exact ⟨_, (included.means_iff named (TypeRef.means_inside means)).mpr means⟩

/-- Well-formed types stay so in another order. -/
theorem wellFormedTypes (included : Included left right) (back : Included right left)
    (wellFormed : Registry.WellFormedTypes left) : Registry.WellFormedTypes right where
  names_distinct := included.right_distinct
  members_distinct type member := wellFormed.members_distinct type (back.declared type member)
  references_declared type member := by
    have named := back.by_name type member
    have resolvable := wellFormed.references_declared type (back.declared type member)
    constructor
    · intro ref given
      exact included.declared_renumber (named.1 ref given) (resolvable.1 ref given)
    · intro inner listed ref given
      exact included.declared_renumber (named.2 inner listed ref given)
        (resolvable.2 inner listed ref given)
  bases_abstract id base type derives found :=
    wellFormed.bases_abstract _ _ type (back.derives_renumber derives) (back.renumber_type found)
  acyclic id cycle := by
    apply wellFormed.acyclic (renumber right left id)
    exact TransGen.lift (renumber right left) (fun _ _ => back.derives_renumber) _ _ cycle

/-- The final types beneath a type are the same under their new numbers. -/
theorem finalsBeneath_renumber (included : Included left right) (back : Included right left)
    {top : TypeId} (inside : top < left.length) :
    finalsBeneath right (renumber left right top) =
      renumber left right '' finalsBeneath left top := by
  ext id
  constructor
  · rintro ⟨beneath, type, found, final⟩
    have idInside : id < right.length := (List.getElem?_eq_some_iff.mp found).1
    refine ⟨renumber right left id, ⟨?_, type, back.renumber_type found, final⟩, ?_⟩
    · have moved := back.beneath_renumber beneath
      rwa [included.renumber_back back inside] at moved
    · exact back.renumber_back included idInside
  · rintro ⟨source, ⟨beneath, type, found, final⟩, rfl⟩
    exact ⟨included.beneath_renumber beneath, type, included.renumber_type found, final⟩

/-- A type that can be the root of a tree can be so in another order. -/
theorem treeWellFormed (included : Included left right) (back : Included right left)
    {top : TypeId} (wellFormed : TreeWellFormed left settings top) :
    TreeWellFormed right settings (renumber left right top) := by
  obtain ⟨root, rootFound, rootNamed⟩ := wellFormed.root_named
  have inside : top < left.length := (List.getElem?_eq_some_iff.mp rootFound).1
  -- Numbering back leads from the second list to the first, where the root has its old number.
  have beneath {id : TypeId} (moved : Beneath right id (renumber left right top)) :
      Beneath left (renumber right left id) top := by
    have again := back.beneath_renumber moved
    rwa [included.renumber_back back inside] at again
  refine ⟨⟨root, included.renumber_type rootFound, rootNamed⟩, ?_, wellFormed.start_positive,
    ?_, ?_⟩
  · intro id type moved found abstract
    have idInside : id < right.length := (List.getElem?_eq_some_iff.mp found).1
    obtain ⟨child, derives⟩ :=
      wellFormed.inhabited _ type (beneath moved) (back.renumber_type found) abstract
    have again := included.derives_renumber derives
    rw [back.renumber_back included idInside] at again
    exact ⟨_, again⟩
  · have injective : Set.InjOn (renumber left right) (finalsBeneath left top) := by
      rintro first ⟨_, _, firstFound, _⟩ second ⟨_, _, secondFound, _⟩ same
      exact included.renumber_injective (List.getElem?_eq_some_iff.mp firstFound).1
        (List.getElem?_eq_some_iff.mp secondFound).1 same
    rw [included.finalsBeneath_renumber back inside, injective.ncard_image]
    exact wellFormed.numbers_fit
  · intro leaf group final abstract leafMoved groupMoved leafFound groupFound
    exact wellFormed.labels_apart _ _ final abstract (beneath leafMoved) (beneath groupMoved)
      (back.renumber_type leafFound) (back.renumber_type groupFound)

end Included

/-- A schema that is accepted is accepted in every order of its declarations. -/
theorem Schema.accepted_of_perm {left right : Schema} {settings : Settings}
    (types : left.types.Perm right.types) (unions : left.unions.Perm right.unions)
    (named : ∀ type ∈ left.types, type.RefersByName)
    (accepted : ∃ model, Model.compile left settings = .ok model) :
    ∃ model, Model.compile right settings = .ok model := by
  rw [Model.compile_succeeds_iff, Model.types_accepted_iff] at accepted ⊢
  obtain ⟨⟨wellFormed, tree⟩, set, collected⟩ := accepted
  obtain ⟨included, back⟩ := Included.of_perm types wellFormed.names_distinct named
  obtain ⟨names, tags, each, _⟩ := (UnionSet.ofList_ok_iff _ _).mp collected
  refine ⟨⟨included.wellFormedTypes back wellFormed, fun inhabited => ?_⟩,
    .holding right.unions, ?_⟩
  · have some : left.types ≠ [] := fun none => inhabited (by simpa [none] using types)
    obtain ⟨top, rooted⟩ := tree some
    exact ⟨_, included.treeWellFormed back rooted⟩
  · refine (UnionSet.ofList_ok_iff _ _).mpr ⟨?_, ?_, ?_, rfl⟩
    · exact (unions.map _).nodup_iff.mp names
    · exact (unions.map _).nodup_iff.mp tags
    · exact fun union member => each union (unions.mem_iff.mpr member)

/-- The owners of tags do not depend on the order in which the unions came. -/
theorem UnionSet.tagOwner?_perm {left right : List Union} (unions : left.Perm right)
    (distinct : (left.map fun union => union.tag.name).Nodup) (tag : String) :
    (holding left).tagOwner? tag = (holding right).tagOwner? tag := by
  have leftInStep := holding_inStep distinct
  have rightInStep := holding_inStep ((unions.map _).nodup_iff.mp distinct)
  refine Option.ext fun name => ?_
  rw [leftInStep, rightInStep]
  exact exists_congr fun union => and_congr_left fun _ => unions.mem_iff

/-- The order of the declarations decides neither whether a schema is accepted nor
what its model shows. Unions and owners of tags are found alike, and with the unions
in one order the outline is the same text.

Proof: acceptance is known as a condition on the declarations, and each part of it is kept
under a permutation, as references by name mean the same declaration in either order. For
two models the permutation renumbers the types. The renumbering takes registry, tree and
numbers of one to those of the other, since derived types are sorted by name and not by
number; and what a model shows has names in the place of numbers. -/
theorem compile_order_independent (left right : Schema) (settings : Settings)
    (types : left.types.Perm right.types) (unions : left.unions.Perm right.unions)
    (named : ∀ type ∈ left.types, type.RefersByName) :
    ((∃ model, Model.compile left settings = .ok model) ↔
      ∃ model, Model.compile right settings = .ok model) ∧
    ∀ first second, Model.compile left settings = .ok first →
      Model.compile right settings = .ok second →
      first.view = second.view ∧
      (∀ name, first.unions.get? name = second.unions.get? name) ∧
      (∀ tag, first.unions.tagOwner? tag = second.unions.tagOwner? tag) ∧
      (left.unions = right.unions →
        ∀ palette, Outline.render palette first = Outline.render palette second) := by
  have backNamed : ∀ type ∈ right.types, type.RefersByName := fun type member =>
    named type (types.mem_iff.mpr member)
  refine ⟨⟨Schema.accepted_of_perm types unions named,
    Schema.accepted_of_perm types.symm unions.symm backNamed⟩, ?_⟩
  intro first second firstCompiled secondCompiled
  obtain ⟨firstMade, _, firstUnions, _⟩ := (Model.compile_ok_iff _ _ _).mp firstCompiled
  obtain ⟨_, _, secondUnions, _⟩ := (Model.compile_ok_iff _ _ _).mp secondCompiled
  obtain ⟨unionNames, tagNames, _, firstSet⟩ := (UnionSet.ofList_ok_iff _ _).mp firstUnions
  obtain ⟨_, _, _, secondSet⟩ := (UnionSet.ofList_ok_iff _ _).mp secondUnions
  have distinct := ((Registry.ofList_ok_iff _ _).mp firstMade).1
  obtain ⟨included, back⟩ := Included.of_perm types distinct named
  have shown := Model.same_view firstCompiled secondCompiled included
    fun _ _ found _ id beneath => included.covers back
      (beneath.inside (List.getElem?_eq_some_iff.mp found).1)
  refine ⟨shown.1, ?_, ?_, ?_⟩
  · intro name
    rw [firstSet, secondSet]
    exact find?_key_perm unions unionNames name
  · intro tag
    rw [firstSet, secondSet]
    exact UnionSet.tagOwner?_perm unions tagNames tag
  · intro same palette
    have lines := shown.2 (by rw [firstSet, secondSet, same])
    rw [Outline.render, Outline.render, lines]

/-- Expressions are sums and numbers. -/
def expressionType : TypeDef :=
  { name := "Expr", isFinal := false, publicName := some "Expr" }

/-- A sum refers back to expressions. -/
def sumType : TypeDef :=
  { name := "Add", base := some (.named "Expr"), members := [.nodeList "terms" (.named "Expr")] }

/-- A number holds data only. -/
def numberType : TypeDef :=
  { name := "Lit", base := some (.named "Expr"), members := [.data "value" "i64"] }

/-- A union without variants. -/
def optionUnion : Union :=
  { name := "Maybe", tag := { name := "MaybeTag", width := .u8 } }

/-- Another union without variants. -/
def valueUnion : Union :=
  { name := "Value", tag := { name := "ValueTag", width := .u8 } }

/-- The expressions with their root declared first. -/
def expressions : Schema :=
  ⟨[expressionType, sumType, numberType], [optionUnion, valueUnion]⟩

/-- The expressions with their root declared last, and the unions turned round. -/
def reorderedExpressions : Schema :=
  ⟨[sumType, numberType, expressionType], [valueUnion, optionUnion]⟩

/-- The model of the expressions. -/
def expressionsModel : Model where
  registry := .holding expressions.types (some {
    bases := [none, some 0, some 0]
    derived := [[1, 2], [], []]
    targets := [[], [some 0], [none]] })
  hierarchy := some {
    tree := .group 0 (.leaf 1) [.leaf 2]
    tags := .append {}
      [⟨"Add", 1⟩, ⟨"Lit", 2⟩, ⟨"FirstExpr", 1⟩, ⟨"LastExpr", 2⟩]
      [(1, ⟨1, 1⟩), (2, ⟨2, 2⟩), (0, ⟨1, 2⟩)]
    slots := [⟨.list, 0, "NodeList<Expr>", "visit_expr_list"⟩]
    facades := [⟨"Expr", [1, 2]⟩] }
  unions := .holding [optionUnion, valueUnion]
  settings := { root := "Expr" }

/-- The model of the reordered expressions, in which all numbers differ. -/
def reorderedModel : Model where
  registry := .holding reorderedExpressions.types (some {
    bases := [some 2, some 2, none]
    derived := [[], [], [0, 1]]
    targets := [[some 2], [none], []] })
  hierarchy := some {
    tree := .group 2 (.leaf 0) [.leaf 1]
    tags := .append {}
      [⟨"Add", 1⟩, ⟨"Lit", 2⟩, ⟨"FirstExpr", 1⟩, ⟨"LastExpr", 2⟩]
      [(0, ⟨1, 1⟩), (1, ⟨2, 2⟩), (2, ⟨1, 2⟩)]
    slots := [⟨.list, 2, "NodeList<Expr>", "visit_expr_list"⟩]
    facades := [⟨"Expr", [0, 1]⟩] }
  unions := .holding [valueUnion, optionUnion]
  settings := { root := "Expr" }

/-- Both orders of the expressions are accepted, and their models show the same. -/
theorem compile_order_expressions :
    expressions.types.Perm reorderedExpressions.types ∧
      expressions.unions.Perm reorderedExpressions.unions ∧
      Model.compile expressions { root := "Expr" } = .ok expressionsModel ∧
      Model.compile reorderedExpressions { root := "Expr" } = .ok reorderedModel ∧
      expressionsModel.view = reorderedModel.view ∧
      expressionsModel.unions.get? "Value" = reorderedModel.unions.get? "Value" ∧
      expressionsModel.unions.tagOwner? "MaybeTag" =
        reorderedModel.unions.tagOwner? "MaybeTag" := by
  have types : expressions.types.Perm reorderedExpressions.types :=
    show ([expressionType] ++ [sumType, numberType]).Perm
      ([sumType, numberType] ++ [expressionType]) from List.perm_append_comm
  have unions : expressions.unions.Perm reorderedExpressions.unions := List.Perm.swap _ _ _
  have named : ∀ type ∈ expressions.types, type.RefersByName := by
    simp [expressions, expressionType, sumType, numberType, TypeDef.RefersByName,
      MemberKind.target?, Member.nodeList, Member.data, TypeRef.IsNamed]
  have first : Model.compile expressions { root := "Expr" } = .ok expressionsModel :=
    Model.compile_of_linkedBy (by decide) (by decide +kernel) rfl rfl
  have second : Model.compile reorderedExpressions { root := "Expr" } = .ok reorderedModel :=
    Model.compile_of_linkedBy (by decide) (by decide +kernel) rfl rfl
  obtain ⟨_, same⟩ :=
    compile_order_independent expressions reorderedExpressions _ types unions named
  obtain ⟨shown, found, owned, _⟩ := same _ _ first second
  exact ⟨types, unions, first, second, shown, found _, owned _⟩

end Taxonomy
