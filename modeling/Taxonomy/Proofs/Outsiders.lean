import Taxonomy.Proofs.ModelView

/-!
# Types outside the tree

A schema may declare types that are neither the root nor below it. They can refer into
the tree, have trees of their own, and be abstract without a derived type, which in the
tree would be a fault. Wherever such types are inserted, they shift the numbers of the
types behind them, and that is all: what the model shows and the text of its outline
stay the same.
-/
namespace Taxonomy

open Relation

/-- The type is declared by the schema as the root of the settings or lies beneath
it. -/
def Schema.InTree (schema : Schema) (settings : Settings) (type : TypeDef) : Prop :=
  ∃ id top root, schema.types[id]? = some type ∧ schema.types[top]? = some root ∧
    root.name = settings.root ∧ Beneath schema.types id top

/-- A type without a base is in the tree only as its root. -/
theorem Schema.InTree.name_of_top {schema : Schema} {settings : Settings} {type : TypeDef}
    (inTree : schema.InTree settings type) (top : type.base = none) :
    type.name = settings.root := by
  obtain ⟨id, above, root, found, rootFound, rootNamed, beneath⟩ := inTree
  rcases ReflTransGen.cases_head beneath with rfl | ⟨_, ⟨other, ref, otherFound, given, _⟩, _⟩
  · obtain rfl := Option.some.inj (found.symm.trans rootFound)
    exact rootNamed
  · obtain rfl := Option.some.inj (found.symm.trans otherFound)
    simp [top] at given

/-- Types that are inserted anywhere into a list include it in the longer one. -/
theorem Included.of_sublist {left right : List TypeDef} (inserted : left.Sublist right)
    (distinct : (right.map TypeDef.name).Nodup) (named : ∀ type ∈ left, type.RefersByName) :
    Included left right where
  left_distinct := distinct.sublist (inserted.map TypeDef.name)
  right_distinct := distinct
  declared _ member := inserted.subset member
  by_name := named

/-- Inserting types outside the tree changes neither what a model shows nor its
outline.

Proof: the types of the smaller schema have places in the larger one, which renumber them
without changing what their references mean. Everything below the root of the larger
schema is among the renumbered types, since the others are outside the tree. So the larger
hierarchy is the smaller one renumbered, and both show the same names. -/
theorem types_outside_tree_irrelevant (schema extended : Schema) (settings : Settings)
    (inserted : schema.types.Sublist extended.types) (unions : schema.unions = extended.unions)
    (named : ∀ type ∈ schema.types, type.RefersByName)
    (outside : ∀ type ∈ extended.types, type ∉ schema.types → ¬ extended.InTree settings type)
    (first second : Model) (firstCompiled : Model.compile schema settings = .ok first)
    (secondCompiled : Model.compile extended settings = .ok second) :
    first.view = second.view ∧
      ∀ palette, Outline.render palette first = Outline.render palette second := by
  obtain ⟨_, _, firstUnions, _⟩ := (Model.compile_ok_iff _ _ _).mp firstCompiled
  obtain ⟨secondMade, _, secondUnions, _⟩ := (Model.compile_ok_iff _ _ _).mp secondCompiled
  have distinct := ((Registry.ofList_ok_iff _ _).mp secondMade).1
  have included := Included.of_sublist inserted distinct named
  have shown := Model.same_view firstCompiled secondCompiled included
    fun top root rootFound rootNamed id beneath => by
      have inside := beneath.inside (List.getElem?_eq_some_iff.mp rootFound).1
      have found : extended.types[id]? = some extended.types[id] := List.getElem?_eq_getElem inside
      apply included.covers_common found
      by_contra extra
      apply outside _ (List.mem_of_getElem? found) extra
      exact ⟨id, top, root, found, rootFound, rootNamed, beneath⟩
  refine ⟨shown.1, fun palette => ?_⟩
  have same : first.unions = second.unions := by
    rw [unions] at firstUnions
    exact Except.ok.inj (firstUnions.symm.trans secondUnions)
  rw [Outline.render, Outline.render, shown.2 same]

/-- A block of text is a paragraph, which holds blocks, or a rule. -/
def blocks : Schema where
  types := [
    { name := "Block", isFinal := false, publicName := some "Block" },
    { name := "Para", base := some (.named "Block"),
      members := [.nodeList "parts" (.named "Block")] },
    { name := "Rule", base := some (.named "Block") }]

/-- The blocks with a remark about them in front and an abstract type without a derived
one in between. -/
def annotatedBlocks : Schema where
  types := [
    { name := "Remark", members := [.node "about" (.named "Block")] },
    { name := "Block", isFinal := false, publicName := some "Block" },
    { name := "Para", base := some (.named "Block"),
      members := [.nodeList "parts" (.named "Block")] },
    { name := "Token", isFinal := false },
    { name := "Rule", base := some (.named "Block") }]

/-- The model of the blocks. -/
def blocksModel : Model where
  registry := .holding blocks.types (some {
    bases := [none, some 0, some 0]
    derived := [[1, 2], [], []]
    targets := [[], [some 0], []] })
  hierarchy := some {
    tree := .group 0 (.leaf 1) [.leaf 2]
    tags := .append {}
      [⟨"Para", 1⟩, ⟨"Rule", 2⟩, ⟨"FirstBlock", 1⟩, ⟨"LastBlock", 2⟩]
      [(1, ⟨1, 1⟩), (2, ⟨2, 2⟩), (0, ⟨1, 2⟩)]
    slots := [⟨.list, 0, "NodeList<Block>", "visit_block_list"⟩]
    facades := [⟨"Block", [1, 2]⟩] }
  unions := {}
  settings := { root := "Block" }

/-- The model of the annotated blocks, in which every block has another number. -/
def annotatedModel : Model where
  registry := .holding annotatedBlocks.types (some {
    bases := [none, none, some 1, none, some 1]
    derived := [[], [2, 4], [], [], []]
    targets := [[some 1], [], [some 1], [], []] })
  hierarchy := some {
    tree := .group 1 (.leaf 2) [.leaf 4]
    tags := .append {}
      [⟨"Para", 1⟩, ⟨"Rule", 2⟩, ⟨"FirstBlock", 1⟩, ⟨"LastBlock", 2⟩]
      [(2, ⟨1, 1⟩), (4, ⟨2, 2⟩), (1, ⟨1, 2⟩)]
    slots := [⟨.list, 1, "NodeList<Block>", "visit_block_list"⟩]
    facades := [⟨"Block", [2, 4]⟩] }
  unions := {}
  settings := { root := "Block" }

/-- Remarks and tokens change nothing that the model of the blocks shows. -/
theorem types_outside_tree_blocks :
    blocks.types.Sublist annotatedBlocks.types ∧
      Model.compile blocks { root := "Block" } = .ok blocksModel ∧
      Model.compile annotatedBlocks { root := "Block" } = .ok annotatedModel ∧
      blocksModel.view = annotatedModel.view ∧
      Outline.render .plain blocksModel = Outline.render .plain annotatedModel := by
  have inserted : blocks.types.Sublist annotatedBlocks.types := by
    exact .cons _ (.cons_cons _ (.cons_cons _ (.cons _ (.cons_cons _ .slnil))))
  have named : ∀ type ∈ blocks.types, type.RefersByName := by
    simp [blocks, TypeDef.RefersByName, MemberKind.target?, Member.nodeList, TypeRef.IsNamed]
  have first : Model.compile blocks { root := "Block" } = .ok blocksModel :=
    Model.compile_of_linkedBy (by decide) (by decide +kernel) rfl rfl
  have second : Model.compile annotatedBlocks { root := "Block" } = .ok annotatedModel :=
    Model.compile_of_linkedBy (by decide) (by decide +kernel) rfl rfl
  have outside : ∀ type ∈ annotatedBlocks.types, type ∉ blocks.types →
      ¬ annotatedBlocks.InTree { root := "Block" } type := by
    have apart : ∀ type ∈ annotatedBlocks.types, type ∉ blocks.types →
        type.base = none ∧ type.name ≠ "Block" := by decide
    intro type member extra inTree
    exact (apart type member extra).2 (inTree.name_of_top (apart type member extra).1)
  have same := types_outside_tree_irrelevant blocks annotatedBlocks { root := "Block" } inserted rfl
    named outside _ _ first second
  exact ⟨inserted, first, second, same.1, same.2 .plain⟩

end Taxonomy
