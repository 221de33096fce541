import Taxonomy.Proofs.Numbering

/-!
# Going down from a type

What lies below a type can be listed by recursion over the derived types: the type
itself, then what lies below each type derived from it. The list holds every subtype
once. It is what working off a list of types gives, and the tree of the type fails to
grow exactly at the first type of the list that is abstract and has no derived type.

The recursion is bounded by the number of types. Going down by one level, the way up
gets longer by one, and no way up is longer than this number, so that the bound cuts
nothing off.
-/
namespace Taxonomy

open Relation

/-- The types at or below a type, each before those below it, down to `depth` levels. -/
def Registry.descent (registry : Registry) (bases : Bases) : (depth : Nat) → TypeId → List TypeId
  | 0, _ => []
  | depth + 1, id => id :: (registry.derivedFrom bases id).flatMap (registry.descent bases depth)

/-- The types at or below a type, each before those below it. -/
def Registry.under (registry : Registry) (bases : Bases) (id : TypeId) : List TypeId :=
  registry.descent bases registry.types.length id

/-- The fault of an abstract type from which no type is derived. -/
def Registry.emptiness? (registry : Registry) (bases : Bases) (id : TypeId) : Option Fault :=
  match registry.type? id with
  | none => none
  | some type =>
    if type.isFinal = false ∧ registry.derivedFrom bases id = [] then
      some (.emptyHierarchy type.name)
    else none

namespace Registry.Finished

variable {registry : Registry} {links : Links}

/-- To show something of all declared types, show it of a type from whose derived types
all have it. -/
theorem by_derived (finished : registry.Finished links) {motive : TypeId → Prop}
    (each : ∀ id < registry.types.length, (∀ child, links.bases.Step child id → motive child) →
      motive id) : ∀ id < registry.types.length, motive id := by
  -- The induction is on how much longer the way up could still get.
  have bounded (room : Nat) : ∀ id < registry.types.length,
      registry.types.length < room + (links.bases.ancestors id).length → motive id := by
    induction room with
    | zero =>
      intro id inside enough
      have bound := finished.ancestors_length_le inside
      omega
    | succ room inductionHypothesis =>
      intro id inside enough
      refine each id inside fun child step => ?_
      apply inductionHypothesis child (finished.step_declared step)
      rw [finished.ancestors_length_step step]
      omega
  intro id inside
  apply bounded (registry.types.length + 1) id inside
  omega

/-- Where the depth makes up for what is missing from the way up to its full length,
one more level adds nothing. -/
theorem descent_saturated (finished : registry.Finished links) (depth : Nat) (id : TypeId)
    (inside : id < registry.types.length)
    (enough : registry.types.length < depth + (links.bases.ancestors id).length) :
    registry.descent links.bases (depth + 1) id = registry.descent links.bases depth id := by
  induction depth generalizing id with
  | zero =>
    have bound := finished.ancestors_length_le inside
    omega
  | succ depth inductionHypothesis =>
    rw [descent, descent]
    refine congrArg (id :: ·) (List.flatMap_congr fun child member => ?_)
    have step := (finished.mem_derived_iff id child).mp member
    apply inductionHypothesis child (finished.step_declared step)
    rw [finished.ancestors_length_step step]
    omega

/-- Below a type are the type itself and what is below the types derived from it. -/
theorem under_eq (finished : registry.Finished links) {id : TypeId}
    (inside : id < registry.types.length) :
    registry.under links.bases id =
      id :: (registry.derivedFrom links.bases id).flatMap (registry.under links.bases) := by
  have positive := Bases.ancestors_positive (finished.faithful.sizes ▸ inside)
  rw [under, ← finished.descent_saturated _ id inside (by omega), descent]
  rfl

/-- The types listed below a type are those that reach it. -/
theorem mem_under_iff (finished : registry.Finished links) {top : TypeId}
    (declared : top < registry.types.length) (id : TypeId) :
    id ∈ registry.under links.bases top ↔ links.bases.Below id top := by
  refine finished.by_derived (motive := fun top =>
    id ∈ registry.under links.bases top ↔ links.bases.Below id top) ?_ top declared
  intro base inside inductionHypothesis
  rw [finished.under_eq inside, List.mem_cons, List.mem_flatMap]
  constructor
  · rintro (rfl | ⟨child, member, under⟩)
    · exact ReflTransGen.refl
    · have step := (finished.mem_derived_iff base child).mp member
      exact ((inductionHypothesis child step).mp under).tail step
  · intro below
    rcases ReflTransGen.cases_tail below with same | ⟨child, rest, step⟩
    · exact Or.inl same.symm
    · exact Or.inr ⟨child, (finished.mem_derived_iff base child).mpr step,
        (inductionHypothesis child step).mpr rest⟩

/-- No type is listed twice. -/
theorem under_nodup (finished : registry.Finished links) {top : TypeId}
    (declared : top < registry.types.length) : (registry.under links.bases top).Nodup := by
  have acyclic := finished.faithful.acyclic
  refine finished.by_derived (motive := fun top => (registry.under links.bases top).Nodup) ?_
    top declared
  intro base inside inductionHypothesis
  have child_step {child} (member : child ∈ registry.derivedFrom links.bases base) :
      links.bases.Step child base := (finished.mem_derived_iff base child).mp member
  have child_under {child id} (member : child ∈ registry.derivedFrom links.bases base)
      (under : id ∈ registry.under links.bases child) : links.bases.Below id child :=
    (finished.mem_under_iff (finished.step_declared (child_step member)) id).mp under
  rw [finished.under_eq inside, List.nodup_cons, List.nodup_flatMap]
  refine ⟨?_, fun child member => inductionHypothesis child (child_step member), ?_⟩
  · intro member
    obtain ⟨child, listed, under⟩ := List.mem_flatMap.mp member
    exact acyclic base (TransGen.tail' (child_under listed under) (child_step listed))
  · refine (finished.derived_sorted base).imp_of_mem ?_
    intro left right leftMember rightMember before id underLeft underRight
    have same : left = right := Bases.siblings_disjoint acyclic (child_step leftMember)
      (child_step rightMember) (child_under leftMember underLeft)
      (child_under rightMember underRight)
    rw [same] at before
    exact registry.before_asymm _ _ before before

/-- Working off a list of types lists what is below each of them, one after the other,
if there are as many rounds as types to list. -/
theorem walkFrom_ok (finished : registry.Finished links) (rounds : Nat) (pending : List TypeId)
    (declared : ∀ id ∈ pending, id < registry.types.length)
    (enough : (pending.flatMap (registry.under links.bases)).length ≤ rounds) :
    registry.walkFrom rounds pending = .ok (pending.flatMap (registry.under links.bases)) := by
  induction rounds generalizing pending with
  | zero =>
    cases pending with
    | nil => rfl
    | cons id rest =>
      rw [List.flatMap_cons, finished.under_eq (declared id List.mem_cons_self)] at enough
      simp at enough
  | succ rounds inductionHypothesis =>
    cases pending with
    | nil => rfl
    | cons id rest =>
      have inside := declared id List.mem_cons_self
      -- The first type is replaced by those derived from it, and the list stays the same.
      have replaced : (id :: rest).flatMap (registry.under links.bases) =
          id :: (registry.derivedFrom links.bases id ++ rest).flatMap
            (registry.under links.bases) := by
        rw [List.flatMap_cons, finished.under_eq inside, List.flatMap_append, List.cons_append]
      rw [replaced, List.length_cons] at enough
      have next := inductionHypothesis (registry.derivedFrom links.bases id ++ rest) (by
        intro other member
        rcases List.mem_append.mp member with derived | later
        · exact finished.step_declared ((finished.mem_derived_iff id other).mp derived)
        · exact declared other (List.mem_cons_of_mem _ later)) (by omega)
      rw [walkFrom, finished.derived_ok inside, replaced]
      simp only [bind, Except.bind, next]
      rfl

/-- Walking from declared types lists what is below each of them. -/
theorem walk_ok (finished : registry.Finished links) (tops : List TypeId)
    (declared : ∀ id ∈ tops, id < registry.types.length) :
    registry.walk tops = .ok (tops.flatMap (registry.under links.bases)) := by
  apply finished.walkFrom_ok _ tops declared
  induction tops with
  | nil => simp
  | cons top tops inductionHypothesis =>
    rw [List.forall_mem_cons] at declared
    have bound : (registry.under links.bases top).length ≤ links.bases.length := by
      apply Bases.nodup_length_le (finished.under_nodup declared.1)
      intro id member
      rw [finished.faithful.sizes]
      exact finished.below_declared declared.1 ((finished.mem_under_iff declared.1 id).mp member)
    have rest := inductionHypothesis declared.2
    rw [finished.faithful.sizes] at bound
    rw [List.flatMap_cons, List.length_append, List.length_cons, Nat.succ_mul]
    omega

end Registry.Finished

/-- A type is reported as empty exactly if it is abstract and no type is derived from
it. -/
theorem Registry.emptiness?_some_iff (registry : Registry) (bases : Bases) (id : TypeId)
    (fault : Fault) :
    registry.emptiness? bases id = some fault ↔
      ∃ type, registry.types[id]? = some type ∧ type.isFinal = false ∧
        registry.derivedFrom bases id = [] ∧ fault = .emptyHierarchy type.name := by
  rw [emptiness?, type?]
  cases registry.types[id]? with
  | none => simp
  | some type =>
    simp only [Option.some.injEq, exists_eq_left']
    by_cases empty : type.isFinal = false ∧ registry.derivedFrom bases id = []
    · rw [if_pos empty, and_iff_right empty.1, and_iff_right empty.2, Option.some.injEq]
      exact eq_comm
    · rw [if_neg empty]
      simp only [reduceCtorEq, false_iff]
      exact fun reported => empty ⟨reported.1, reported.2.1⟩

namespace Tree

variable {registry : Registry} {links : Links}

/-- One level of growing fails at the type itself, or else where the trees of the types
derived from it do. -/
theorem grow_succ_fault? (finished : registry.Finished links) (depth : Nat) {id : TypeId}
    (inside : id < registry.types.length) :
    Outcome.fault? (grow registry (depth + 1) id) =
      (registry.emptiness? links.bases id).or
        ((registry.derivedFrom links.bases id).findSome? fun child =>
          Outcome.fault? (grow registry depth child)) := by
  have found : registry.types[id]? = some registry.types[id] := List.getElem?_eq_getElem inside
  rw [grow_succ_eq finished depth found, Registry.emptiness?, Registry.type?, found,
    ← Outcome.fault?_mapM]
  cases final : registry.types[id].isFinal with
  | true =>
    have nobody := finished.derived_of_final found final
    simp [final, nobody, Outcome.fault?, pure, Except.pure]
  | false =>
    cases derived : registry.derivedFrom links.bases id with
    | nil => simp [final, bind, Except.bind, Outcome.fault?, pure, Except.pure]
    | cons eldest others =>
      have aligned := Outcome.mapM_ok_iff (grow registry depth) (eldest :: others)
      cases each : (eldest :: others).mapM (grow registry depth) with
      | error fault => simp [final, bind, Except.bind, Outcome.fault?]
      | ok trees =>
        cases (aligned trees).mp each with
        | cons _ _ => simp [final, bind, Except.bind, Outcome.fault?]

/-- Growing a tree fails at the first type on the way down that is abstract and has no
derived type, and succeeds if there is none. -/
theorem grow_fault? (finished : registry.Finished links) (depth : Nat) (id : TypeId)
    (inside : id < registry.types.length)
    (enough : registry.types.length < depth + (links.bases.ancestors id).length) :
    Outcome.fault? (grow registry depth id) =
      (registry.descent links.bases depth id).findSome? (registry.emptiness? links.bases) := by
  induction depth generalizing id with
  | zero =>
    have bound := finished.ancestors_length_le inside
    omega
  | succ depth inductionHypothesis =>
    have children : (registry.derivedFrom links.bases id).findSome?
          (fun child => Outcome.fault? (grow registry depth child)) =
        ((registry.derivedFrom links.bases id).flatMap
          (registry.descent links.bases depth)).findSome? (registry.emptiness? links.bases) := by
      rw [Outcome.findSome?_flatMap]
      refine Outcome.findSome?_congr fun child member => ?_
      have step := (finished.mem_derived_iff id child).mp member
      apply inductionHypothesis child (finished.step_declared step)
      rw [finished.ancestors_length_step step]
      omega
    rw [grow_succ_fault? finished depth inside, children, Registry.descent, List.findSome?_cons]
    cases registry.emptiness? links.bases id <;> rfl

/-- The tree of a declared name fails to grow at the first type below it that is
abstract and has no derived type. -/
theorem ofRoot_fault? (finished : registry.Finished links) {name : String} {top : TypeId}
    (named : registry.find? name = some top) :
    Outcome.fault? (ofRoot registry name) =
      (registry.under links.bases top).findSome? (registry.emptiness? links.bases) := by
  obtain ⟨type, found, _⟩ := (finished.inStep.find?_some_iff name top).mp named
  have inside : top < registry.types.length := (List.getElem?_eq_some_iff.mp found).1
  have positive := Bases.ancestors_positive (finished.faithful.sizes ▸ inside)
  rw [ofRoot, Registry.isFinished, finished.linked, Option.isSome_some, if_pos rfl,
    (registry.id_ok_iff name top).mpr named]
  exact grow_fault? finished _ top inside (by omega)

/-- Every node of a grown tree is a leaf exactly if its type is final, and has a child
for each type derived from its type, in their order. -/
theorem Grown.node_shape (finished : registry.Finished links) {tree : Tree}
    (grown : tree.Grown registry links) :
    ∃ type, registry.type tree.root = .ok type ∧ tree.isLeaf = type.isFinal ∧
      registry.derived tree.root = .ok (tree.children.map root) := by
  cases grown with
  | @leaf id type found final =>
    have inside : id < registry.types.length := (List.getElem?_eq_some_iff.mp found).1
    refine ⟨type, (registry.type_ok_iff id type).mpr found, final.symm, ?_⟩
    have nobody := finished.derived_of_final found final
    rw [root, finished.derived_ok inside, nobody]
    rfl
  | @group id type eldest others found abstract derived _ =>
    have inside : id < registry.types.length := (List.getElem?_eq_some_iff.mp found).1
    refine ⟨type, (registry.type_ok_iff id type).mpr found, abstract.symm, ?_⟩
    rw [root, finished.derived_ok inside, derived]
    rfl

end Tree

/-- The tree of a name in a finished registry is exactly the part of the registry below
the type of this name. It exists exactly if the name is declared and every abstract type
at or below its type has a derived type. It holds each subtype once; its nodes are leaves
exactly for the final types, and the children of a node are the derived types in their
order. Otherwise the fault names the first type, in the order of a walk, that is abstract
and has no derived type.

Proof: growing a tree and listing what lies below a type are the same recursion over
derived types, so they visit the same types in the same order, and the first one that is
abstract and has no derived type is where the tree fails to grow. The recursion goes as
deep as the number of types allows. No way up is longer than this, so the bound is never
met; and since every type has one base, no type is met twice. -/
theorem tree_is_exactly_the_subtree (registry : Registry) (reachable : registry.Reachable)
    (isFinished : registry.isFinished = true) (name : String) :
    ((∃ tree, Tree.ofRoot registry name = .ok tree) ↔
      ∃ top, registry.id name = .ok top ∧ ∀ id type, registry.isSubtype id top = .ok true →
        registry.type id = .ok type → type.isFinal = false →
        ∃ child, registry.base child = .ok (some id)) ∧
    (∀ tree, Tree.ofRoot registry name = .ok tree →
      registry.id name = .ok tree.root ∧ tree.ids.Nodup ∧
      (∀ id, id ∈ tree.ids ↔ registry.isSubtype id tree.root = .ok true) ∧
      ∀ sub : Tree, sub.Within tree → ∃ type, registry.type sub.root = .ok type ∧
        sub.isLeaf = type.isFinal ∧
        registry.derived sub.root = .ok (sub.children.map Tree.root)) ∧
    ∀ top fault, registry.id name = .ok top → Tree.ofRoot registry name = .error fault →
      ∃ before id after type, registry.walk [top] = .ok (before ++ id :: after) ∧
        registry.type id = .ok type ∧ type.isFinal = false ∧ registry.derived id = .ok [] ∧
        fault = .emptyHierarchy type.name ∧
        ∀ earlier ∈ before, ∀ other, registry.type earlier = .ok other →
          other.isFinal = false → registry.derived earlier ≠ .ok [] := by
  obtain ⟨links, finished⟩ := reachable.sound.finished isFinished
  have declared {top : TypeId} (named : registry.id name = .ok top) :
      top < registry.types.length := by
    rw [registry.id_ok_iff] at named
    obtain ⟨type, found, _⟩ := (finished.inStep.find?_some_iff name top).mp named
    exact (List.getElem?_eq_some_iff.mp found).1
  refine ⟨?_, ?_, ?_⟩
  · rw [Tree.ofRoot_succeeds_iff finished]
    refine exists_congr fun top => ?_
    rw [registry.id_ok_iff]
    refine and_congr_right fun named => ?_
    have inside := declared ((registry.id_ok_iff name top).mpr named)
    simp only [finished.isSubtype_below_iff inside, registry.type_ok_iff, finished.base_step_iff]
  · intro tree success
    obtain ⟨named, grown⟩ := Tree.ofRoot_grown finished success
    rw [← registry.id_ok_iff] at named
    refine ⟨named, grown.ids_nodup finished, fun id => ?_, fun sub within => ?_⟩
    · rw [grown.mem_ids_iff finished, finished.isSubtype_below_iff (declared named)]
    · exact (grown.within within).node_shape finished
  · intro top fault named failed
    have inside := declared named
    rw [registry.id_ok_iff] at named
    rw [← Outcome.fault?_some_iff, Tree.ofRoot_fault? finished named,
      List.findSome?_eq_some_iff] at failed
    obtain ⟨before, id, after, order, reported, passed⟩ := failed
    obtain ⟨type, found, abstract, nobody, rfl⟩ :=
      (registry.emptiness?_some_iff links.bases id fault).mp reported
    refine ⟨before, id, after, type, ?_, (registry.type_ok_iff id type).mpr found, abstract, ?_,
      rfl, ?_⟩
    · rw [finished.walk_ok [top] (by simpa using inside), ← order]
      simp
    · rw [finished.derived_ok (List.getElem?_eq_some_iff.mp found).1, nobody]
    · intro earlier member other otherFound otherAbstract childless
      rw [registry.type_ok_iff] at otherFound
      rw [finished.derived_ok (List.getElem?_eq_some_iff.mp otherFound).1,
        Except.ok.injEq] at childless
      have unreported := passed earlier member
      rw [(registry.emptiness?_some_iff links.bases earlier _).mpr
        ⟨other, otherFound, otherAbstract, childless, rfl⟩] at unreported
      cases unreported

/-- Plants are trees, herbs and ferns, but of these only a tree is known. -/
def plants : Registry :=
  .holding [
    { name := "Plant", isFinal := false },
    { name := "Tree", base := some (.named "Plant"), isFinal := false },
    { name := "Herb", base := some (.named "Plant"), isFinal := false },
    { name := "Fern", base := some (.named "Plant"), isFinal := false },
    { name := "Oak", base := some (.named "Tree") }]
    (some {
      bases := [none, some 0, some 0, some 0, some 1]
      derived := [[3, 2, 1], [4], [], [], []]
      targets := [[], [], [], [], []] })

/-- Trees have a tree. Plants have none because of the ferns, which a walk meets before
the herbs. -/
theorem tree_is_exactly_the_subtree_plants :
    Tree.ofRoot plants "Tree" = .ok (.group 1 (.leaf 4) []) ∧
      (∀ id, id ∈ [1, 4] ↔ plants.isSubtype id 1 = .ok true) ∧
      Tree.ofRoot plants "Plant" = .error (.emptyHierarchy "Fern") ∧
      ∃ before id after type, plants.walk [0] = .ok (before ++ id :: after) ∧
        plants.type id = .ok type ∧ type.isFinal = false ∧ plants.derived id = .ok [] ∧
        Fault.emptyHierarchy "Fern" = .emptyHierarchy type.name ∧
        ∀ earlier ∈ before, ∀ other, plants.type earlier = .ok other →
          other.isFinal = false → plants.derived earlier ≠ .ok [] := by
  have made : Registry.ofList plants.types = .ok plants :=
    Registry.ofList_of_linkedBy (by decide +kernel)
  have reachable := Registry.ofList_reachable made
  have built : Tree.ofRoot plants "Tree" = .ok (.group 1 (.leaf 4) []) := by rfl
  have failed : Tree.ofRoot plants "Plant" = .error (.emptyHierarchy "Fern") := by rfl
  have trees := tree_is_exactly_the_subtree plants reachable rfl "Tree"
  have whole := tree_is_exactly_the_subtree plants reachable rfl "Plant"
  exact ⟨built, (trees.2.1 _ built).2.2.1, failed, whole.2.2 0 _ (by rfl) failed⟩

end Taxonomy
