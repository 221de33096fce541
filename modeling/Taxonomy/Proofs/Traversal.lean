import Taxonomy.Proofs.Descent
import Taxonomy.Proofs.Labels

/-!
# Working off a list of types is going down recursively

A walk keeps one list of types that are still to be visited and puts the derived types of
each visited type in front. It remembers no type that it has met. Going down recursively, the
types derived from a type are done with before the next type is looked at. Both visit the
same types in the same order, also from types of which one lies below another, where types
are visited more than once.

The recursive traversal is a relation that only mentions derived types. It has neither a
bound on the depth nor one on the rounds; that it exists for every declared type is where it
counts that no type of a finished registry is below itself.
-/
namespace Taxonomy

namespace Registry

/-- The second list is the traversal from the types of the first one. From no type there is
nothing to visit. From a type and further ones, the type comes first, then all that is visited
from the types derived from it, and then all that is visited from the further ones. -/
inductive Preorder (registry : Registry) : List TypeId → List TypeId → Prop
  | nil : Preorder registry [] []
  | cons {id : TypeId} {children others below after : List TypeId}
      (derived : registry.derived id = .ok children)
      (descend : Preorder registry children below) (goOn : Preorder registry others after) :
      Preorder registry (id :: others) (id :: (below ++ after))

variable {registry : Registry} {links : Links}

/-- Derived types are answered for declared types only. -/
theorem InStep.derived_inside (inStep : registry.InStep) {id : TypeId} {children : List TypeId}
    (derived : registry.derived id = .ok children) : id < registry.types.length := by
  rw [Registry.derived, Outcome.bind_ok_iff] at derived
  obtain ⟨_, found, _⟩ := derived
  exact inStep.linksFor_inside found

/-- Traversals from single types, one after the other, are the traversal from all. -/
theorem Preorder.of_each {part : TypeId → List TypeId} {ids : List TypeId}
    (each : ∀ id ∈ ids, registry.Preorder [id] (part id)) :
    registry.Preorder ids (ids.flatMap part) := by
  induction ids with
  | nil => exact .nil
  | cons id ids inductionHypothesis =>
    rw [List.forall_mem_cons] at each
    have rest := inductionHypothesis each.2
    rw [List.flatMap_cons]
    generalize part id = visited at each
    obtain ⟨here, _⟩ := each
    cases here with
    | cons derived descend goOn =>
      cases goOn with
      | nil =>
        rw [List.append_nil]
        exact .cons derived descend rest

namespace Finished

/-- From every declared type there is a traversal, which lists what is below the type. -/
theorem preorder_under (finished : registry.Finished links) :
    ∀ id < registry.types.length, registry.Preorder [id] (registry.under links.bases id) := by
  refine finished.by_derived fun id inside inductionHypothesis => ?_
  have below : registry.Preorder (registry.derivedFrom links.bases id)
      ((registry.derivedFrom links.bases id).flatMap (registry.under links.bases)) :=
    Preorder.of_each fun child member =>
      inductionHypothesis child ((finished.mem_derived_iff id child).mp member)
  have whole := Preorder.cons (finished.derived_ok inside) below .nil
  rwa [List.append_nil, ← finished.under_eq inside] at whole

/-- There is no other traversal: what is visited is what is below each type in turn. -/
theorem preorder_unique (finished : registry.Finished links) {tops visited : List TypeId}
    (traversed : registry.Preorder tops visited) :
    (∀ top ∈ tops, top < registry.types.length) ∧
      visited = tops.flatMap (registry.under links.bases) := by
  induction traversed with
  | nil => simp
  | @cons id children others below after derived _ _ descended wentOn =>
    have inside := finished.inStep.derived_inside derived
    rw [finished.derived_ok inside, Except.ok.injEq] at derived
    refine ⟨List.forall_mem_cons.mpr ⟨inside, wentOn.1⟩, ?_⟩
    rw [List.flatMap_cons, finished.under_eq inside, derived, ← descended.2, ← wentOn.2,
      List.cons_append]

end Finished

end Registry

namespace Tree.Grown

variable {registry : Registry} {links : Links} {tree : Tree}

/-- The types of a grown tree are listed as going down from its root lists them. -/
theorem ids_eq_under (finished : registry.Finished links) (grown : tree.Grown registry links) :
    tree.ids = registry.under links.bases tree.root := by
  induction grown with
  | @leaf id type found final =>
    have inside : id < registry.types.length := (List.getElem?_eq_some_iff.mp found).1
    rw [root, finished.under_eq inside, finished.derived_of_final found final]
    rfl
  | @group id type eldest others found abstract derived _ inductionHypothesis =>
    have inside : id < registry.types.length := (List.getElem?_eq_some_iff.mp found).1
    rw [root, finished.under_eq inside, derived, List.flatMap_map, ids_group]
    exact congrArg (id :: ·) (List.flatMap_congr inductionHypothesis)

/-- The leaves of a grown tree are its final types in the same order. -/
theorem leaves_eq_filter (grown : tree.Grown registry links) :
    tree.leaves = tree.ids.filter registry.isFinalId := by
  induction grown with
  | @leaf id type found final =>
    simp [leaves, ids, Registry.isFinalId, Registry.type?, found, final]
  | @group id type eldest others found abstract derived _ inductionHypothesis =>
    have notFinal : registry.isFinalId id = false := by
      simp [Registry.isFinalId, Registry.type?, found, abstract]
    rw [leaves_group, ids_group, List.filter_cons_of_neg (by simp [notFinal]), List.filter_flatMap]
    exact List.flatMap_congr inductionHypothesis

end Tree.Grown

/-- The walk over a finished registry is the recursive traversal, from each given type in
turn. It ends by itself: any number of rounds that is enough for the listed types gives the
same list. From one type it visits each subtype once and nothing else. The final types of a
walk are those among the visited ones, in the same order. From the root of a tree the walk
visits the types of the tree as the tree lists them.

Proof: what lies below a type is a list that satisfies the recursive equations, and these have one
solution, by induction on how far down a type can be. Each round of the walk replaces the first type
of its list by this type and those derived from it. By the equations the lists below all pending
types, put together, stay the same, so after as many rounds as they are long the walk has visited
exactly these. -/
theorem walk_is_recursive_traversal (registry : Registry) (reachable : registry.Reachable)
    (isFinished : registry.isFinished = true) :
    (∀ bases : List TypeId, (∀ base ∈ bases, ∃ type, registry.type base = .ok type) →
      ∃ parts, List.Forall₂ (fun base part => registry.Preorder [base] part) bases parts ∧
        registry.walk bases = .ok parts.flatten ∧
        (∀ rounds, parts.flatten.length ≤ rounds →
          registry.walkFrom rounds bases = .ok parts.flatten) ∧
        registry.walkFinal bases = .ok (parts.flatten.filter registry.isFinalId)) ∧
    (∀ base visited, registry.Preorder [base] visited →
      visited.Nodup ∧ ∀ id, id ∈ visited ↔ registry.isSubtype id base = .ok true) ∧
    ∀ name tree, Tree.ofRoot registry name = .ok tree →
      registry.id name = .ok tree.root ∧ registry.walk [tree.root] = .ok tree.ids ∧
        registry.walkFinal [tree.root] = .ok tree.leaves := by
  obtain ⟨links, finished⟩ := reachable.sound.finished isFinished
  have walkFinal_ok {bases visited : List TypeId} (walked : registry.walk bases = .ok visited) :
      registry.walkFinal bases = .ok (visited.filter registry.isFinalId) := by
    rw [Registry.walkFinal, walked]
    rfl
  refine ⟨?_, ?_, ?_⟩
  · intro bases known
    have declared : ∀ base ∈ bases, base < registry.types.length := by
      intro base member
      obtain ⟨type, found⟩ := known base member
      exact (List.getElem?_eq_some_iff.mp ((registry.type_ok_iff base type).mp found)).1
    have walked := finished.walk_ok bases declared
    refine ⟨bases.map (registry.under links.bases), ?_, walked, ?_, walkFinal_ok walked⟩
    · rw [List.forall₂_map_right_iff, List.forall₂_same]
      exact fun base member => finished.preorder_under base (declared base member)
    · exact fun rounds enough => finished.walkFrom_ok rounds bases declared enough
  · intro base visited traversed
    obtain ⟨declared, listed⟩ := finished.preorder_unique traversed
    have inside := declared base List.mem_cons_self
    rw [List.flatMap_singleton] at listed
    rw [listed]
    refine ⟨finished.under_nodup inside, fun id => ?_⟩
    rw [finished.mem_under_iff inside, finished.isSubtype_below_iff inside]
  · intro name tree built
    obtain ⟨named, grown⟩ := Tree.ofRoot_grown finished built
    have inside := grown.declared tree.root ((grown.mem_ids_iff finished _).mpr .refl)
    have walked := finished.walk_ok [tree.root] (by simpa using inside)
    rw [List.flatMap_singleton, ← grown.ids_eq_under finished] at walked
    refine ⟨(registry.id_ok_iff name _).mpr named, walked, ?_⟩
    rw [walkFinal_ok walked, grown.leaves_eq_filter]

/-- Walking from the trees and then from all plants visits the trees twice. Ferns and herbs
are visited although no kind of them is known. -/
theorem walk_is_recursive_traversal_plants :
    (∃ parts, List.Forall₂ (fun base part => plants.Preorder [base] part) [1, 0] parts ∧
      plants.walk [1, 0] = .ok parts.flatten ∧
      (∀ rounds, parts.flatten.length ≤ rounds →
        plants.walkFrom rounds [1, 0] = .ok parts.flatten) ∧
      plants.walkFinal [1, 0] = .ok (parts.flatten.filter plants.isFinalId)) ∧
    plants.walk [1, 0] = .ok [1, 4, 0, 3, 2, 1, 4] ∧
    plants.walkFinal [1] = .ok (Tree.group 1 (.leaf 4) []).leaves := by
  have made : Registry.ofList plants.types = .ok plants :=
    Registry.ofList_of_linkedBy (by decide +kernel)
  have built : Tree.ofRoot plants "Tree" = .ok (.group 1 (.leaf 4) []) := by rfl
  have known : ∀ base ∈ [1, 0], ∃ type, plants.type base = .ok type := by
    intro base member
    rcases List.mem_pair.mp member with rfl | rfl
    · exact ⟨{ name := "Tree", base := some (.named "Plant"), isFinal := false }, by rfl⟩
    · exact ⟨{ name := "Plant", isFinal := false }, by rfl⟩
  obtain ⟨walks, _, trees⟩ :=
    walk_is_recursive_traversal plants (Registry.ofList_reachable made) rfl
  exact ⟨walks [1, 0] known, by rfl, (trees "Tree" _ built).2.2⟩

end Taxonomy
