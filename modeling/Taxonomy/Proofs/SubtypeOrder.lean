import Taxonomy.Proofs.Registration

/-!
# Subtyping is an order

Whether a type is a subtype of another one is found by going up from the first, base after
base, until the other one is met or there is no base left. Going up has no bound of its own:
that it ends is where it counts that a finished registry has no type above itself. The climb
is therefore stated as a relation that only asks for bases, and shown to end in one answer,
which is the one that the registry gives.

The answers make up an order on the types. It is not a total one, but the types above a given
type are all comparable, since no type has two bases.
-/
namespace Taxonomy

open Relation

namespace Registry

/-- The registry answers that the second type is the base of the first. -/
def HasBase (registry : Registry) (id base : TypeId) : Prop :=
  registry.base id = .ok (some base)

/-- Going up from a type in search of the goal ends with an answer. -/
inductive Climb (registry : Registry) (goal : TypeId) : TypeId → Bool → Prop
  | met : Climb registry goal goal true
  | ended {id : TypeId} (other : id ≠ goal) (top : registry.base id = .ok none) :
      Climb registry goal id false
  | up {id base : TypeId} {answer : Bool} (other : id ≠ goal) (above : registry.HasBase id base)
      (rest : Climb registry goal base answer) : Climb registry goal id answer

variable {registry : Registry} {links : Links}

/-- A climb that finds its goal has gone from base to base. -/
theorem Climb.reaches {goal id : TypeId} (climb : registry.Climb goal id true) :
    ReflTransGen registry.HasBase id goal := by
  generalize same : true = answer at climb
  induction climb with
  | met => exact ReflTransGen.refl
  | ended _ _ => cases same
  | up _ above _ inductionHypothesis => exact ReflTransGen.head above (inductionHypothesis same)

/-- A climb that does not find its goal has missed no type on the way up. -/
theorem Climb.misses {goal id : TypeId} (climb : registry.Climb goal id false) :
    ¬ ReflTransGen registry.HasBase id goal := by
  generalize same : false = answer at climb
  induction climb with
  | met => cases same
  | ended other top =>
    intro reached
    rcases ReflTransGen.cases_head reached with rfl | ⟨base, above, _⟩
    · exact other rfl
    · rw [HasBase, top] at above
      cases above
  | up other above _ inductionHypothesis =>
    intro reached
    rcases ReflTransGen.cases_head reached with rfl | ⟨base, alsoAbove, rest⟩
    · exact other rfl
    · rw [HasBase, above, Except.ok.injEq, Option.some.injEq] at alsoAbove
      subst alsoAbove
      exact inductionHypothesis same rest

/-- A climb finds its goal exactly if the goal is reached from base to base. -/
theorem Climb.answer_iff {goal id : TypeId} {answer : Bool}
    (climb : registry.Climb goal id answer) :
    answer = true ↔ ReflTransGen registry.HasBase id goal := by
  cases answer with
  | true => exact iff_of_true rfl climb.reaches
  | false => exact iff_of_false Bool.false_ne_true climb.misses

namespace Finished

/-- To show something of all declared types, show it of a type whose base, if there is one,
has it. -/
theorem by_base (finished : registry.Finished links) {motive : TypeId → Prop}
    (each : ∀ id < registry.types.length, (∀ base, links.bases.Step id base → motive base) →
      motive id) : ∀ id < registry.types.length, motive id := by
  -- The induction is on the length of the way up, which is shorter for the base.
  have bounded (length : Nat) : ∀ id < registry.types.length,
      (links.bases.ancestors id).length ≤ length → motive id := by
    induction length with
    | zero =>
      intro id inside short
      have positive := Bases.ancestors_positive (finished.faithful.sizes ▸ inside)
      omega
    | succ length inductionHypothesis =>
      intro id inside short
      refine each id inside fun base step => ?_
      apply inductionHypothesis base (finished.faithful.sizes ▸ finished.bounded id base step)
      rw [finished.ancestors_length_step step] at short
      omega
  exact fun id inside => bounded _ id inside (Nat.le_refl _)

/-- The base that is answered for a type is the one that the links have. -/
theorem hasBase_eq (finished : registry.Finished links) :
    registry.HasBase = links.bases.Step := by
  funext id base
  exact propext (finished.base_step_iff id base)

/-- Every climb ends. -/
theorem climbs (finished : registry.Finished links) (goal : TypeId) :
    ∀ id < registry.types.length, ∃ answer, registry.Climb goal id answer := by
  refine finished.by_base fun id inside inductionHypothesis => ?_
  by_cases same : id = goal
  · subst same
    exact ⟨true, .met⟩
  · cases found : links.bases.base? id with
    | none =>
      refine ⟨false, .ended same ?_⟩
      rw [finished.base_ok inside, found]
    | some base =>
      obtain ⟨answer, rest⟩ := inductionHypothesis base found
      exact ⟨answer, .up same ((finished.base_step_iff id base).mpr found) rest⟩

/-- The subtype test on a declared type always has an answer. -/
theorem isSubtype_answers (finished : registry.Finished links) {id : TypeId}
    (inside : id < registry.types.length) (ancestor : TypeId) :
    ∃ answer, registry.isSubtype id ancestor = .ok answer := by
  rw [isSubtype]
  split
  · exact ⟨true, rfl⟩
  · rw [finished.linksFor_ok inside]
    exact ⟨_, rfl⟩

/-- The subtype test gives the answer of the climb. -/
theorem isSubtype_of_climb (finished : registry.Finished links) {id ancestor : TypeId}
    (inside : id < registry.types.length) {answer : Bool}
    (climb : registry.Climb ancestor id answer) :
    registry.isSubtype id ancestor = .ok answer := by
  obtain ⟨other, tested⟩ := finished.isSubtype_answers inside ancestor
  have same : other = true ↔ answer = true := by
    rw [climb.answer_iff, finished.hasBase_eq, ← Except.ok.injEq (ε := Fault), ← tested]
    exact finished.isSubtype_iff inside ancestor
  rw [tested, Bool.eq_iff_iff.mpr same]

end Finished

end Registry

/-- In a finished registry the subtype test has an answer for all types, which going up from
base to base ends in: the first type is a subtype of the second exactly if it reaches it by
any number of steps to a base. This is an order on the types, in which the types above a
given one form a chain.

Proof: no type of a finished registry is above itself, so a climb from base to base ends, and in one
answer, as a type has one base at most. The answer is yes exactly if the climb meets the other type,
that is, if steps to a base lead to it. Being reached by steps is reflexive and transitive, it is
antisymmetric without cycles, and of two types reached from a third one the first that is met leads
to the other. -/
theorem subtyping_is_inheritance_order (registry : Registry) (reachable : registry.Reachable)
    (isFinished : registry.isFinished = true) :
    (∀ id < registry.types.length, ∀ ancestor < registry.types.length, ∃ answer,
      registry.isSubtype id ancestor = .ok answer ∧ registry.Climb ancestor id answer ∧
      (answer = true ↔ ReflTransGen registry.HasBase id ancestor)) ∧
    (∀ id < registry.types.length, registry.isSubtype id id = .ok true) ∧
    (∀ low < registry.types.length, ∀ middle < registry.types.length,
      ∀ high < registry.types.length, registry.isSubtype low middle = .ok true →
      registry.isSubtype middle high = .ok true → registry.isSubtype low high = .ok true) ∧
    (∀ left < registry.types.length, ∀ right < registry.types.length,
      registry.isSubtype left right = .ok true → registry.isSubtype right left = .ok true →
      left = right) ∧
    ∀ low < registry.types.length, ∀ left < registry.types.length,
      ∀ right < registry.types.length, registry.isSubtype low left = .ok true →
      registry.isSubtype low right = .ok true →
      registry.isSubtype left right = .ok true ∨ registry.isSubtype right left = .ok true := by
  obtain ⟨links, finished⟩ := reachable.sound.finished isFinished
  have subtype_iff {id : TypeId} (inside : id < registry.types.length) (ancestor : TypeId) :=
    finished.isSubtype_iff inside ancestor
  refine ⟨?_, ?_, ?_, ?_, ?_⟩
  · intro id inside ancestor _
    obtain ⟨answer, climb⟩ := finished.climbs ancestor id inside
    exact ⟨answer, finished.isSubtype_of_climb inside climb, climb, climb.answer_iff⟩
  · intro id inside
    exact (subtype_iff inside id).mpr ReflTransGen.refl
  · intro low lowInside middle middleInside high _ first second
    rw [subtype_iff lowInside] at first ⊢
    rw [subtype_iff middleInside] at second
    exact first.trans second
  · intro left leftInside right rightInside first second
    rw [subtype_iff leftInside] at first
    rw [subtype_iff rightInside] at second
    exact Bases.below_antisymm finished.faithful.acyclic first second
  · intro low lowInside left leftInside right rightInside first second
    rw [subtype_iff lowInside] at first second
    rw [subtype_iff leftInside, subtype_iff rightInside]
    exact Bases.below_chain first second

/-- Finches and owls are birds, and a bird is an animal. The finch names a base that is
declared after it, and the bird gives the number of its base. -/
def birds : Registry :=
  .holding [
    { name := "Finch", base := some (.named "Bird") },
    { name := "Animal", isFinal := false },
    { name := "Bird", base := some (.numbered 1), isFinal := false },
    { name := "Owl", base := some (.named "Bird") }]
    (some {
      bases := [some 2, none, some 1, some 2]
      derived := [[], [2], [0, 3], []]
      targets := [[], [], [], []] })

/-- A finch is an animal, two steps up, and no owl, although both are birds. Of the two types
that it has in common with the owl, the bird is below the animal. -/
theorem subtyping_of_birds :
    (∃ answer, birds.isSubtype 0 1 = .ok answer ∧ birds.Climb 1 0 answer ∧
      (answer = true ↔ ReflTransGen birds.HasBase 0 1)) ∧
    birds.isSubtype 0 1 = .ok true ∧ birds.isSubtype 0 3 = .ok false ∧
    ¬ ReflTransGen birds.HasBase 0 3 ∧
    (birds.isSubtype 2 1 = .ok true ∨ birds.isSubtype 1 2 = .ok true) := by
  have made : Registry.ofList birds.types = .ok birds :=
    Registry.ofList_of_linkedBy (by decide +kernel)
  obtain ⟨answers, _, transitive, _, chain⟩ :=
    subtyping_is_inheritance_order birds (Registry.ofList_reachable made) rfl
  have up : birds.isSubtype 0 2 = .ok true := by rfl
  have further : birds.isSubtype 2 1 = .ok true := by rfl
  have whole : birds.isSubtype 0 1 = .ok true :=
    transitive 0 (by decide) 2 (by decide) 1 (by decide) up further
  have apart : birds.isSubtype 0 3 = .ok false := by rfl
  obtain ⟨answer, tested, _, reached⟩ := answers 0 (by decide) 3 (by decide)
  rw [apart, Except.ok.injEq] at tested
  refine ⟨answers 0 (by decide) 1 (by decide), whole, apart, ?_,
    chain 0 (by decide) 2 (by decide) 1 (by decide) up whole⟩
  rw [← reached, ← tested]
  exact Bool.false_ne_true

end Taxonomy
