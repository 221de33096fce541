import Mathlib.Data.List.Perm.Subperm
import Mathlib.Logic.Relation
import Taxonomy.Registry.Lineage

/-!
# Going up from a type

One step leads from a type to its base. A type lies below every type that it
reaches by any number of steps, itself included. Where every base is again in the
table and no type reaches itself by one or more steps, the bounded lineage of a
type is the whole way up: it lists exactly the types above it, each once.

The bound on the length of a lineage is the number of types. That it is never
reached too early rests on counting: a way up without repetition cannot be longer
than the table.
-/
namespace Taxonomy.Bases

open Relation

/-- One step up, from a type to its base. -/
def Step (bases : Bases) (id base : TypeId) : Prop :=
  bases.base? id = some base

/-- The first type is the second one, or reaches it by steps up. -/
def Below (bases : Bases) (id ancestor : TypeId) : Prop :=
  ReflTransGen bases.Step id ancestor

/-- No type reaches itself by one or more steps up. -/
def Acyclic (bases : Bases) : Prop :=
  ∀ id, ¬ TransGen bases.Step id id

/-- Every base is the number of a type of the table. -/
def Bounded (bases : Bases) : Prop :=
  ∀ id base, bases.Step id base → base < bases.length

variable {bases : Bases}

/-- A type has at most one base. -/
theorem step_unique {id left right : TypeId} (first : bases.Step id left)
    (second : bases.Step id right) : left = right :=
  Option.some.inj (first.symm.trans second)

/-- Only a type of the table has a base. -/
theorem step_inside {id base : TypeId} (step : bases.Step id base) : id < bases.length := by
  by_contra outside
  simp [Step, base?, List.getElem?_eq_none (Nat.le_of_not_lt outside)] at step

/-- What lies above a type of the table is in the table. -/
theorem below_inside (bounded : bases.Bounded) {id ancestor : TypeId}
    (inside : id < bases.length) (below : bases.Below id ancestor) :
    ancestor < bases.length := by
  induction below with
  | refl => exact inside
  | tail _ step _ => exact bounded _ _ step

/-- The types above one type form a chain: of two of them, one is below the
other. Where the two ways up part, a type would have two bases. -/
theorem below_chain {id left right : TypeId} (first : bases.Below id left)
    (second : bases.Below id right) : bases.Below left right ∨ bases.Below right left := by
  induction first using ReflTransGen.head_induction_on with
  | refl => exact Or.inl second
  | head step rest inductionHypothesis =>
    rcases ReflTransGen.cases_head second with same | ⟨next, other, remaining⟩
    · exact Or.inr (same ▸ ReflTransGen.head step rest)
    · exact inductionHypothesis (step_unique other step ▸ remaining)

/-- Without cycles no two types lie below each other. -/
theorem below_antisymm (acyclic : bases.Acyclic) {left right : TypeId}
    (first : bases.Below left right) (second : bases.Below right left) : left = right := by
  rcases ReflTransGen.cases_head first with same | ⟨base, step, rest⟩
  · exact same
  · exact absurd (TransGen.head' step (rest.trans second)) (acyclic left)

/-- A type other than the given ancestor lies below it exactly if its base does. -/
theorem below_of_step {id base ancestor : TypeId} (step : bases.Step id base) :
    bases.Below id ancestor ↔ id = ancestor ∨ bases.Below base ancestor := by
  constructor
  · intro below
    rcases ReflTransGen.cases_head below with same | ⟨next, other, remaining⟩
    · exact Or.inl same
    · exact Or.inr (step_unique other step ▸ remaining)
  · rintro (rfl | below)
    · exact ReflTransGen.refl
    · exact ReflTransGen.head step below

/-- Types derived from one type directly have nothing below them in common. -/
theorem siblings_disjoint (acyclic : bases.Acyclic) {base left right id : TypeId}
    (first : bases.Step left base) (second : bases.Step right base)
    (underLeft : bases.Below id left) (underRight : bases.Below id right) : left = right := by
  -- If one sibling were above the other, their base would be above itself.
  have never {low high : TypeId} (lower : bases.Step low base) (higher : bases.Step high base)
      (below : bases.Below low high) : low = high := by
    rcases (below_of_step lower).mp below with same | returns
    · exact same
    · exact absurd (TransGen.tail' returns higher) (acyclic base)
  rcases below_chain underLeft underRight with below | below
  · exact never first second below
  · exact (never second first below).symm

/-- A lineage leads up step by step. -/
theorem lineage_below (length : Nat) (id ancestor : TypeId)
    (member : ancestor ∈ bases.lineage length id) : bases.Below id ancestor := by
  induction length generalizing id with
  | zero => simp [lineage] at member
  | succ length inductionHypothesis =>
    rw [lineage, List.mem_cons] at member
    rcases member with rfl | member
    · exact ReflTransGen.refl
    · cases found : bases.base? id with
      | none => simp [found] at member
      | some base =>
        rw [found] at member
        exact ReflTransGen.head found (inductionHypothesis base member)

/-- Without cycles no type stands twice in a lineage. -/
theorem lineage_nodup (acyclic : bases.Acyclic) (length : Nat) (id : TypeId) :
    (bases.lineage length id).Nodup := by
  induction length generalizing id with
  | zero => exact List.nodup_nil
  | succ length inductionHypothesis =>
    rw [lineage, List.nodup_cons]
    cases found : bases.base? id with
    | none => simp
    | some base =>
      refine ⟨fun member => acyclic id ?_, inductionHypothesis base⟩
      exact TransGen.head' found (lineage_below length base id member)

/-- A list of different types of the table is not longer than the table. -/
theorem nodup_length_le {ids : List TypeId} (distinct : ids.Nodup)
    (inside : ∀ id ∈ ids, id < bases.length) : ids.length ≤ bases.length := by
  have covered : ids ⊆ List.range bases.length := by
    intro id member
    exact List.mem_range.mpr (inside id member)
  simpa using (distinct.subperm covered).length_le

/-- Without cycles every lineage stays within the number of types, whatever
length was asked for. -/
theorem lineage_length_le (acyclic : bases.Acyclic) (bounded : bases.Bounded) (length : Nat)
    (id : TypeId) (inside : id < bases.length) :
    (bases.lineage length id).length ≤ bases.length := by
  apply nodup_length_le (lineage_nodup acyclic length id)
  intro ancestor member
  exact below_inside bounded inside (lineage_below length id ancestor member)

/-- A lineage that is shorter than was asked for is the same for every smaller
length that it fits into. -/
theorem lineage_saturated (length : Nat) (id : TypeId)
    (short : (bases.lineage (length + 1) id).length ≤ length) :
    bases.lineage (length + 1) id = bases.lineage length id := by
  induction length generalizing id with
  | zero => simp [lineage] at short
  | succ length inductionHypothesis =>
    rw [lineage, lineage]
    rw [lineage] at short
    cases found : bases.base? id with
    | none => rfl
    | some base =>
      simp only [found, List.length_cons, Nat.add_le_add_iff_right] at short
      simp only [inductionHypothesis base short]

/-- The way up from a type without a base is the type itself. -/
theorem ancestors_top {id : TypeId} (inside : id < bases.length) (top : bases.base? id = none) :
    bases.ancestors id = [id] := by
  obtain ⟨length, size⟩ := Nat.exists_eq_succ_of_ne_zero (Nat.ne_zero_of_lt inside)
  simp [ancestors, size, lineage, top]

/-- The way up from a type of the table begins with the type. -/
theorem ancestors_positive {id : TypeId} (inside : id < bases.length) :
    0 < (bases.ancestors id).length := by
  obtain ⟨length, size⟩ := Nat.exists_eq_succ_of_ne_zero (Nat.ne_zero_of_lt inside)
  rw [ancestors, size, lineage, List.length_cons]
  exact Nat.succ_pos _

/-- The way up from a type with a base goes on as the way up from the base. -/
theorem ancestors_step (acyclic : bases.Acyclic) (bounded : bases.Bounded) {id base : TypeId}
    (step : bases.Step id base) : bases.ancestors id = id :: bases.ancestors base := by
  have inside : id < bases.length := step_inside step
  obtain ⟨length, size⟩ := Nat.exists_eq_succ_of_ne_zero (Nat.ne_zero_of_lt inside)
  have unfold (bound : Nat) : bases.lineage (bound + 1) id = id :: bases.lineage bound base := by
    have found : bases.base? id = some base := step
    simp only [lineage, found]
  -- One more round would add a type above `id`, which counting rules out.
  have short : (bases.lineage (length + 1) base).length ≤ length := by
    have bound := lineage_length_le acyclic bounded (length + 1 + 1) id inside
    rw [unfold, List.length_cons, size] at bound
    omega
  rw [ancestors, ancestors, size, unfold, ← lineage_saturated length base short]

/-- The way up lists exactly the types above, the type itself included. -/
theorem mem_ancestors_iff (acyclic : bases.Acyclic) (bounded : bases.Bounded) {id : TypeId}
    (inside : id < bases.length) (ancestor : TypeId) :
    ancestor ∈ bases.ancestors id ↔ bases.Below id ancestor := by
  constructor
  · exact lineage_below bases.length id ancestor
  · intro below
    induction below using ReflTransGen.head_induction_on with
    | refl =>
      cases found : bases.base? ancestor with
      | none => simp [ancestors_top inside found]
      | some base => simp [ancestors_step acyclic bounded found]
    | head step rest inductionHypothesis =>
      rw [ancestors_step acyclic bounded step]
      exact List.mem_cons_of_mem _ (inductionHypothesis (bounded _ _ step))

end Taxonomy.Bases
