import Taxonomy.Proofs.Lineage
import Taxonomy.Proofs.Outcome
import Taxonomy.Proofs.SymbolHistory
import Taxonomy.Registry

/-!
# The search for a cycle

Chains are followed from each type in turn, and the marks are kept from one chain to the
next. While a chain is followed, exactly its own types are marked as being on it, and each
of them leads up to the type that comes next. A type is marked as one whose way up ends only
if this is so. A chain that meets a type of its own has therefore come back to it, whatever
led into the circle, and a chain that meets a type of an earlier one ends.

A chain that has been followed to its end leaves no type marked as being on it, so nothing
that was met on the way to another start is mistaken for a part of the next chain. Once every
type has been a start without a type being met twice, every way up ends and no type is above
itself.
-/
namespace Taxonomy

open Relation

namespace Bases

/-- The way up from the type comes to one without a base. -/
def Ends (bases : Bases) (id : TypeId) : Prop :=
  ∃ top, bases.Below id top ∧ bases.base? top = none

/-- The marks while a chain is followed: the types on the chain are marked so, and where an
end is marked there is one. -/
structure Marked (bases : Bases) (marks : List Mark) (chain : List TypeId) : Prop where
  sizes : marks.length = bases.length
  onChain : ∀ id : TypeId, marks[id]? = some .onChain ↔ id ∈ chain
  ends : ∀ id : TypeId, marks[id]? = some .ends → bases.Ends id

/-- The types from which the way up ends are marked, those of the list among them and those
that were marked before. -/
structure Settled (bases : Bases) (before : List Mark) (ids : List TypeId)
    (after : List Mark) : Prop where
  marked : bases.Marked after []
  listed : ∀ id ∈ ids, id < bases.length → after[id]? = some .ends
  kept : ∀ id : TypeId, before[id]? = some .ends → after[id]? = some .ends

variable {bases : Bases} {marks : List Mark} {chain : List TypeId} {id : TypeId}

/-- The way up ends if it ends from a type that it comes to. -/
theorem Ends.of_below {ancestor : TypeId} (ends : bases.Ends ancestor)
    (below : bases.Below id ancestor) : bases.Ends id := by
  obtain ⟨top, above, isTop⟩ := ends
  exact ⟨top, below.trans above, isTop⟩

/-- What lies above a type that is above itself is above itself too. -/
theorem returns_above {ancestor : TypeId} (returns : TransGen bases.Step id id)
    (below : bases.Below id ancestor) : TransGen bases.Step ancestor ancestor := by
  induction below with
  | refl => exact returns
  | tail _ step inductionHypothesis =>
    obtain ⟨base, other, rest⟩ := TransGen.head'_iff.mp inductionHypothesis
    obtain rfl := step_unique step other
    exact TransGen.tail' rest step

/-- A type from which the way up ends is not above itself, since every type that it comes to
would have a base. -/
theorem Ends.not_returns (ends : bases.Ends id) : ¬ TransGen bases.Step id id := by
  obtain ⟨top, above, isTop⟩ := ends
  intro returns
  obtain ⟨base, step, _⟩ := TransGen.head'_iff.mp (returns_above returns above)
  rw [Step, isTop] at step
  cases step

/-- Settling a chain changes the marks of its types and no other ones. -/
theorem settle_at (marks : List Mark) (chain : List TypeId) (id : TypeId) :
    (settle marks chain)[id]? =
      if id ∈ chain then marks[id]?.map fun _ => .ends else marks[id]? := by
  induction chain generalizing marks with
  | nil => simp [settle]
  | cons first chain inductionHypothesis =>
    rw [settle, List.foldl_cons, ← settle, inductionHypothesis, List.getElem?_set]
    grind

/-- Settling a chain leaves as many marks as there were. -/
theorem settle_length (marks : List Mark) (chain : List TypeId) :
    (settle marks chain).length = marks.length := by
  induction chain generalizing marks with
  | nil => rfl
  | cons first chain inductionHypothesis =>
    rw [settle, List.foldl_cons, ← settle, inductionHypothesis, List.length_set]

namespace Marked

/-- A type that was not met before joins the chain. -/
theorem join (marked : bases.Marked marks chain) (unmet : marks[id]? = some .unmet) :
    bases.Marked (marks.set id .onChain) (id :: chain) := by
  obtain ⟨inside, _⟩ := List.getElem?_eq_some_iff.mp unmet
  refine ⟨by rw [List.length_set, marked.sizes], fun other => ?_, fun other => ?_⟩
  · rw [List.getElem?_set, List.mem_cons, ← marked.onChain]
    grind
  · rw [List.getElem?_set]
    have ends := marked.ends other
    grind

/-- A chain that comes to a type from which the way up ends can be settled. -/
theorem settled (marked : bases.Marked marks chain)
    (leads : ∀ lower ∈ chain, bases.Below lower id) (ends : bases.Ends id) :
    bases.Settled marks chain (settle marks chain) := by
  refine ⟨⟨?_, fun other => ?_, fun other => ?_⟩, fun other => ?_, fun other => ?_⟩
  · rw [settle_length, marked.sizes]
  · rw [settle_at]
    have onChain := marked.onChain other
    grind
  · rw [settle_at]
    have otherEnds := marked.ends other
    have lowerEnds (member : other ∈ chain) : bases.Ends other := ends.of_below (leads other member)
    grind
  · intro member inside
    rw [settle_at, if_pos member, (marked.onChain other).mpr member]
    rfl
  · intro wasEnd
    rw [settle_at]
    grind

end Marked

namespace Settled

variable {next : List Mark} {ids : List TypeId}

/-- One more type is among those from which the way up ends if it is marked so. -/
theorem cons (settled : bases.Settled marks ids next)
    (ended : id < bases.length → next[id]? = some .ends) :
    bases.Settled marks (id :: ids) next :=
  ⟨settled.marked, List.forall_mem_cons.mpr ⟨ended, settled.listed⟩, settled.kept⟩

/-- What was marked as an end before a type joined the chain still is. -/
theorem of_join (settled : bases.Settled (marks.set id .onChain) ids next)
    (unmet : marks[id]? = some .unmet) : bases.Settled marks ids next := by
  refine ⟨settled.marked, settled.listed, fun other wasEnd => settled.kept other ?_⟩
  have apart : id ≠ other := by
    rintro rfl
    simp [unmet] at wasEnd
  rw [List.getElem?_set_ne apart, wasEnd]

end Settled

/-- A chain that leads up to a type leads from this type on to its base. -/
theorem leads_on {base : TypeId} (leads : ∀ lower ∈ chain, TransGen bases.Step lower id)
    (step : bases.Step id base) : ∀ lower ∈ id :: chain, TransGen bases.Step lower base := by
  rintro lower (_ | ⟨_, member⟩)
  · exact TransGen.single step
  · exact (leads lower member).tail step

/-- A chain that is followed without meeting one of its own types ends, and so do the ways up
from all its types. -/
theorem follow_ok (marked : bases.Marked marks chain)
    (leads : ∀ lower ∈ chain, TransGen bases.Step lower id) {next : List Mark}
    (followed : bases.follow marks chain id = .ok next) :
    bases.Settled marks (id :: chain) next := by
  fun_induction follow bases marks chain id with
  | case1 marks chain id onChain => cases followed
  | case2 marks chain id unmet _ top =>
    obtain rfl := Except.ok.inj followed
    have leadsHere : ∀ lower ∈ id :: chain, bases.Below lower id := by
      rintro lower (_ | ⟨_, member⟩)
      · exact ReflTransGen.refl
      · exact (leads lower member).to_reflTransGen
    exact ((marked.join unmet).settled leadsHere ⟨id, ReflTransGen.refl, top⟩).of_join unmet
  | case3 marks chain id unmet _ base step inductionHypothesis =>
    have rest := inductionHypothesis (marked.join unmet) (leads_on leads step) followed
    have listed := (List.forall_mem_cons.mp rest.listed).2
    exact Settled.of_join ⟨rest.marked, listed, rest.kept⟩ unmet
  | case4 marks chain id ended =>
    obtain rfl := Except.ok.inj followed
    have settled := marked.settled (fun lower member => (leads lower member).to_reflTransGen)
      (marked.ends id ended)
    exact settled.cons fun _ => settled.kept id ended
  | case5 marks chain id outside =>
    obtain rfl := Except.ok.inj followed
    rw [List.getElem?_eq_none_iff, marked.sizes] at outside
    have top : bases.base? id = none := by
      rw [base?, List.getElem?_eq_none outside, Option.join_none]
    have settled := marked.settled (fun lower member => (leads lower member).to_reflTransGen)
      ⟨id, ReflTransGen.refl, top⟩
    exact settled.cons fun inside => absurd inside (Nat.not_lt.mpr outside)

/-- A chain that meets one of its own types has come back to it. -/
theorem follow_error (marked : bases.Marked marks chain)
    (leads : ∀ lower ∈ chain, TransGen bases.Step lower id) {met : TypeId}
    (failed : bases.follow marks chain id = .error met) : TransGen bases.Step met met := by
  fun_induction follow bases marks chain id with
  | case1 marks chain id onChain =>
    obtain rfl := Except.error.inj failed
    exact leads id ((marked.onChain id).mp onChain)
  | case2 => cases failed
  | case3 marks chain id unmet _ base step inductionHypothesis =>
    exact inductionHypothesis (marked.join unmet) (leads_on leads step) failed
  | case4 => cases failed
  | case5 => cases failed

/-- Chains that are followed one after the other without meeting a type twice end, and so do
the ways up from where they started. -/
theorem followAll_ok {starts : List TypeId} {next : List Mark} (marked : bases.Marked marks [])
    (followed : bases.followAll marks starts = .ok next) : bases.Settled marks starts next := by
  induction starts generalizing marks with
  | nil =>
    obtain rfl := Except.ok.inj followed
    exact ⟨marked, by simp, fun _ ended => ended⟩
  | cons start starts inductionHypothesis =>
    rw [followAll, Outcome.bind_ok_iff] at followed
    obtain ⟨reached, first, others⟩ := followed
    have settled := follow_ok marked (by simp) first
    have rest := inductionHypothesis settled.marked others
    refine ⟨rest.marked, List.forall_mem_cons.mpr ⟨?_, rest.listed⟩, fun id ended => ?_⟩
    · exact fun inside => rest.kept start (settled.listed start List.mem_cons_self inside)
    · exact rest.kept id (settled.kept id ended)

/-- If one of several chains meets a type twice, this type is above itself. The marks that
earlier chains have left do not count as met. -/
theorem followAll_error {starts : List TypeId} {met : TypeId} (marked : bases.Marked marks [])
    (failed : bases.followAll marks starts = .error met) : TransGen bases.Step met met := by
  induction starts generalizing marks with
  | nil => cases failed
  | cons start starts inductionHypothesis =>
    rw [followAll, Outcome.bind_error_iff] at failed
    rcases failed with failed | ⟨reached, first, later⟩
    · exact follow_error marked (by simp) failed
    · exact inductionHypothesis (follow_ok marked (by simp) first).marked later

/-- At the start no type is marked. -/
theorem marked_unmet (bases : Bases) :
    bases.Marked (List.replicate bases.length .unmet) [] := by
  refine ⟨List.length_replicate, fun id => ?_, fun id => ?_⟩
  · simp [List.getElem?_replicate]
  · simp [List.getElem?_replicate]

/-- The type that the search finds reaches itself. A type that only leads into a
cycle is met once. -/
theorem cycle?_returns (found : bases.cycle? = some id) : TransGen bases.Step id id := by
  rw [cycle?] at found
  split at found
  · next met failed =>
    obtain rfl := Option.some.inj found
    exact followAll_error bases.marked_unmet failed
  · cases found

/-- If the search finds nothing, every way up ends. -/
theorem cycle?_ends (nothing : bases.cycle? = none) (inside : id < bases.length) :
    bases.Ends id := by
  rw [cycle?] at nothing
  split at nothing
  · cases nothing
  · next last followed =>
    have settled := followAll_ok bases.marked_unmet followed
    exact settled.marked.ends id (settled.listed id (List.mem_range.mpr inside) inside)

/-- The search for a type above itself finds nothing exactly if there is none. -/
theorem cycle?_none_iff (bases : Bases) : bases.cycle? = none ↔ bases.Acyclic := by
  constructor
  · intro nothing id returns
    obtain ⟨base, step, _⟩ := TransGen.head'_iff.mp returns
    exact (cycle?_ends nothing (step_inside step)).not_returns returns
  · intro acyclic
    cases found : bases.cycle? with
    | none => rfl
    | some id => exact absurd (cycle?_returns found) (acyclic id)

/-- The type that the search finds is in the table. -/
theorem cycle?_inside (found : bases.cycle? = some id) : id < bases.length := by
  obtain ⟨base, step, _⟩ := TransGen.head'_iff.mp (cycle?_returns found)
  exact step_inside step

/-- Every base is a type of the table exactly if each entry is. -/
theorem bounded_iff (bases : Bases) :
    bases.Bounded ↔ ∀ entry ∈ bases, ∀ base ∈ entry, base < bases.length := by
  constructor
  · rintro bounded entry member base rfl
    obtain ⟨id, found⟩ := List.mem_iff_getElem?.mp member
    exact bounded id base (Option.join_eq_some_iff.mpr found)
  · intro inside id base step
    exact inside (some base) (List.mem_of_getElem? (Option.join_eq_some_iff.mp step)) base rfl

instance (bases : Bases) : Decidable bases.Bounded :=
  decidable_of_iff _ bases.bounded_iff.symm

/-- The type that so many steps up lead to. -/
def above? (bases : Bases) : (steps : Nat) → TypeId → Option TypeId
  | 0, id => some id
  | steps + 1, id => (bases.base? id).bind (above? bases steps)

/-- Without cycles the last type of the way up has no base, and one step leads from each type
of the way to the next. -/
theorem exists_top (acyclic : bases.Acyclic) (bounded : bases.Bounded)
    (inside : id < bases.length) :
    ∃ steps top, steps + 1 = (bases.ancestors id).length ∧ bases.above? steps id = some top ∧
      bases.base? top = none := by
  -- The induction is on the length of the way up, which is shorter by one for the base.
  induction size : (bases.ancestors id).length generalizing id with
  | zero => exact absurd (ancestors_positive inside) (by omega)
  | succ length inductionHypothesis =>
    cases found : bases.base? id with
    | none =>
      rw [ancestors_top inside found, List.length_singleton] at size
      exact ⟨0, id, size, rfl, found⟩
    | some base =>
      rw [ancestors_step acyclic bounded found, List.length_cons] at size
      obtain ⟨steps, top, count, reached, isTop⟩ :=
        inductionHypothesis (bounded id base found) (Nat.succ.inj size)
      refine ⟨steps + 1, top, by rw [count], ?_, isTop⟩
      rw [above?, found, Option.bind_some, reached]

end Bases

namespace Registry

variable {registry : Registry} {bases : Bases}

/-- The fault names the type that the search finds. -/
theorem inheritanceCycle?_some_iff (registry : Registry) (bases : Bases) (fault : Fault) :
    registry.inheritanceCycle? bases = some fault ↔
      ∃ id type, bases.cycle? = some id ∧ registry.types[id]? = some type ∧
        fault = .inheritanceCycle type.name := by
  simp only [inheritanceCycle?, Option.bind_eq_bind, Option.bind_eq_some_iff, Option.pure_def,
    Option.some.injEq, type?]
  constructor
  · rintro ⟨id, found, type, there, rfl⟩
    exact ⟨id, type, found, there, rfl⟩
  · rintro ⟨id, type, found, there, rfl⟩
    exact ⟨id, found, type, there, rfl⟩

/-- The check for cycles passes exactly if no type is above itself. A type that
the search finds is declared, so no cycle goes unreported. -/
theorem inheritanceCycle?_none_iff (named : bases.length ≤ registry.types.length) :
    registry.inheritanceCycle? bases = none ↔ bases.Acyclic := by
  rw [← Bases.cycle?_none_iff]
  cases found : bases.cycle? with
  | none => simp [inheritanceCycle?, found]
  | some id =>
    have inside : id < registry.types.length := Nat.lt_of_lt_of_le (Bases.cycle?_inside found) named
    simp [inheritanceCycle?, found, type?, List.getElem?_eq_getElem inside]

end Registry

/-- For every table of bases that are types of the table, each with a name, the check for
cycles fails exactly if some type reaches itself by one or more steps up. The type that it
names is such a type, and does not merely lead to one. If the check passes, the way up from
every type comes to a type without a base, after fewer steps than there are types.

Proof: while a chain is followed, the types on it lead up to the next one, and a type marked as
settled is one from which the way up ends. A chain that meets a type of its own has thus come back
to it. If no chain does, all types are settled in the end; and a type from which the way up ends is
not above itself, since what lies above a type on a circle is on it as well. Without a circle the
way up has no type twice, which bounds its length. -/
theorem cycle_check_decides (registry : Registry) (bases : Bases)
    (named : bases.length ≤ registry.types.length) (bounded : bases.Bounded) :
    ((∃ fault, registry.inheritanceCycle? bases = some fault) ↔
      ∃ id < bases.length, TransGen bases.Step id id) ∧
    (∀ fault, registry.inheritanceCycle? bases = some fault →
      ∃ id type, registry.types[id]? = some type ∧ fault = .inheritanceCycle type.name ∧
        TransGen bases.Step id id) ∧
    (registry.inheritanceCycle? bases = none → ∀ id < bases.length,
      ∃ steps ≤ bases.length - 1, ∃ top, bases.above? steps id = some top ∧
        bases.base? top = none) := by
  refine ⟨?_, ?_, ?_⟩
  · rw [← Option.isSome_iff_exists, ← not_iff_not, Bool.not_eq_true,
      Option.isSome_eq_false_iff, Option.isNone_iff_eq_none,
      Registry.inheritanceCycle?_none_iff named]
    constructor
    · rintro acyclic ⟨id, _, returns⟩
      exact acyclic id returns
    · intro nowhere id returns
      obtain ⟨base, step, _⟩ := TransGen.head'_iff.mp returns
      exact nowhere ⟨id, Bases.step_inside step, returns⟩
  · intro fault failed
    obtain ⟨id, type, found, there, rfl⟩ :=
      (registry.inheritanceCycle?_some_iff bases fault).mp failed
    exact ⟨id, type, there, rfl, Bases.cycle?_returns found⟩
  · intro passed id inside
    have acyclic := (Registry.inheritanceCycle?_none_iff named).mp passed
    obtain ⟨steps, top, count, reached, isTop⟩ := Bases.exists_top acyclic bounded inside
    have bound := Bases.lineage_length_le acyclic bounded bases.length id inside
    rw [← Bases.ancestors, ← count] at bound
    exact ⟨steps, by omega, top, reached, isTop⟩

/-- A registry of four types, for tables of as many bases. -/
def barnyard : Registry where
  names := .internAll {} ["Feather", "Hen", "Egg", "Straw"]
  types := [{ name := "Feather" }, { name := "Hen" }, { name := "Egg" }, { name := "Straw" }]

/-- The feather leads to the hen, which is above itself by way of the egg: the hen is named, not
the feather. If the egg lies in the straw instead, every way up ends after at most three steps,
also that of the hen, on which the chain of the feather has been before. -/
theorem cycle_check_of_barnyard :
    (barnyard.inheritanceCycle? [some 1, some 2, some 1, none] = some (.inheritanceCycle "Hen") ∧
      ∃ id < 4, TransGen (Bases.Step [some 1, some 2, some 1, none]) id id) ∧
    ∃ steps ≤ 3, ∃ top, Bases.above? [some 1, some 2, some 3, none] steps 1 = some top ∧
      Bases.base? [some 1, some 2, some 3, none] top = none := by
  have circle := cycle_check_decides barnyard [some 1, some 2, some 1, none] (by decide) (by decide)
  have line := cycle_check_decides barnyard [some 1, some 2, some 3, none] (by decide) (by decide)
  have named : barnyard.inheritanceCycle? [some 1, some 2, some 1, none] =
      some (.inheritanceCycle "Hen") := by decide +kernel
  have passed : barnyard.inheritanceCycle? [some 1, some 2, some 3, none] = none := by
    decide +kernel
  exact ⟨⟨named, circle.1.mp ⟨_, named⟩⟩, line.2.2 passed 1 (by decide)⟩

end Taxonomy
