import Taxonomy.Member

/-!
# Lineages

Every type has at most one base, so the types above it form a chain. If there are
`n` types, a chain of more than `n` types meets one of them twice and never ends.

Whether some chain never ends is found by following the chains from each type in
turn and marking the types that are met. A chain that comes to a type from which
an earlier one was followed to its end is not followed any further.
-/
namespace Taxonomy

/-- The base of each type, by the number of the type. -/
abbrev Bases := List (Option TypeId)

namespace Bases

/-- The base of a type. -/
def base? (bases : Bases) (id : TypeId) : Option TypeId :=
  bases[id]?.join

/-- The first `length` types on the way up from a type, itself included. -/
def lineage (bases : Bases) : (length : Nat) → TypeId → List TypeId
  | 0, _ => []
  | length + 1, id =>
    id ::
      match bases.base? id with
      | none => []
      | some base => lineage bases length base

/-- The types from a type up to the one without a base. -/
def ancestors (bases : Bases) (id : TypeId) : List TypeId :=
  bases.lineage bases.length id

/-- What is known of a type while chains are followed. -/
inductive Mark where
  /-- No chain has come to the type. -/
  | unmet
  /-- The chain that is being followed has come to the type. -/
  | onChain
  /-- The way up from the type ends. -/
  | ends
deriving DecidableEq, Repr

/-- The marks once the way up from each type of a chain is known to end. -/
def settle (marks : List Mark) (chain : List TypeId) : List Mark :=
  chain.foldl (fun marks id => marks.set id .ends) marks

/-- A type that is marked for the first time is one less to be met. -/
theorem count_unmet_set {marks : List Mark} {id : TypeId} (unmet : marks[id]? = some .unmet) :
    (marks.set id .onChain).count .unmet < marks.count .unmet := by
  obtain ⟨inside, entry⟩ := List.getElem?_eq_some_iff.mp unmet
  have positive : 0 < marks.count .unmet :=
    List.count_pos_iff.mpr (entry ▸ List.getElem_mem inside)
  have replaced : (marks.set id .onChain).count .unmet = marks.count .unmet - 1 := by
    simp [List.count_set inside, entry]
  omega

/-- Follows the way up from a type behind the chain that led to it, the latest
type first. It fails with the first type that it meets twice, and otherwise gives
the marks for the following chains. -/
def follow (bases : Bases) (marks : List Mark) (chain : List TypeId) (id : TypeId) :
    Except TypeId (List Mark) :=
  match mark : marks[id]? with
  | some .onChain => .error id
  | some .unmet =>
    have := count_unmet_set mark
    match bases.base? id with
    | none => .ok (settle (marks.set id .onChain) (id :: chain))
    | some base => follow bases (marks.set id .onChain) (id :: chain) base
  | some .ends | none => .ok (settle marks chain)
termination_by marks.count .unmet

/-- Follows the way up from each of the given types in turn. -/
def followAll (bases : Bases) (marks : List Mark) : List TypeId → Except TypeId (List Mark)
  | [] => .ok marks
  | start :: starts => do
    let next ← bases.follow marks [] start
    bases.followAll next starts

/-- The first type that is found to be above itself, looking from each type in
turn. -/
def cycle? (bases : Bases) : Option TypeId :=
  match bases.followAll (List.replicate bases.length .unmet) (List.range bases.length) with
  | .error id => some id
  | .ok _ => none

end Bases

end Taxonomy
