import Taxonomy.Proofs.CycleSearch
import Taxonomy.Proofs.Ordering

/-!
# What references mean

A reference means the declared type of its name or its number. The declarations
alone say which type derives from which; no registry is needed for that. Linking a
registry finds these meanings: it succeeds exactly if every reference means a
type, no type derives from a final one and no type is above itself, and then its
table of bases is the relation that the declarations spell out.

Everything here asks that the symbol table of the registry is in step with its
declarations: it lists their names in their order. A symbol table lists no text
twice, so no two types then share a name, and a name leads to the number of the type
that is declared under it. That the two stay in step is what registration provides.
-/
namespace Taxonomy

open Relation

/-- The reference means the type of the given number among the declared ones. -/
def TypeRef.Means (types : List TypeDef) (ref : TypeRef) (id : TypeId) : Prop :=
  match ref with
  | .named name => ∃ type, types[id]? = some type ∧ type.name = name
  | .numbered number => id = number ∧ number < types.length

/-- The first type is declared with a base that means the second one. -/
def Derives (types : List TypeDef) (id base : TypeId) : Prop :=
  ∃ type ref, types[id]? = some type ∧ type.base = some ref ∧ ref.Means types base

/-- What an optional reference is resolved to: nothing, or the type it means. -/
def Resolved (types : List TypeDef) : Option TypeRef → Option TypeId → Prop
  | none, found => found = none
  | some ref, found => ∃ id, found = some id ∧ ref.Means types id

/-- The symbol table lists the names of the declared types in their order. -/
def Registry.InStep (registry : Registry) : Prop :=
  registry.names.texts = registry.types.map TypeDef.name

instance (registry : Registry) : Decidable registry.InStep :=
  inferInstanceAs (Decidable (_ = _))

/-- The first type comes before the second in the order of their names. -/
def Registry.Before (registry : Registry) (left right : TypeId) : Prop :=
  ∃ first second, registry.name? left = some first ∧ registry.name? right = some second ∧
    first < second

instance (registry : Registry) (left right : TypeId) : Decidable (registry.Before left right) :=
  decidable_of_iff ((registry.name? left).any fun first =>
      (registry.name? right).any fun second => first < second) (by
    simp only [Option.any_eq_true, decide_eq_true_eq, Registry.Before]
    constructor
    · rintro ⟨first, leftName, second, rightName, less⟩
      exact ⟨first, second, leftName, rightName, less⟩
    · rintro ⟨first, second, leftName, rightName, less⟩
      exact ⟨first, leftName, second, rightName, less⟩)

/-- Of two types at most one comes before the other. -/
theorem Registry.before_asymm (registry : Registry) (left right : TypeId)
    (forward : registry.Before left right) : ¬ registry.Before right left := by
  obtain ⟨first, second, leftName, rightName, less⟩ := forward
  rintro ⟨third, fourth, sameRight, sameLeft, greater⟩
  obtain rfl : second = third := Option.some.inj (rightName.symm.trans sameRight)
  obtain rfl : first = fourth := Option.some.inj (leftName.symm.trans sameLeft)
  exact String.lt_irrefl first (String.lt_trans less greater)

/-- Where no two types share a name, the name fixes the type. -/
theorem name_unique {types : List TypeDef} (distinct : (types.map TypeDef.name).Nodup)
    {left right : TypeId} {first second : TypeDef} (atLeft : types[left]? = some first)
    (atRight : types[right]? = some second) (same : first.name = second.name) : left = right := by
  obtain ⟨inside, _⟩ := List.getElem?_eq_some_iff.mp atLeft
  apply (List.getElem?_inj (by simpa using inside) distinct).mp
  simp [atLeft, atRight, same]

/-- A reference means at most one type. -/
theorem TypeRef.means_unique {types : List TypeDef} (distinct : (types.map TypeDef.name).Nodup)
    {ref : TypeRef} {left right : TypeId} (first : ref.Means types left)
    (second : ref.Means types right) : left = right := by
  cases ref with
  | named name =>
    obtain ⟨leftType, atLeft, leftName⟩ := first
    obtain ⟨rightType, atRight, rightName⟩ := second
    exact name_unique distinct atLeft atRight (leftName.trans rightName.symm)
  | numbered number => exact first.1.trans second.1.symm

/-- A reference means a declared type. -/
theorem TypeRef.means_inside {types : List TypeDef} {ref : TypeRef} {id : TypeId}
    (means : ref.Means types id) : id < types.length := by
  cases ref with
  | named name =>
    obtain ⟨type, found, _⟩ := means
    exact (List.getElem?_eq_some_iff.mp found).1
  | numbered number => exact means.1 ▸ means.2

/-- An optional reference is resolved to declared types only. -/
theorem resolved_inside {types : List TypeDef} {reference : Option TypeRef} {id : TypeId}
    (resolved : Resolved types reference (some id)) : id < types.length := by
  cases reference with
  | none => cases resolved
  | some ref =>
    obtain ⟨meant, same, means⟩ := resolved
    obtain rfl := Option.some.inj same
    exact TypeRef.means_inside means

namespace Registry

variable {registry : Registry}

namespace InStep

/-- No two types share a name, since no text is listed twice. -/
theorem distinct (inStep : registry.InStep) : (registry.types.map TypeDef.name).Nodup :=
  inStep ▸ registry.names.texts_nodup

/-- There are as many names as declarations. -/
theorem length_eq (inStep : registry.InStep) :
    registry.names.texts.length = registry.types.length := by
  rw [inStep, List.length_map]

/-- The name of a number is that of the type declared under it. -/
theorem name?_eq (inStep : registry.InStep) (id : TypeId) :
    registry.name? id = (registry.types[id]?).map TypeDef.name := by
  rw [name?, SymbolTable.resolve?, inStep, List.getElem?_map]

/-- Looking a name up finds the type that is declared under it. -/
theorem find?_some_iff (inStep : registry.InStep) (name : String) (id : TypeId) :
    registry.find? name = some id ↔ ∃ type, registry.types[id]? = some type ∧ type.name = name := by
  rw [find?, SymbolTable.lookup?_some_iff, ← name?, inStep.name?_eq, Option.map_eq_some_iff]

end InStep

/-- Resolving a reference finds exactly the type it means. -/
theorem resolve_ok_iff (inStep : registry.InStep) (referrer : String) (ref : TypeRef)
    (id : TypeId) :
    registry.resolve referrer ref = .ok id ↔ ref.Means registry.types id := by
  cases ref with
  | named name =>
    rw [TypeRef.Means, ← inStep.find?_some_iff]
    cases found : registry.find? name <;> simp [resolve, found]
  | numbered number =>
    by_cases inside : number < registry.types.length
    · simp [resolve, TypeRef.Means, inside, eq_comm]
    · simp [resolve, TypeRef.Means, inside]

/-- Resolving an optional reference finds nothing for none and the meaning
otherwise. -/
theorem resolve?_ok_iff (inStep : registry.InStep) (referrer : String) (ref : Option TypeRef)
    (found : Option TypeId) :
    registry.resolve? referrer ref = .ok found ↔ Resolved registry.types ref found := by
  cases ref with
  | none => simp [resolve?, Resolved, eq_comm]
  | some ref =>
    simp only [resolve?, Outcome.bind_ok_iff, Outcome.pure_ok_iff, resolve_ok_iff inStep, Resolved]
    constructor
    · rintro ⟨id, means, rfl⟩
      exact ⟨id, rfl, means⟩
    · rintro ⟨id, rfl, means⟩
      exact ⟨id, means, rfl⟩

/-- Resolving a type resolves its base and each of its members. -/
theorem resolveType_ok_iff (inStep : registry.InStep) (type : TypeDef) (base : Option TypeId)
    (targets : List (Option TypeId)) :
    registry.resolveType type = .ok (base, targets) ↔
      Resolved registry.types type.base base ∧
        List.Forall₂ (fun member target => Resolved registry.types member.kind.target? target)
          type.members targets := by
  simp only [resolveType, Outcome.bind_ok_iff, Outcome.pure_ok_iff, Outcome.mapM_ok_iff,
    resolve?_ok_iff inStep, Prod.mk.injEq]
  constructor
  · rintro ⟨_, first, _, others, rfl, rfl⟩
    exact ⟨first, others⟩
  · rintro ⟨first, others⟩
    exact ⟨base, first, targets, others, rfl, rfl⟩

/-- Linking succeeds exactly if all types are resolved and neither of the two
checks finds a fault; the links are then read off the resolved types. -/
theorem link_ok_iff (registry : Registry) (links : Links) :
    registry.link = .ok links ↔
      ∃ resolved, registry.types.mapM registry.resolveType = .ok resolved ∧
        registry.finalDerivation? (resolved.map (·.1)) = none ∧
        registry.inheritanceCycle? (resolved.map (·.1)) = none ∧
        links = {
          bases := resolved.map (·.1)
          derived := (List.range registry.types.length).map
            (registry.derivedFrom (resolved.map (·.1)))
          targets := resolved.map (·.2) } := by
  rw [link, Outcome.bind_ok_iff]
  refine exists_congr fun resolved => and_congr_right fun _ => ?_
  cases final : registry.finalDerivation? (resolved.map (·.1)) with
  | some fault => simp [final, bind, Except.bind]
  | none =>
    cases cycle : registry.inheritanceCycle? (resolved.map (·.1)) with
    | some fault => simp [final, cycle, bind, Except.bind]
    | none => simp [final, cycle, pure, Except.pure, eq_comm]

/-- The check for final bases passes exactly if every base is abstract. -/
theorem finalDerivation?_none_iff (bases : Bases) (sizes : bases.length = registry.types.length) :
    registry.finalDerivation? bases = none ↔
      ∀ id base type, bases.Step id base → registry.types[base]? = some type →
        type.isFinal = false := by
  rw [finalDerivation?, List.findSome?_eq_none_iff]
  constructor
  · intro passes id base type step found
    have inside : id < registry.types.length := sizes ▸ Bases.step_inside step
    have entry : bases[id]? = some (some base) := Option.join_eq_some_iff.mp step
    have member : (registry.types[id], some base) ∈ registry.types.zip bases := by
      apply List.mem_of_getElem?
      rw [List.getElem?_zip_eq_some]
      exact ⟨List.getElem?_eq_getElem inside, entry⟩
    simpa [type?, found] using passes _ member
  · rintro passes ⟨derived, base?⟩ member
    obtain ⟨id, entry⟩ := List.mem_iff_getElem?.mp member
    have listed : bases[id]? = some base? := (List.getElem?_zip_eq_some.mp entry).2
    cases base? with
    | none => rfl
    | some base =>
      have step : bases.Step id base := Option.join_eq_some_iff.mpr listed
      cases found : registry.types[base]? with
      | none => simp [type?, found]
      | some type => simp [type?, found, passes id base type step found]

/-- A type is listed as derived exactly if the given one is its base. -/
theorem mem_derivedFrom_iff (inStep : registry.InStep) (bases : Bases)
    (sizes : bases.length = registry.types.length) (base id : TypeId) :
    id ∈ registry.derivedFrom bases base ↔ bases.Step id base := by
  simp only [derivedFrom, List.mem_map, List.mem_mergeSort, List.mem_filter, decide_eq_true_eq]
  constructor
  · rintro ⟨⟨⟨name, base?⟩, index⟩, ⟨listed, rfl⟩, rfl⟩
    have entry := List.mem_zipIdx_iff_getElem?.mp listed
    exact Option.join_eq_some_iff.mpr (List.getElem?_zip_eq_some.mp entry).2
  · intro step
    have inside : id < registry.names.texts.length := by
      rw [inStep.length_eq, ← sizes]
      exact Bases.step_inside step
    refine ⟨((registry.names.texts[id], some base), id), ⟨?_, rfl⟩, rfl⟩
    rw [List.mk_mem_zipIdx_iff_getElem?, List.getElem?_zip_eq_some]
    exact ⟨List.getElem?_eq_getElem inside, Option.join_eq_some_iff.mp step⟩

/-- The derived types are listed in the order of their names. Equal names, which
the sorting would keep side by side, do not occur. -/
theorem derivedFrom_sorted (inStep : registry.InStep) (bases : Bases)
    (sizes : bases.length = registry.types.length) (base : TypeId) :
    (registry.derivedFrom bases base).Pairwise registry.Before := by
  let entries := (registry.names.texts.zip bases).zipIdx
  let key (entry : (String × Option TypeId) × Nat) : String := entry.1.1
  have enough : registry.names.texts.length ≤ bases.length :=
    Nat.le_of_eq (inStep.length_eq.trans sizes.symm)
  have names : entries.map key = registry.names.texts := by
    calc entries.map key = (entries.map Prod.fst).map Prod.fst := by simp [key]
      _ = (registry.names.texts.zip bases).map Prod.fst := by rw [List.zipIdx_map_fst]
      _ = registry.names.texts := List.map_fst_zip enough
  have kept : ((entries.filter fun entry => entry.1.2 = some base).map key).Nodup :=
    (names ▸ registry.names.texts_nodup).sublist (List.filter_sublist.map key)
  have strict := Ordering.mergeSort_strict key _ kept
  rw [derivedFrom, List.pairwise_map]
  -- The names that were compared are those that the numbers stand for.
  refine strict.imp_of_mem ?_
  intro left right leftMember rightMember less
  have named {entry} (member : entry ∈ entries) : registry.name? entry.2 = some (key entry) :=
    (List.getElem?_zip_eq_some.mp (List.mem_zipIdx_iff_getElem?.mp member)).1
  have leftListed : left ∈ entries := List.mem_of_mem_filter (List.mem_mergeSort.mp leftMember)
  have rightListed : right ∈ entries := List.mem_of_mem_filter (List.mem_mergeSort.mp rightMember)
  exact ⟨_, _, named leftListed, named rightListed, less⟩

/-- The types of one base, in the order of their names, are what is derived from it: a list in a
strict order is determined by its elements. -/
theorem eq_derivedFrom (inStep : registry.InStep) (bases : Bases)
    (sizes : bases.length = registry.types.length) (base : TypeId) {listed : List TypeId}
    (sorted : listed.Pairwise registry.Before)
    (members : ∀ id, id ∈ listed ↔ bases.Step id base) :
    listed = registry.derivedFrom bases base := by
  refine Ordering.eq_of_same_members registry.before_asymm sorted
    (derivedFrom_sorted inStep bases sizes base) fun id => ?_
  rw [members, mem_derivedFrom_iff inStep bases sizes base]

/-- The links can be checked off against the declarations without sorting anything: the references
are resolved to them, the two checks find no fault, and what is listed as derived from a type are
the types of this base, in the order of their names. -/
def LinkedBy (registry : Registry) (links : Links) : Prop :=
  links.bases.length = links.targets.length ∧
  registry.types.mapM registry.resolveType = .ok (links.bases.zip links.targets) ∧
  registry.finalDerivation? links.bases = none ∧
  registry.inheritanceCycle? links.bases = none ∧
  links.derived.length = registry.types.length ∧
  ∀ base < registry.types.length, ∀ listed ∈ links.derived[base]?,
    listed.Pairwise registry.Before ∧
    (∀ id ∈ listed, links.bases.base? id = some base) ∧
    ∀ id < registry.types.length, links.bases.base? id = some base → id ∈ listed

instance (registry : Registry) (links : Links) : Decidable (registry.LinkedBy links) :=
  inferInstanceAs (Decidable (_ ∧ _))

/-- Linking gives exactly the links that can be checked off. -/
theorem link_ok_iff_linkedBy (inStep : registry.InStep) (links : Links) :
    registry.link = .ok links ↔ registry.LinkedBy links := by
  rw [link_ok_iff]
  constructor
  · rintro ⟨resolved, each, noFinal, noCycle, rfl⟩
    have sizes : (resolved.map (·.1)).length = registry.types.length := by
      rw [List.length_map, ((Outcome.mapM_ok_iff _ _ _).mp each).length_eq]
    refine ⟨by simp, ?_, noFinal, noCycle, by simp, fun base inside listed isListed => ?_⟩
    · rw [each, List.zip_map', List.map_id']
    · obtain rfl : registry.derivedFrom (resolved.map (·.1)) base = listed := by
        simpa [inside] using isListed
      have members := mem_derivedFrom_iff inStep (resolved.map (·.1)) sizes base
      exact ⟨derivedFrom_sorted inStep _ sizes base, fun id => (members id).mp,
        fun id _ => (members id).mpr⟩
  · rintro ⟨aligned, each, noFinal, noCycle, length, lists⟩
    have bases : (links.bases.zip links.targets).map (·.1) = links.bases :=
      List.map_fst_zip (Nat.le_of_eq aligned)
    have targets : (links.bases.zip links.targets).map (·.2) = links.targets :=
      List.map_snd_zip (Nat.le_of_eq aligned.symm)
    have sizes : links.bases.length = registry.types.length := by
      rw [((Outcome.mapM_ok_iff _ _ _).mp each).length_eq, List.length_zip, ← aligned, Nat.min_self]
    refine ⟨_, each, bases.symm ▸ noFinal, bases.symm ▸ noCycle, ?_⟩
    have derived : links.derived =
        (List.range registry.types.length).map (registry.derivedFrom links.bases) := by
      refine List.ext_getElem (by simp [length]) fun base inside _ => ?_
      have listed := List.getElem?_eq_getElem inside
      rw [length] at inside
      obtain ⟨sorted, only, every⟩ := lists base inside _ listed
      rw [List.getElem_map, List.getElem_range]
      refine eq_derivedFrom inStep links.bases sizes base sorted fun id => ?_
      exact ⟨only id, fun step => every id (sizes ▸ Bases.step_inside step) step⟩
    rw [bases, targets, ← derived]

end Registry

/-- The reference means some declared type. -/
def TypeRef.Declared (types : List TypeDef) (ref : TypeRef) : Prop :=
  ∃ id, ref.Means types id

/-- Every reference of the declared type means some declared type. -/
def TypeDef.Resolvable (types : List TypeDef) (type : TypeDef) : Prop :=
  (∀ ref, type.base = some ref → ref.Declared types) ∧
    ∀ member ∈ type.members, ∀ ref, member.kind.target? = some ref → ref.Declared types

/-- The links say about the types of the registry what their declarations say. -/
structure Links.Faithful (links : Links) (registry : Registry) : Prop where
  sizes : links.bases.length = registry.types.length
  step_iff : ∀ id base, links.bases.Step id base ↔ Derives registry.types id base
  acyclic : links.bases.Acyclic
  bases_abstract : ∀ id base type, links.bases.Step id base → registry.types[base]? = some type →
    type.isFinal = false
  derived : links.derived =
    (List.range registry.types.length).map (registry.derivedFrom links.bases)
  targets : List.Forall₂
    (fun type found => List.Forall₂
      (fun member target => Resolved registry.types member.kind.target? target)
      type.members found)
    registry.types links.targets

namespace Registry

variable {registry : Registry}

/-- An optional reference is resolved exactly if it is none or means a type. -/
theorem resolved_exists_iff (types : List TypeDef) (ref : Option TypeRef) :
    (∃ found, Resolved types ref found) ↔ ∀ given, ref = some given → given.Declared types := by
  cases ref with
  | none => simp [Resolved]
  | some ref => simp [Resolved, TypeRef.Declared]

/-- A type is resolved exactly if each of its references means a type. -/
theorem resolveType_succeeds_iff (inStep : registry.InStep) (type : TypeDef) :
    (∃ found, registry.resolveType type = .ok found) ↔ type.Resolvable registry.types := by
  have steps : (∃ found, registry.resolveType type = .ok found) ↔
      (∃ base, registry.resolve? type.name type.base = .ok base) ∧
        ∃ targets, (type.members.mapM fun member =>
          registry.resolve? type.name member.kind.target?) = .ok targets := by
    simp only [resolveType, Outcome.bind_ok_iff, Outcome.pure_ok_iff]
    constructor
    · rintro ⟨_, base, first, targets, others, _⟩
      exact ⟨⟨base, first⟩, targets, others⟩
    · rintro ⟨⟨base, first⟩, targets, others⟩
      exact ⟨_, base, first, targets, others, rfl⟩
  rw [steps, Outcome.mapM_succeeds_iff]
  simp only [resolve?_ok_iff inStep, resolved_exists_iff, TypeDef.Resolvable]

/-- The bases of resolved types are what the declarations say. -/
theorem resolved_step_iff (inStep : registry.InStep)
    {resolved : List (Option TypeId × List (Option TypeId))}
    (each : registry.types.mapM registry.resolveType = .ok resolved) (id base : TypeId) :
    Bases.Step (resolved.map (·.1)) id base ↔ Derives registry.types id base := by
  have aligned := (Outcome.mapM_ok_iff _ _ _).mp each
  have sizes : registry.types.length = resolved.length := aligned.length_eq
  cases found : registry.types[id]? with
  | none =>
    have outside : resolved[id]? = none := by
      rw [List.getElem?_eq_none_iff] at found ⊢
      omega
    simp [Bases.Step, Bases.base?, Derives, found, outside]
  | some type =>
    obtain ⟨⟨base?, targets⟩, entry, success⟩ := Outcome.forall₂_at aligned found
    have meaning := ((resolveType_ok_iff inStep type base? targets).mp success).1
    have shown : Bases.base? (resolved.map (·.1)) id = base? := by
      simp [Bases.base?, entry]
    simp only [Bases.Step, shown, Derives, found, Option.some.injEq, exists_and_left,
      exists_eq_left']
    cases declared : type.base with
    | none =>
      rw [declared] at meaning
      obtain rfl : base? = none := meaning
      simp
    | some ref =>
      rw [declared] at meaning
      obtain ⟨meant, rfl, means⟩ := meaning
      constructor
      · rintro same
        obtain rfl := Option.some.inj same
        exact ⟨ref, rfl, means⟩
      · rintro ⟨other, same, otherMeans⟩
        obtain rfl := Option.some.inj same
        rw [TypeRef.means_unique inStep.distinct means otherMeans]

/-- Every base of resolved types is a declared type. -/
theorem resolved_bounded (inStep : registry.InStep)
    {resolved : List (Option TypeId × List (Option TypeId))}
    (each : registry.types.mapM registry.resolveType = .ok resolved) :
    Bases.Bounded (resolved.map (·.1)) := by
  intro id base step
  obtain ⟨_, _, _, _, means⟩ := (resolved_step_iff inStep each id base).mp step
  have sizes : registry.types.length = resolved.length :=
    ((Outcome.mapM_ok_iff _ _ _).mp each).length_eq
  rw [List.length_map, ← sizes]
  exact TypeRef.means_inside means

/-- Successful links say what the declarations say. -/
theorem link_faithful (inStep : registry.InStep) {links : Links}
    (linked : registry.link = .ok links) : links.Faithful registry := by
  obtain ⟨resolved, each, noFinal, noCycle, rfl⟩ := (link_ok_iff registry links).mp linked
  have aligned := (Outcome.mapM_ok_iff _ _ _).mp each
  have sizes : (resolved.map (·.1)).length = registry.types.length := by
    rw [List.length_map, aligned.length_eq]
  refine ⟨sizes, resolved_step_iff inStep each, ?_, ?_, rfl, ?_⟩
  · exact (inheritanceCycle?_none_iff (Nat.le_of_eq sizes)).mp noCycle
  · exact (finalDerivation?_none_iff _ sizes).mp noFinal
  · rw [List.forall₂_map_right_iff]
    refine aligned.imp ?_
    rintro type ⟨base, targets⟩ success
    exact ((resolveType_ok_iff inStep type base targets).mp success).2

/-- Linking succeeds exactly if every reference means a type, no type derives from
a final one and no type is above itself. -/
theorem link_succeeds_iff (inStep : registry.InStep) :
    (∃ links, registry.link = .ok links) ↔
      (∀ type ∈ registry.types, type.Resolvable registry.types) ∧
      (∀ id base type, Derives registry.types id base → registry.types[base]? = some type →
        type.isFinal = false) ∧
      ∀ id, ¬ TransGen (Derives registry.types) id id := by
  have steps : (∃ links, registry.link = .ok links) ↔
      ∃ resolved, registry.types.mapM registry.resolveType = .ok resolved ∧
        registry.finalDerivation? (resolved.map (·.1)) = none ∧
        registry.inheritanceCycle? (resolved.map (·.1)) = none := by
    simp only [link_ok_iff]
    constructor
    · rintro ⟨_, resolved, each, noFinal, noCycle, _⟩
      exact ⟨resolved, each, noFinal, noCycle⟩
    · rintro ⟨resolved, each, noFinal, noCycle⟩
      exact ⟨_, resolved, each, noFinal, noCycle, rfl⟩
  -- Once the types are resolved, the two checks speak of the declared relation.
  have checks {resolved} (each : registry.types.mapM registry.resolveType = .ok resolved) :
      (registry.finalDerivation? (resolved.map (·.1)) = none ∧
        registry.inheritanceCycle? (resolved.map (·.1)) = none) ↔
      (∀ id base type, Derives registry.types id base → registry.types[base]? = some type →
        type.isFinal = false) ∧ ∀ id, ¬ TransGen (Derives registry.types) id id := by
    have sizes : (resolved.map (·.1)).length = registry.types.length := by
      rw [List.length_map, ((Outcome.mapM_ok_iff _ _ _).mp each).length_eq]
    have same : Bases.Step (resolved.map (·.1)) = Derives registry.types := by
      funext id base
      exact propext (resolved_step_iff inStep each id base)
    rw [finalDerivation?_none_iff _ sizes, inheritanceCycle?_none_iff (Nat.le_of_eq sizes),
      Bases.Acyclic, same]
  have resolvable : (∃ resolved, registry.types.mapM registry.resolveType = .ok resolved) ↔
      ∀ type ∈ registry.types, type.Resolvable registry.types := by
    rw [Outcome.mapM_succeeds_iff]
    simp only [resolveType_succeeds_iff inStep]
  rw [steps, ← resolvable]
  constructor
  · rintro ⟨resolved, each, passes⟩
    exact ⟨⟨resolved, each⟩, (checks each).mp passes⟩
  · rintro ⟨⟨resolved, each⟩, passes⟩
    exact ⟨resolved, each, (checks each).mpr passes⟩

end Registry

end Taxonomy
