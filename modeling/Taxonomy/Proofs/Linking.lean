import Taxonomy.Proofs.Slots

/-!
# What finishing a registry says

Finishing resolves every reference. On success the registry answers for each type
with what its declaration means: the base, the types whose base it is, in the order
of their names, and the target of each member. On failure the fault is that of the
first defect, where defects are looked for in three rounds over all types: references
that mean no type, then bases that are final, then types above themselves.

The rounds are not told apart in the result, only the fault is. Which of several
defects it names is therefore stated about the declarations alone.
-/
namespace Taxonomy

open Relation

/-- The references of a type: its base, then the targets of its members. -/
def TypeDef.references (type : TypeDef) : List TypeRef :=
  type.base.toList ++ type.members.flatMap fun member => member.kind.target?.toList

/-- All references of the types in their order, each with the name of the type that
makes it. -/
def references (types : List TypeDef) : List (String × TypeRef) :=
  types.flatMap fun type => type.references.map fun ref => (type.name, ref)

/-- The first defect of declared types, with the fault that reports it. -/
inductive FirstDefect (types : List TypeDef) : Fault → Prop
  /-- The first reference that means no type. -/
  | unresolved {before after : List (String × TypeRef)} {referrer : String} {ref : TypeRef}
      (order : references types = before ++ (referrer, ref) :: after)
      (earlier : ∀ reference ∈ before, reference.2.Declared types)
      (undeclared : ¬ ref.Declared types) :
      FirstDefect types (.unknownType ref.text (some referrer))
  /-- The first type with a final base, where every reference means a type. -/
  | finalBase {id base : TypeId} {type baseType : TypeDef}
      (resolvable : ∀ type ∈ types, type.Resolvable types)
      (found : types[id]? = some type) (derives : Derives types id base)
      (baseFound : types[base]? = some baseType) (final : baseType.isFinal = true)
      (earlier : ∀ other < id, ∀ above aboveType, Derives types other above →
        types[above]? = some aboveType → aboveType.isFinal = false) :
      FirstDefect types (.finalDerivation baseType.name type.name)
  /-- A type above itself, where moreover no base is final. -/
  | cycle {id : TypeId} {type : TypeDef}
      (resolvable : ∀ type ∈ types, type.Resolvable types)
      (abstracts : ∀ id base type, Derives types id base → types[base]? = some type →
        type.isFinal = false)
      (found : types[id]? = some type) (returns : TransGen (Derives types) id id) :
      FirstDefect types (.inheritanceCycle type.name)

/-- The registry answers for a type with what its declaration means. -/
structure Registry.AnswersFor (registry : Registry) (id : TypeId) (type : TypeDef) : Prop where
  base : ∃ base, registry.base id = .ok base ∧ Resolved registry.types type.base base
  derived : ∃ derived, registry.derived id = .ok derived ∧
    (∀ child, child ∈ derived ↔ registry.base child = .ok (some id)) ∧
    derived.Nodup ∧ derived.Pairwise registry.Before
  target : ∀ index, ∃ target, registry.memberTarget id index = .ok target ∧
    Resolved registry.types (type.members[index]?.bind fun member => member.kind.target?) target

namespace Registry

variable {registry : Registry} {links : Links}

/-- Only a reference that means no type is reported, with the type that makes it. -/
theorem resolve_error_iff (inStep : registry.InStep) (referrer : String)
    (ref : TypeRef) (fault : Fault) :
    registry.resolve referrer ref = .error fault ↔
      ¬ ref.Declared registry.types ∧ fault = .unknownType ref.text (some referrer) := by
  have declared : ref.Declared registry.types ↔ ∃ id, registry.resolve referrer ref = .ok id :=
    exists_congr fun id => (resolve_ok_iff inStep referrer ref id).symm
  have outcome : registry.resolve referrer ref = .error (.unknownType ref.text (some referrer)) ∨
      ∃ id, registry.resolve referrer ref = .ok id := by
    unfold resolve
    dsimp only
    split
    · exact Or.inr ⟨_, rfl⟩
    · exact Or.inl rfl
  rw [declared]
  rcases outcome with failed | ⟨id, success⟩
  · simp [failed, eq_comm]
  · simp [success]

/-- The fault of an optional reference is that of the reference, if there is one. -/
theorem resolve?_fault? (registry : Registry) (referrer : String) (ref : Option TypeRef) :
    Outcome.fault? (registry.resolve? referrer ref) =
      ref.toList.findSome? fun given => Outcome.fault? (registry.resolve referrer given) := by
  cases ref with
  | none => rfl
  | some given =>
    rw [resolve?, Outcome.fault?_bind_pure, Option.toList_some, List.findSome?_singleton]

/-- The fault of a type is that of the first of its references that has one. -/
theorem resolveType_fault? (registry : Registry) (type : TypeDef) :
    Outcome.fault? (registry.resolveType type) =
      type.references.findSome? fun ref => Outcome.fault? (registry.resolve type.name ref) := by
  simp only [resolveType, TypeDef.references, Outcome.fault?_bind_const, Outcome.fault?_mapM,
    resolve?_fault?, List.findSome?_append, Outcome.findSome?_flatMap]

/-- The fault of all types is that of the first of all references that has one. -/
theorem resolveAll_fault? (registry : Registry) (types : List TypeDef) :
    Outcome.fault? (types.mapM registry.resolveType) =
      (references types).findSome? fun reference =>
        Outcome.fault? (registry.resolve reference.1 reference.2) := by
  simp only [references, Outcome.fault?_mapM, resolveType_fault?, Outcome.findSome?_flatMap,
    List.findSome?_map, Function.comp_def]

/-- Types that cannot be resolved have a first reference that means no type. -/
theorem resolveAll_error (inStep : registry.InStep) {fault : Fault}
    (failed : registry.types.mapM registry.resolveType = .error fault) :
    FirstDefect registry.types fault := by
  rw [← Outcome.fault?_some_iff, resolveAll_fault?, List.findSome?_eq_some_iff] at failed
  obtain ⟨before, ⟨referrer, ref⟩, after, order, reported, earlier⟩ := failed
  rw [Outcome.fault?_some_iff, resolve_error_iff inStep] at reported
  obtain ⟨undeclared, rfl⟩ := reported
  refine .unresolved order (fun reference member => ?_) undeclared
  obtain ⟨id, success⟩ := (Outcome.fault?_none_iff _).mp (earlier reference member)
  exact ⟨id, (resolve_ok_iff inStep _ _ id).mp success⟩

/-- The check for final bases reports the first type with one. -/
theorem finalDerivation?_some {bases : Bases} (sizes : bases.length = registry.types.length)
    {fault : Fault} (reported : registry.finalDerivation? bases = some fault) :
    ∃ id type base baseType, registry.types[id]? = some type ∧ bases.Step id base ∧
      registry.types[base]? = some baseType ∧ baseType.isFinal = true ∧
      fault = .finalDerivation baseType.name type.name ∧
      ∀ other < id, ∀ above aboveType, bases.Step other above →
        registry.types[above]? = some aboveType → aboveType.isFinal = false := by
  rw [finalDerivation?, List.findSome?_eq_some_iff] at reported
  obtain ⟨before, ⟨type, base?⟩, after, split, found, earlier⟩ := reported
  have listed : (registry.types.zip bases)[before.length]? = some (type, base?) := by
    simp [split]
  obtain ⟨there, entry⟩ := List.getElem?_zip_eq_some.mp listed
  simp only [Option.bind_eq_bind, Option.bind_eq_some_iff] at found
  obtain ⟨base, rfl, baseType, baseFound, reported⟩ := found
  by_cases final : baseType.isFinal
  · rw [if_pos final, Option.some.injEq] at reported
    refine ⟨before.length, type, base, baseType, there, Option.join_eq_some_iff.mpr entry,
      baseFound, final, reported.symm, ?_⟩
    intro other inside above aboveType step aboveFound
    have declared : other < registry.types.length := sizes ▸ Bases.step_inside step
    have passed : (registry.types[other], some above) ∈ before := by
      apply List.mem_of_getElem?
      rw [← List.getElem?_append_left inside, ← split, List.getElem?_zip_eq_some]
      exact ⟨List.getElem?_eq_getElem declared, Option.join_eq_some_iff.mp step⟩
    simpa [type?, aboveFound] using earlier _ passed
  · rw [if_neg final] at reported
    cases reported

/-- Linking fails in the first of its three rounds that finds a defect. -/
theorem link_error {fault : Fault} (failed : registry.link = .error fault) :
    registry.types.mapM registry.resolveType = .error fault ∨
      ∃ resolved, registry.types.mapM registry.resolveType = .ok resolved ∧
        (registry.finalDerivation? (resolved.map (·.1)) = some fault ∨
          registry.finalDerivation? (resolved.map (·.1)) = none ∧
            registry.inheritanceCycle? (resolved.map (·.1)) = some fault) := by
  rw [link, Outcome.bind_error_iff] at failed
  refine failed.imp_right ?_
  rintro ⟨resolved, each, late⟩
  refine ⟨resolved, each, ?_⟩
  cases final : registry.finalDerivation? (resolved.map (·.1)) with
  | some other => simpa [final, bind, Except.bind] using late
  | none =>
    cases cycle : registry.inheritanceCycle? (resolved.map (·.1)) with
    | some other => simpa [final, cycle, bind, Except.bind] using late
    | none => simp [final, cycle, pure, Except.pure] at late

/-- What linking reports is the first defect of the declarations. -/
theorem link_firstDefect (inStep : registry.InStep) {fault : Fault}
    (failed : registry.link = .error fault) : FirstDefect registry.types fault := by
  rcases link_error failed with unresolved | ⟨resolved, each, late⟩
  · exact resolveAll_error inStep unresolved
  · have sizes : (resolved.map (·.1)).length = registry.types.length := by
      rw [List.length_map, ((Outcome.mapM_ok_iff _ _ _).mp each).length_eq]
    have same : Bases.Step (resolved.map (·.1)) = Derives registry.types := by
      funext id base
      exact propext (resolved_step_iff inStep each id base)
    have resolvable : ∀ type ∈ registry.types, type.Resolvable registry.types := by
      intro type member
      rw [← resolveType_succeeds_iff inStep]
      exact (Outcome.mapM_succeeds_iff _ _).mp ⟨resolved, each⟩ type member
    rcases late with final | ⟨noFinal, cycle⟩
    · obtain ⟨id, type, base, baseType, found, step, baseFound, isFinal, rfl, earlier⟩ :=
        finalDerivation?_some sizes final
      rw [same] at step earlier
      exact .finalBase resolvable found step baseFound isFinal earlier
    · have abstracts := (finalDerivation?_none_iff _ sizes).mp noFinal
      obtain ⟨id, type, repeated, found, rfl⟩ := (inheritanceCycle?_some_iff _ _ _).mp cycle
      have returns := Bases.cycle?_returns repeated
      rw [same] at abstracts returns
      exact .cycle resolvable abstracts found returns

namespace Finished

/-- A type has no member beyond its last one, and so no target there. -/
theorem memberTarget_none (finished : registry.Finished links) {id : TypeId} {type : TypeDef}
    (found : registry.types[id]? = some type) {index : Nat}
    (missing : type.members[index]? = none) : registry.memberTarget id index = .ok none := by
  have inside : id < registry.types.length := (List.getElem?_eq_some_iff.mp found).1
  obtain ⟨targets, entry, each⟩ := Outcome.forall₂_at finished.faithful.targets found
  have beyond : targets[index]? = none := by
    rw [List.getElem?_eq_none_iff] at missing ⊢
    rwa [← each.length_eq]
  rw [memberTarget, Outcome.bind_ok_iff]
  exact ⟨links, finished.linksFor_ok inside, by simp [Outcome.pure_ok_iff, entry, beyond]⟩

end Finished

/-- The linked base of a type is what its declaration means. -/
theorem link_base_resolved (inStep : registry.InStep)
    (linked : registry.link = .ok links) {id : TypeId} {type : TypeDef}
    (found : registry.types[id]? = some type) :
    Resolved registry.types type.base (links.bases.base? id) := by
  obtain ⟨resolved, each, _, _, rfl⟩ := (link_ok_iff registry links).mp linked
  obtain ⟨⟨base, targets⟩, entry, success⟩ :=
    Outcome.forall₂_at ((Outcome.mapM_ok_iff _ _ _).mp each) found
  have shown : Bases.base? (resolved.map (·.1)) id = base := by
    simp [Bases.base?, entry]
  rw [shown]
  exact ((resolveType_ok_iff inStep type base targets).mp success).1

/-- A finished registry answers for each type with what its declaration means. -/
theorem Sound.answersFor (sound : registry.Sound) (isFinished : registry.isFinished = true)
    {id : TypeId} {type : TypeDef} (found : registry.types[id]? = some type) :
    registry.AnswersFor id type := by
  obtain ⟨links, finished⟩ := sound.finished isFinished
  have inside : id < registry.types.length := (List.getElem?_eq_some_iff.mp found).1
  have linked : registry.link = .ok links := sound.linked links finished.linked
  have sorted := finished.derived_sorted id
  refine ⟨⟨_, finished.base_ok inside, link_base_resolved sound.inStep linked found⟩,
    ⟨_, finished.derived_ok inside, fun child => ?_, ?_, sorted⟩, fun index => ?_⟩
  · rw [finished.mem_derived_iff, finished.base_step_iff]
  · refine sorted.imp ?_
    rintro left right before rfl
    exact registry.before_asymm left left before before
  · cases listed : type.members[index]? with
    | none => exact ⟨none, finished.memberTarget_none found listed, rfl⟩
    | some member => exact finished.memberTarget_ok found listed

end Registry

/-- Finishing an open registry succeeds exactly if every reference means a declared
type, no base is final and no type is above itself. The finished registry then answers
for each of the same types with what its declaration means. Otherwise the fault is
that of the first defect.

Proof: the names are in step with the declarations, so that a name resolves to the type
declared under it. Resolving all references then gives the declared relation as a list of
bases, on which the two further rounds decide whether a base is final and whether the way up
from a type comes back to it. The fault of a run over a list is that of its first element
with a fault, which gives the first reference of all and the first type with a final base. -/
theorem finish_resolves_exactly (registry : Registry) (reachable : registry.Reachable)
    (isOpen : registry.isFinished = false) :
    ((∃ next, registry.finish = (.ok (), next)) ↔
      (∀ type ∈ registry.types, type.Resolvable registry.types) ∧
      (∀ id base type, Derives registry.types id base → registry.types[base]? = some type →
        type.isFinal = false) ∧
      ∀ id, ¬ TransGen (Derives registry.types) id id) ∧
    (∀ next, registry.finish = (.ok (), next) → next.types = registry.types ∧
      ∀ id type, registry.types[id]? = some type → next.AnswersFor id type) ∧
    ∀ fault, registry.finish.1 = .error fault → FirstDefect registry.types fault := by
  have inStep := reachable.sound.inStep
  have unlinked : registry.links = none := by simpa [Registry.isFinished] using isOpen
  refine ⟨?_, fun next finished => ?_, fun fault failed => ?_⟩
  · rw [← Registry.link_succeeds_iff inStep]
    simp [Registry.finish_ok_iff, unlinked]
  · have sound : next.Sound := by
      have step := reachable.sound.finish
      rwa [finished] at step
    rcases (registry.finish_ok_iff next).mp finished with ⟨linked, _⟩ | ⟨_, links, _, rfl⟩
    · simp [unlinked] at linked
    · exact ⟨rfl, fun id type found => sound.answersFor rfl found⟩
  · obtain ⟨_, unlinkable⟩ := (registry.finish_error_iff fault).mp failed
    exact Registry.link_firstDefect inStep unlinkable

/-- Lanes and alleys are ways, and every way leads on to a lane. The lane names its
base before it is declared, and the alley gives the number of its base. -/
def ways : Registry :=
  .holding [
    { name := "Lane", base := some (.named "Way") },
    { name := "Way", isFinal := false,
      members := [.data "width" "f32", .node "next" (.numbered 0)] },
    { name := "Alley", base := some (.numbered 1) }]
    none

/-- A tower is derived from a final type, which in turn refers to two types that are
not there. -/
def ruins : Registry :=
  .holding [
    { name := "Tower", base := some (.named "Wall") },
    { name := "Wall", members := [.node "moat" (.numbered 7), .node "gate" (.named "Gate")] }]
    none

/-- The ways can be finished, and the alley comes before the lane. Of the defects of
the ruins the reference to the moat is reported, although the tower stands first. -/
theorem finish_resolves_ways :
    (∃ next, ways.finish = (.ok (), next) ∧ next.derived 1 = .ok [2, 0] ∧
      ∀ type, ways.types[1]? = some type → next.AnswersFor 1 type) ∧
    ruins.finish.1 = .error (.unknownType "#7" (some "Wall")) ∧
      FirstDefect ruins.types (.unknownType "#7" (some "Wall")) := by
  have waysReached : (Registry.registerAll {} ways.types).2 = ways := rfl
  have ruinsReached : (Registry.registerAll {} ruins.types).2 = ruins := rfl
  have waysLaws := finish_resolves_exactly ways
    (waysReached ▸ Registry.Reachable.empty.registerAll ways.types) rfl
  have ruinsLaws := finish_resolves_exactly ruins
    (ruinsReached ▸ Registry.Reachable.empty.registerAll ruins.types) rfl
  have failed : ruins.finish.1 = .error (.unknownType "#7" (some "Wall")) := rfl
  let linked : Registry := .holding ways.types (some {
    bases := [some 1, none, some 1]
    derived := [[], [2, 0], []]
    targets := [[], [none, some 0], []] })
  have finished : ways.finish = (.ok (), linked) :=
    Registry.finish_of_linkedBy (by decide +kernel) (by decide +kernel)
  exact ⟨⟨linked, finished, rfl, (waysLaws.2.1 linked finished).2 1⟩, failed,
    ruinsLaws.2.2 _ failed⟩

end Taxonomy
