import Taxonomy.Model
import Taxonomy.Proofs.Repetition
import Taxonomy.Proofs.Resolution

/-!
# Registries that can come about

A registry comes about from the empty one by taking types in and by being
finished. Whatever the order of these steps, and whichever of them are refused, the
symbol table lists the names of the declared types in their order, no type has two
members of a name, and the links, once there are any, are those that the declarations
give. A finished registry therefore answers every question about its types from the
declared relation alone.

The names stay in step because a type that is refused is not interned, and a type
that is taken in has a new name: its symbol is then the number of names before it,
which is the number of declarations.

Making a registry from a list of types succeeds exactly if the list is well
formed.
-/
namespace Taxonomy

open Relation

namespace Registry

/-- The registries that registering and finishing lead to from the empty one, also
by steps that are refused. -/
inductive Reachable : Registry → Prop
  | empty : Reachable {}
  | registered {registry : Registry} (earlier : Reachable registry) (type : TypeDef) :
      Reachable (registry.register type).2
  | finished {registry : Registry} (earlier : Reachable registry) :
      Reachable registry.finish.2

/-- What every registry keeps to, whether finished or not. -/
structure Sound (registry : Registry) : Prop where
  inStep : registry.InStep
  members_distinct : ∀ type ∈ registry.types, (type.members.map Member.name).Nodup
  linked : ∀ links, registry.links = some links → registry.link = .ok links

/-- A finished registry, with links that say what its declarations say. -/
structure Finished (registry : Registry) (links : Links) : Prop where
  inStep : registry.InStep
  linked : registry.links = some links
  faithful : links.Faithful registry

/-- The registry with types added at the end, and their names interned. -/
def extend (registry : Registry) (types : List TypeDef) : Registry where
  names := registry.names.internAll (types.map TypeDef.name)
  types := registry.types ++ types
  links := registry.links

/-- The registry that holds the given types in their order, open or with links. -/
def holding (types : List TypeDef) (links : Option Links) : Registry where
  names := .internAll {} (types.map TypeDef.name)
  types := types
  links := links

variable {registry : Registry}

/-- Types can be added in two parts. -/
theorem extend_append (registry : Registry) (front back : List TypeDef) :
    (registry.extend front).extend back = registry.extend (front ++ back) := by
  simp [extend, SymbolTable.internAll_append]

/-- Types with new names keep the names in step. -/
theorem InStep.extend (inStep : registry.InStep) {types : List TypeDef}
    (fresh : Fresh (registry.types.map TypeDef.name) (types.map TypeDef.name)) :
    (registry.extend types).InStep := by
  rw [InStep, Registry.extend, SymbolTable.internAll_new _ _ (inStep ▸ fresh), List.map_append,
    inStep]

/-- A registry of types with pairwise different names has them in step. -/
theorem holding_inStep {types : List TypeDef} (distinct : (types.map TypeDef.name).Nodup)
    (links : Option Links) : (holding types links).InStep := by
  rw [InStep, holding, SymbolTable.internAll_new _ _ ((fresh_nil_iff _).mpr distinct),
    List.nil_append]

/-- A name is found exactly if some type is declared under it. -/
theorem InStep.find?_isSome_iff (inStep : registry.InStep) (name : String) :
    (registry.find? name).isSome ↔ name ∈ registry.types.map TypeDef.name := by
  rw [← inStep, ← not_iff_not, ← SymbolTable.lookup?_none_iff, Bool.not_eq_true,
    Option.isSome_eq_false_iff, Option.isNone_iff_eq_none, find?]

/-- A type is taken in exactly if the registry is open, the name is new and the
members have names of their own. It gets the next number and stands last. -/
theorem InStep.register_ok_iff (inStep : registry.InStep) (type : TypeDef) (id : TypeId)
    (next : Registry) :
    registry.register type = (.ok id, next) ↔
      registry.links = none ∧ type.name ∉ registry.types.map TypeDef.name ∧
        (type.members.map Member.name).Nodup ∧
        id = registry.types.length ∧ next = registry.extend [type] := by
  rw [register, isFinished, ← inStep.find?_isSome_iff, ← firstRepeated_nil_iff]
  cases links : registry.links with
  | some links => simp
  | none =>
    cases found : registry.find? type.name with
    | some other => simp
    | none =>
      have fresh : type.name ∉ registry.names.texts := (registry.names.lookup?_none_iff _).mp found
      cases firstRepeated [] (type.members.map Member.name) with
      | some member => simp
      | none =>
        simp [Registry.extend, SymbolTable.internAll, SymbolTable.intern_symbol fresh,
          inStep.length_eq, links, eq_comm]

/-- A type that is refused changes nothing: each of the three checks comes before the
name is interned. -/
theorem register_refused {type : TypeDef} {fault : Fault}
    (refused : (registry.register type).1 = .error fault) :
    (registry.register type).2 = registry := by
  rw [register] at refused ⊢
  split at refused
  · next finished => rw [if_pos finished]
  · next isOpen =>
    rw [if_neg isOpen]
    split at refused
    · next known => rw [if_pos known]
    · next unknown =>
      rw [if_neg unknown]
      cases repeated : firstRepeated [] (type.members.map Member.name) with
      | some member => rfl
      | none => simp [repeated] at refused

/-- Finishing an open registry adds its links; a finished one stays as it is. -/
theorem finish_ok_iff (registry next : Registry) :
    registry.finish = (.ok (), next) ↔
      (registry.links.isSome ∧ next = registry) ∨
        (registry.links = none ∧
          ∃ links, registry.link = .ok links ∧ next = { registry with links := some links }) := by
  cases present : registry.links with
  | some links => simp [finish, present, eq_comm]
  | none => cases linked : registry.link <;> simp [finish, present, linked, eq_comm]

/-- Finishing fails exactly if the registry is open and cannot be linked. -/
theorem finish_error_iff (registry : Registry) (fault : Fault) :
    registry.finish.1 = .error fault ↔ registry.links = none ∧ registry.link = .error fault := by
  cases present : registry.links with
  | some links => simp [finish, present]
  | none => cases linked : registry.link <;> simp [finish, present, linked]

/-- A registry that cannot be finished stays as it is. -/
theorem finish_refused {fault : Fault} (refused : registry.finish.1 = .error fault) :
    registry.finish.2 = registry := by
  obtain ⟨isOpen, unlinked⟩ := (finish_error_iff registry fault).mp refused
  simp [finish, isOpen, unlinked]

/-- One step keeps a registry sound: a type comes in under a new name and only
into an open registry, and finishing records the links of the declarations. -/
theorem Sound.register (sound : registry.Sound) (type : TypeDef) :
    (registry.register type).2.Sound := by
  rcases taken : registry.register type with ⟨answer, next⟩
  cases answer with
  | error fault =>
    have same : next = registry := by
      simpa [taken] using register_refused (congrArg Prod.fst taken)
    exact same ▸ sound
  | ok id =>
    obtain ⟨isOpen, fresh, members, _, rfl⟩ := (sound.inStep.register_ok_iff type id next).mp taken
    refine ⟨sound.inStep.extend (fresh_singleton_iff.mpr fresh), ?_, ?_⟩
    · intro other member
      rcases List.mem_append.mp member with earlier | last
      · exact sound.members_distinct other earlier
      · exact List.mem_singleton.mp last ▸ members
    · intro links present
      simp [extend, isOpen] at present

/-- Finishing keeps a registry sound. The links do not depend on whether they are
recorded. -/
theorem Sound.finish (sound : registry.Sound) : registry.finish.2.Sound := by
  rcases taken : registry.finish with ⟨answer, next⟩
  cases answer with
  | error fault =>
    have same : next = registry := by
      simpa [taken] using finish_refused (congrArg Prod.fst taken)
    exact same ▸ sound
  | ok _ =>
    rcases (finish_ok_iff registry next).mp taken with ⟨_, rfl⟩ | ⟨_, links, linked, rfl⟩
    · exact sound
    · refine ⟨sound.inStep, sound.members_distinct, ?_⟩
      intro other present
      obtain rfl := Option.some.inj present
      exact linked

/-- Every registry that comes about is sound. -/
theorem Reachable.sound (reachable : registry.Reachable) : registry.Sound := by
  induction reachable with
  | empty => exact ⟨rfl, by simp, by simp⟩
  | registered _ type inductionHypothesis => exact inductionHypothesis.register type
  | finished _ inductionHypothesis => exact inductionHypothesis.finish

/-- A sound registry that is finished has links that say what its declarations
say. -/
theorem Sound.finished (sound : registry.Sound) (finished : registry.isFinished) :
    ∃ links, registry.Finished links := by
  obtain ⟨links, present⟩ := Option.isSome_iff_exists.mp finished
  exact ⟨links, sound.inStep, present, link_faithful sound.inStep (sound.linked links present)⟩

/-- A type is found by its number exactly if it is declared under it. -/
theorem type_ok_iff (registry : Registry) (id : TypeId) (type : TypeDef) :
    registry.type id = .ok type ↔ registry.types[id]? = some type := by
  cases found : registry.types[id]? <;> simp [Registry.type, type?, found]

/-- A name is found by the number of its type. -/
theorem name_ok_iff (registry : Registry) (id : TypeId) (name : String) :
    registry.name id = .ok name ↔ registry.name? id = some name := by
  cases found : registry.name? id <;> simp [Registry.name, found]

/-- A number is found by the name of its type. -/
theorem id_ok_iff (registry : Registry) (name : String) (id : TypeId) :
    registry.id name = .ok id ↔ registry.find? name = some id := by
  cases found : registry.find? name <;> simp [Registry.id, found]

/-- The number of every declared type has a name. -/
theorem InStep.name?_inside (inStep : registry.InStep) {id : TypeId}
    (inside : id < registry.types.length) :
    registry.name? id = some registry.types[id].name := by
  rw [inStep.name?_eq, List.getElem?_eq_getElem inside, Option.map_some]

/-- Links are answered with on behalf of declared types only. -/
theorem InStep.linksFor_inside (inStep : registry.InStep) {id : TypeId} {links : Links}
    (found : registry.linksFor id = .ok links) : id < registry.types.length := by
  rw [linksFor, Outcome.bind_ok_iff] at found
  obtain ⟨name, named, _⟩ := found
  rw [name_ok_iff, inStep.name?_eq, Option.map_eq_some_iff] at named
  obtain ⟨type, there, _⟩ := named
  exact (List.getElem?_eq_some_iff.mp there).1

namespace Finished

variable {links : Links}

/-- No two types of a finished registry share a name. -/
theorem distinct (finished : registry.Finished links) : (registry.types.map TypeDef.name).Nodup :=
  finished.inStep.distinct

/-- Every base is a declared type. -/
theorem bounded (finished : registry.Finished links) : links.bases.Bounded := by
  intro id base step
  obtain ⟨_, _, _, _, means⟩ := (finished.faithful.step_iff id base).mp step
  rw [finished.faithful.sizes]
  exact TypeRef.means_inside means

/-- A type with a base is declared. -/
theorem step_declared (finished : registry.Finished links) {id base : TypeId}
    (step : links.bases.Step id base) : id < registry.types.length :=
  finished.faithful.sizes ▸ Bases.step_inside step

/-- The way up from a declared type is not longer than the number of types. -/
theorem ancestors_length_le (finished : registry.Finished links) {id : TypeId}
    (inside : id < registry.types.length) :
    (links.bases.ancestors id).length ≤ registry.types.length := by
  have sizes := finished.faithful.sizes
  have bound : (links.bases.ancestors id).length ≤ links.bases.length :=
    Bases.lineage_length_le finished.faithful.acyclic finished.bounded _ id (sizes ▸ inside)
  rwa [sizes] at bound

/-- From a derived type the way up is longer by one. -/
theorem ancestors_length_step (finished : registry.Finished links) {id base : TypeId}
    (step : links.bases.Step id base) :
    (links.bases.ancestors id).length = (links.bases.ancestors base).length + 1 := by
  rw [Bases.ancestors_step finished.faithful.acyclic finished.bounded step, List.length_cons]

/-- What lies below a declared type is declared. -/
theorem below_declared (finished : registry.Finished links) {id top : TypeId}
    (declared : top < registry.types.length) (below : links.bases.Below id top) :
    id < registry.types.length := by
  rcases ReflTransGen.cases_head below with rfl | ⟨_, step, _⟩
  · exact declared
  · exact finished.step_declared step

/-- A finished registry has links to answer with for every declared type. -/
theorem linksFor_ok (finished : registry.Finished links) {id : TypeId}
    (inside : id < registry.types.length) : registry.linksFor id = .ok links := by
  rw [linksFor, Outcome.bind_ok_iff]
  exact ⟨_, (name_ok_iff registry id _).mpr (finished.inStep.name?_inside inside),
    by rw [finished.linked]⟩

/-- The base of a declared type is looked up in the links. -/
theorem base_ok (finished : registry.Finished links) {id : TypeId}
    (inside : id < registry.types.length) : registry.base id = .ok (links.bases.base? id) := by
  rw [Registry.base, Outcome.bind_ok_iff]
  exact ⟨links, finished.linksFor_ok inside, rfl⟩

/-- A base is answered exactly if the links have the step to it. -/
theorem base_step_iff (finished : registry.Finished links) (id base : TypeId) :
    registry.base id = .ok (some base) ↔ links.bases.Step id base := by
  by_cases inside : id < registry.types.length
  · rw [finished.base_ok inside, Except.ok.injEq]
    rfl
  · constructor
    · intro answered
      rw [Registry.base, Outcome.bind_ok_iff] at answered
      obtain ⟨_, found, _⟩ := answered
      exact absurd (finished.inStep.linksFor_inside found) inside
    · intro step
      exact absurd (finished.step_declared step) inside

/-- The derived types of a declared type are listed. -/
theorem derived_ok (finished : registry.Finished links) {id : TypeId}
    (inside : id < registry.types.length) :
    registry.derived id = .ok (registry.derivedFrom links.bases id) := by
  rw [Registry.derived, Outcome.bind_ok_iff]
  refine ⟨links, finished.linksFor_ok inside, ?_⟩
  rw [Outcome.pure_ok_iff, finished.faithful.derived]
  simp [List.getElem?_range inside]

/-- The listed derived types are those whose base is the given type. -/
theorem mem_derived_iff (finished : registry.Finished links) (base id : TypeId) :
    id ∈ registry.derivedFrom links.bases base ↔ links.bases.Step id base :=
  mem_derivedFrom_iff finished.inStep links.bases finished.faithful.sizes base id

/-- Nothing is derived from a final type. -/
theorem derived_of_final (finished : registry.Finished links) {id : TypeId} {type : TypeDef}
    (found : registry.types[id]? = some type) (final : type.isFinal = true) :
    registry.derivedFrom links.bases id = [] := by
  rw [List.eq_nil_iff_forall_not_mem]
  intro child member
  have step := (finished.mem_derived_iff id child).mp member
  have abstract := finished.faithful.bases_abstract child id type step found
  simp [final] at abstract

/-- The derived types are listed in the order of their names. -/
theorem derived_sorted (finished : registry.Finished links) (base : TypeId) :
    (registry.derivedFrom links.bases base).Pairwise registry.Before :=
  derivedFrom_sorted finished.inStep links.bases finished.faithful.sizes base

/-- The subtype test on a declared type answers whether the type lies below the
other one. -/
theorem isSubtype_iff (finished : registry.Finished links) {id : TypeId}
    (inside : id < registry.types.length) (ancestor : TypeId) :
    registry.isSubtype id ancestor = .ok true ↔ links.bases.Below id ancestor := by
  have there : id < links.bases.length := finished.faithful.sizes ▸ inside
  rw [isSubtype]
  split
  · next same =>
    subst same
    exact iff_of_true rfl ReflTransGen.refl
  · rw [Outcome.bind_ok_iff, ← Bases.mem_ancestors_iff finished.faithful.acyclic finished.bounded
      there]
    simp [finished.linksFor_ok inside, pure, Except.pure]

/-- Of all numbers, exactly those of the types below a declared type are answered to
be its subtypes. -/
theorem isSubtype_below_iff (finished : registry.Finished links) {top : TypeId}
    (declared : top < registry.types.length) (id : TypeId) :
    registry.isSubtype id top = .ok true ↔ links.bases.Below id top := by
  by_cases inside : id < registry.types.length
  · exact finished.isSubtype_iff inside top
  · have other : id ≠ top := by
      rintro rfl
      exact inside declared
    constructor
    · intro answered
      rw [isSubtype, if_neg other, Outcome.bind_ok_iff] at answered
      obtain ⟨_, found, _⟩ := answered
      exact absurd (finished.inStep.linksFor_inside found) inside
    · intro below
      exact absurd (finished.below_declared declared below) inside

end Finished

/-- The types of a list are taken in exactly if their names are fresh and the
members of each have names of their own. They then stand last, in the order of the
list, and have consecutive numbers. -/
theorem InStep.registerAll_ok_iff (inStep : registry.InStep) (isOpen : registry.links = none)
    (types : List TypeDef) (ids : List TypeId) (last : Registry) :
    registry.registerAll types = (.ok ids, last) ↔
      Fresh (registry.types.map TypeDef.name) (types.map TypeDef.name) ∧
        (∀ type ∈ types, (type.members.map Member.name).Nodup) ∧
        ids = List.range' registry.types.length types.length ∧ last = registry.extend types := by
  induction types generalizing registry ids with
  | nil => simp [registerAll, Fresh, Registry.extend, SymbolTable.internAll, eq_comm]
  | cons type types inductionHypothesis =>
    rw [List.map_cons, fresh_cons_iff_append, List.forall_mem_cons, registerAll]
    rcases taken : registry.register type with ⟨answer, next⟩
    cases answer with
    | error fault =>
      constructor
      · rintro ⟨⟩
      · rintro ⟨⟨fresh, _⟩, ⟨members, _⟩, _⟩
        have accepted := (inStep.register_ok_iff type _ _).mpr ⟨isOpen, fresh, members, rfl, rfl⟩
        rw [taken] at accepted
        cases accepted
    | ok id =>
      obtain ⟨_, fresh, members, rfl, rfl⟩ := (inStep.register_ok_iff type id next).mp taken
      have grownInStep : (registry.extend [type]).InStep :=
        inStep.extend (fresh_singleton_iff.mpr fresh)
      have rest := inductionHypothesis grownInStep isOpen
      rw [and_iff_right fresh, and_iff_right members]
      rcases run : (registry.extend [type]).registerAll types with ⟨answers, reached⟩
      have grown : (registry.extend [type]).types = registry.types ++ [type] := rfl
      simp only [run, extend_append, grown, List.map_append, List.map_cons, List.map_nil,
        List.length_append, List.length_singleton, List.singleton_append] at rest
      cases answers with
      | error fault =>
        simp only [run, Except.map, Prod.mk.injEq, reduceCtorEq, false_and, false_iff] at rest ⊢
        rintro ⟨freshRest, membersRest, _, same⟩
        exact rest _ ⟨freshRest, membersRest, rfl, same⟩
      | ok others =>
        simp only [run, Except.map, Prod.mk.injEq, Except.ok.injEq, List.length_cons,
          List.range'_succ] at rest ⊢
        constructor
        · rintro ⟨rfl, rfl⟩
          obtain ⟨freshRest, membersRest, rfl, same⟩ := (rest others).mp ⟨rfl, rfl⟩
          exact ⟨freshRest, membersRest, rfl, same⟩
        · rintro ⟨freshRest, membersRest, rfl, same⟩
          obtain ⟨rfl, reachedEnd⟩ := (rest _).mpr ⟨freshRest, membersRest, rfl, same⟩
          exact ⟨rfl, reachedEnd⟩

/-- A list of types from which a registry can be made. -/
structure WellFormedTypes (types : List TypeDef) : Prop where
  names_distinct : (types.map TypeDef.name).Nodup
  members_distinct : ∀ type ∈ types, (type.members.map Member.name).Nodup
  references_declared : ∀ type ∈ types, type.Resolvable types
  bases_abstract : ∀ id base type, Derives types id base → types[base]? = some type →
    type.isFinal = false
  acyclic : ∀ id, ¬ TransGen (Derives types) id id

/-- The registry of a list of types holds the list as it is, finished. -/
theorem ofList_ok_iff (types : List TypeDef) (registry : Registry) :
    ofList types = .ok registry ↔
      (types.map TypeDef.name).Nodup ∧ (∀ type ∈ types, (type.members.map Member.name).Nodup) ∧
        ∃ links, (holding types none).link = .ok links ∧ registry = holding types (some links) := by
  have empty : Registry.InStep {} := rfl
  have taken := empty.registerAll_ok_iff rfl types
  have held : Registry.extend {} types = holding types none := rfl
  simp only [List.map_nil, fresh_nil_iff, held] at taken
  rw [ofList]
  rcases run : Registry.registerAll {} types with ⟨answer, reached⟩
  cases answer with
  | error fault =>
    simp only [run, Prod.mk.injEq, reduceCtorEq, false_and, false_iff] at taken
    simp only [reduceCtorEq, false_iff]
    rintro ⟨names, members, _⟩
    exact taken _ _ ⟨names, members, rfl, rfl⟩
  | ok ids =>
    obtain ⟨names, members, _, rfl⟩ := (taken ids reached).mp run
    rw [and_iff_right names, and_iff_right members]
    have isOpen : (holding types none).links = none := rfl
    cases linked : (holding types none).link with
    | error fault => simp [finish, isOpen, linked]
    | ok links =>
      have same : { holding types none with links := some links } =
          holding types (some links) := rfl
      simp [finish, isOpen, linked, same, eq_comm]

/-- An open registry is finished with any links that can be checked off against its
types. -/
theorem finish_of_linkedBy {types : List TypeDef} {links : Links}
    (names : (types.map TypeDef.name).Nodup) (linkedBy : (holding types none).LinkedBy links) :
    (holding types none).finish = (.ok (), holding types (some links)) := by
  have linked := (link_ok_iff_linkedBy (holding_inStep names none) links).mpr linkedBy
  exact (finish_ok_iff _ _).mpr (.inr ⟨rfl, links, linked, rfl⟩)

/-- A registry is made with any links that can be checked off against its types. -/
theorem ofList_of_linkedBy {types : List TypeDef} {links : Links}
    (checked : (types.map TypeDef.name).Nodup ∧
      (∀ type ∈ types, (type.members.map Member.name).Nodup) ∧
      (holding types none).LinkedBy links) :
    ofList types = .ok (holding types (some links)) := by
  obtain ⟨names, members, linkedBy⟩ := checked
  have linked := (link_ok_iff_linkedBy (holding_inStep names none) links).mpr linkedBy
  exact (ofList_ok_iff types _).mpr ⟨names, members, links, linked, rfl⟩

/-- Making a registry succeeds exactly on well-formed types. -/
theorem ofList_succeeds_iff (types : List TypeDef) :
    (∃ registry, ofList types = .ok registry) ↔ WellFormedTypes types := by
  simp only [ofList_ok_iff]
  constructor
  · rintro ⟨_, names, members, links, linked, _⟩
    obtain ⟨references, abstracts, acyclic⟩ :=
      (link_succeeds_iff (holding_inStep names none)).mp ⟨links, linked⟩
    exact ⟨names, members, references, abstracts, acyclic⟩
  · rintro ⟨names, members, references, abstracts, acyclic⟩
    obtain ⟨links, linked⟩ :=
      (link_succeeds_iff (holding_inStep names none)).mpr ⟨references, abstracts, acyclic⟩
    exact ⟨_, names, members, links, linked, rfl⟩

/-- The registry of a list of types is finished. -/
theorem ofList_finished {types : List TypeDef} (made : ofList types = .ok registry) :
    registry.types = types ∧ ∃ links, registry.Finished links := by
  obtain ⟨names, _, links, linked, rfl⟩ := (ofList_ok_iff types registry).mp made
  have inStep := holding_inStep names (some links)
  exact ⟨rfl, links, inStep, rfl, link_faithful inStep linked⟩

/-- Taking types in one after the other leads from a registry that can come about
to another one, even if some type is refused. -/
theorem Reachable.registerAll (reachable : registry.Reachable) (types : List TypeDef) :
    (registry.registerAll types).2.Reachable := by
  induction types generalizing registry with
  | nil => exact reachable
  | cons type types inductionHypothesis =>
    have step := reachable.registered type
    rw [Registry.registerAll]
    rcases taken : registry.register type with ⟨answer, next⟩
    rw [taken] at step
    cases answer with
    | error fault => exact step
    | ok id => exact inductionHypothesis step

/-- The registry of a list of types can come about. -/
theorem ofList_reachable {types : List TypeDef} (made : ofList types = .ok registry) :
    registry.Reachable := by
  have taken := (Reachable.empty.registerAll types).finished
  rw [ofList] at made
  rcases run : Registry.registerAll {} types with ⟨answer, reached⟩
  rw [run] at made taken
  cases answer with
  | error fault => cases made
  | ok ids =>
    rcases last : reached.finish with ⟨outcome, final⟩
    rw [last] at taken
    simp only [last] at made
    cases outcome with
    | error fault => cases made
    | ok _ => exact Except.ok.inj made ▸ taken

end Registry

end Taxonomy
