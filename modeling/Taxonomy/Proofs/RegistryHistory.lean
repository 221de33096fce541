import Taxonomy.Proofs.Registration

/-!
# The history of a registry

A registry lives through calls that take types in and that finish it. Some of the
calls fail, and the history goes on after them. A type is kept in two places: its name
in a symbol table, which hands out its number, and its declaration in a list, in which
the number is a position. The two would part for good as soon as the name of a refused
type was interned, or the declaration of an accepted one was lost.

They never do. At every point of every history each type is known under one number and
one name, and a number that was handed out keeps its type. A call that fails has changed
nothing in either place, except that taking in several types keeps those before the
refused one. From the first finish on nothing changes any more.
-/
namespace Taxonomy

namespace Registry

/-- A call that can change a registry. -/
inductive Call where
  | register (type : TypeDef)
  | registerAll (types : List TypeDef)
  | finish

/-- What a call answers, and the registry after it. -/
def answer (registry : Registry) : Call → Except Fault (List TypeId) × Registry
  | .register type => ((registry.register type).1.map ([·]), (registry.register type).2)
  | .registerAll types => registry.registerAll types
  | .finish => (registry.finish.1.map fun _ => [], registry.finish.2)

/-- The registry after calls in their order, whether they succeed or fail. -/
def after (registry : Registry) (calls : List Call) : Registry :=
  Outcome.run answer registry calls

/-- The symbol table and the declarations say the same: each type is known under one
number and one name, and nothing else is known. -/
structure Indexed (registry : Registry) : Prop where
  names : registry.names.texts = registry.types.map TypeDef.name
  known : ∀ id < registry.types.length, ∃ type, registry.type id = .ok type ∧
    registry.name id = .ok type.name ∧ registry.id type.name = .ok id
  distinct : (registry.types.map TypeDef.name).Nodup
  unknown : ∀ name, name ∉ registry.types.map TypeDef.name →
    registry.id name = .error (.unknownType name none)
  unused : ∀ id, registry.types.length ≤ id →
    registry.type id = .error (.unknownId id) ∧ registry.name id = .error (.unknownId id)

variable {registry : Registry}

/-- A registry in step knows each of its types under one number and one name. -/
theorem InStep.indexed (inStep : registry.InStep) : registry.Indexed where
  names := inStep
  known id inside := by
    have found : registry.types[id]? = some registry.types[id] := List.getElem?_eq_getElem inside
    refine ⟨registry.types[id], (type_ok_iff registry id _).mpr found, ?_, ?_⟩
    · exact (name_ok_iff registry id _).mpr (inStep.name?_inside inside)
    · exact (id_ok_iff registry _ id).mpr ((inStep.find?_some_iff _ id).mpr ⟨_, found, rfl⟩)
  distinct := inStep.distinct
  unknown name absent := by
    rw [← inStep.find?_isSome_iff, Option.not_isSome_iff_eq_none] at absent
    rw [Registry.id, absent]
  unused id outside := by
    have absent : registry.types[id]? = none := List.getElem?_eq_none outside
    have unnamed : registry.name? id = none := by rw [inStep.name?_eq, absent, Option.map_none]
    exact ⟨by rw [Registry.type, type?, absent], by rw [Registry.name, unnamed]⟩

/-- Registering changes nothing, or adds the type and its name to an open registry. -/
theorem register_cases (registry : Registry) (type : TypeDef) :
    (∃ fault, registry.register type = (.error fault, registry)) ∨
      registry.links = none ∧ ∃ id, registry.register type = (.ok id, registry.extend [type]) := by
  rcases taken : registry.register type with ⟨answer, next⟩
  cases answer with
  | error fault =>
    have same : next = registry := by
      simpa [taken] using register_refused (congrArg Prod.fst taken)
    exact Or.inl ⟨fault, by rw [same]⟩
  | ok id =>
    rw [register, isFinished] at taken
    split at taken
    · cases taken
    · next isOpen =>
      split at taken
      · cases taken
      · split at taken
        · cases taken
        · obtain ⟨_, rfl⟩ := Prod.mk.inj taken
          exact Or.inr ⟨by simpa using isOpen, id, rfl⟩

/-- Taking several types in changes nothing, or adds types to an open registry. -/
theorem registerAll_cases (registry : Registry) (types : List TypeDef) :
    (registry.registerAll types).2 = registry ∨ registry.links = none ∧
      ∃ taken, (registry.registerAll types).2 = registry.extend taken := by
  induction types generalizing registry with
  | nil => exact Or.inl rfl
  | cons type types inductionHypothesis =>
    rw [registerAll]
    rcases register_cases registry type with ⟨fault, refused⟩ | ⟨isOpen, id, taken⟩
    · rw [refused]
      exact Or.inl rfl
    · rw [taken]
      refine Or.inr ⟨isOpen, ?_⟩
      rcases inductionHypothesis (registry.extend [type]) with same | ⟨_, others, reached⟩
      · exact ⟨[type], same⟩
      · exact ⟨type :: others, by rw [reached, extend_append]; rfl⟩

/-- A call changes nothing, or adds types to an open registry, or records the links of
an open registry. -/
theorem answer_cases (registry : Registry) (call : Call) :
    (registry.answer call).2 = registry ∨ registry.links = none ∧
      ((∃ taken, (registry.answer call).2 = registry.extend taken) ∨
        ∃ links, (registry.answer call).2 = { registry with links := some links }) := by
  cases call with
  | register type =>
    rcases register_cases registry type with ⟨fault, refused⟩ | ⟨isOpen, id, taken⟩
    · exact Or.inl (by rw [answer, refused])
    · exact Or.inr ⟨isOpen, Or.inl ⟨[type], by rw [answer, taken]⟩⟩
  | registerAll types =>
    rcases registerAll_cases registry types with same | ⟨isOpen, grown⟩
    · exact Or.inl same
    · exact Or.inr ⟨isOpen, Or.inl grown⟩
  | finish =>
    rcases finished : registry.finish with ⟨answer, next⟩
    cases answer with
    | error fault =>
      refine Or.inl ?_
      exact finish_refused (congrArg Prod.fst finished)
    | ok _ =>
      have after : (registry.answer .finish).2 = next := congrArg Prod.snd finished
      rw [after]
      rcases (finish_ok_iff registry next).mp finished with ⟨_, same⟩ | ⟨isOpen, links, _, linked⟩
      · exact Or.inl same
      · exact Or.inr ⟨isOpen, Or.inr ⟨links, linked⟩⟩

/-- A call leads from a registry that can come about to another one. -/
theorem Reachable.answer (reachable : registry.Reachable) (call : Call) :
    (registry.answer call).2.Reachable := by
  cases call with
  | register type => exact reachable.registered type
  | registerAll types => exact reachable.registerAll types
  | finish => exact reachable.finished

/-- Every history leads to a registry that can come about. -/
theorem after_reachable (calls : List Call) : (after {} calls).Reachable :=
  Outcome.run_preserves (fun _ call reachable => reachable.answer call) calls Reachable.empty

/-- After a history that goes on the registry has been reached by one history. -/
theorem after_append (registry : Registry) (calls later : List Call) :
    registry.after (calls ++ later) = (registry.after calls).after later :=
  List.foldl_append

/-- A call leaves the types where they are: new ones come after them. -/
theorem answer_types (registry : Registry) (call : Call) :
    registry.types <+: (registry.answer call).2.types := by
  rcases answer_cases registry call with same | ⟨_, ⟨taken, grown⟩ | ⟨links, linked⟩⟩
  · have kept : (registry.answer call).2.types = registry.types := by rw [same]
    exact kept.symm ▸ List.prefix_refl registry.types
  · rw [grown]
    exact List.prefix_append _ _
  · have kept : (registry.answer call).2.types = registry.types := by rw [linked]
    exact kept.symm ▸ List.prefix_refl registry.types

/-- A type keeps its number over a whole history. -/
theorem after_type {id : TypeId} {type : TypeDef} (known : registry.type id = .ok type)
    (calls : List Call) : (registry.after calls).type id = .ok type := by
  have kept : registry.types <+: (registry.after calls).types :=
    Outcome.run_preserves (motive := fun reached : Registry => registry.types <+: reached.types)
      (fun reached call earlier => earlier.trans (answer_types reached call)) calls
      (List.prefix_refl _)
  rw [type_ok_iff] at known ⊢
  obtain ⟨inside, found⟩ := List.getElem?_eq_some_iff.mp known
  rw [← found]
  exact List.prefix_iff_getElem?.mp kept id inside

/-- A finished registry is changed by no call. -/
theorem after_finished (finished : registry.links ≠ none) (calls : List Call) :
    registry.after calls = registry := by
  refine Outcome.run_preserves (motive := fun reached : Registry => reached = registry) ?_ calls rfl
  rintro reached call rfl
  rcases answer_cases reached call with same | ⟨isOpen, _⟩
  · exact same
  · exact absurd isOpen finished

/-- Where several types are not all taken in, those before the first refused one
are. -/
theorem registerAll_refused (registry : Registry) (types : List TypeDef) (fault : Fault)
    (refused : (registry.registerAll types).1 = .error fault) :
    ∃ before type rest ids, types = before ++ type :: rest ∧
      registry.registerAll before = (.ok ids, (registry.registerAll types).2) ∧
      ((registry.registerAll types).2.register type).1 = .error fault := by
  induction types generalizing registry with
  | nil => simp [registerAll] at refused
  | cons type types inductionHypothesis =>
    rw [registerAll] at refused ⊢
    rcases register_cases registry type with ⟨other, stopped⟩ | ⟨_, id, taken⟩
    · rw [stopped] at refused ⊢
      obtain rfl : other = fault := Except.error.inj refused
      exact ⟨[], type, types, [], rfl, rfl, by rw [stopped]⟩
    · rw [taken] at refused ⊢
      have later : ((registry.extend [type]).registerAll types).1 = .error fault := by
        cases outcome : ((registry.extend [type]).registerAll types).1 with
        | error other => simpa [outcome, Except.map] using refused
        | ok ids => simp [outcome, Except.map] at refused
      obtain ⟨before, stopped, rest, ids, rfl, reached, stops⟩ := inductionHypothesis _ later
      refine ⟨type :: before, stopped, rest, id :: ids, rfl, ?_, stops⟩
      rw [registerAll, taken]
      dsimp only
      rw [reached]
      rfl

/-- Types that are all taken in stand last, in their order, and have the numbers from the
next one on. -/
theorem InStep.registerAll_ok (inStep : registry.InStep) {types : List TypeDef}
    {ids : List TypeId} (taken : (registry.registerAll types).1 = .ok ids) :
    ids = List.range' registry.types.length types.length ∧
      (registry.registerAll types).2 = registry.extend types := by
  cases types with
  | nil =>
    obtain rfl : [] = ids := Except.ok.inj taken
    exact ⟨rfl, by simp [registerAll, Registry.extend, SymbolTable.internAll]⟩
  | cons type types =>
    have isOpen : registry.links = none := by
      rcases register_cases registry type with ⟨fault, refused⟩ | ⟨isOpen, _⟩
      · simp [registerAll, refused] at taken
      · exact isOpen
    have whole : registry.registerAll (type :: types) =
        (.ok ids, (registry.registerAll (type :: types)).2) := Prod.ext taken rfl
    obtain ⟨_, _, numbers, grown⟩ := (inStep.registerAll_ok_iff isOpen _ _ _).mp whole
    exact ⟨numbers, grown⟩

/-- Taking several types in is taking them in one after the other. -/
theorem registerAll_after (registry : Registry) (types : List TypeDef) (ids : List TypeId)
    (taken : (registry.registerAll types).1 = .ok ids) :
    registry.after (types.map .register) = (registry.registerAll types).2 := by
  induction types generalizing registry ids with
  | nil => rfl
  | cons type types inductionHypothesis =>
    have step : registry.after ((type :: types).map .register) =
        (registry.register type).2.after (types.map .register) := rfl
    rw [registerAll] at taken ⊢
    rcases register_cases registry type with ⟨fault, refused⟩ | ⟨_, id, accepted⟩
    · rw [refused] at taken
      cases taken
    · rw [step, accepted]
      rw [accepted] at taken
      cases outcome : ((registry.extend [type]).registerAll types).1 with
      | error fault => simp [outcome, Except.map] at taken
      | ok others => exact inductionHypothesis _ others outcome

/-- A type comes in exactly if the registry is open, its name is new and its members have
names of their own. -/
theorem InStep.register_accepts_iff (inStep : registry.InStep) (type : TypeDef) :
    (∃ id, (registry.register type).1 = .ok id) ↔
      registry.isFinished = false ∧ type.name ∉ registry.types.map TypeDef.name ∧
        (type.members.map Member.name).Nodup := by
  have isOpen : registry.isFinished = false ↔ registry.links = none := by simp [isFinished]
  rw [isOpen]
  constructor
  · rintro ⟨id, taken⟩
    obtain ⟨unlinked, fresh, members, _⟩ :=
      (inStep.register_ok_iff type id _).mp (Prod.ext taken rfl)
    exact ⟨unlinked, fresh, members⟩
  · rintro ⟨unlinked, fresh, members⟩
    have taken := (inStep.register_ok_iff type _ _).mpr ⟨unlinked, fresh, members, rfl, rfl⟩
    exact ⟨_, congrArg Prod.fst taken⟩

/-- Finishing keeps the types and their names, and afterwards the registry is finished. -/
theorem finish_closes {next : Registry} (finished : registry.finish = (.ok (), next)) :
    next.types = registry.types ∧ next.names = registry.names ∧ next.links ≠ none := by
  rcases (finish_ok_iff registry next).mp finished with ⟨there, rfl⟩ | ⟨_, links, _, rfl⟩
  · exact ⟨rfl, rfl, Option.isSome_iff_ne_none.mp there⟩
  · exact ⟨rfl, rfl, by simp⟩

/-- A finished registry can be finished again and takes no type in. -/
theorem finished_refuses (closed : registry.links ≠ none) :
    registry.finish = (.ok (), registry) ∧
      ∀ type, registry.register type = (.error (.alreadyFinished type.name), registry) := by
  have isFinished : registry.isFinished = true := Option.isSome_iff_ne_none.mpr closed
  refine ⟨(finish_ok_iff registry registry).mpr (Or.inl ⟨isFinished, rfl⟩), fun type => ?_⟩
  rw [register, if_pos isFinished]

end Registry

/-- At every point of a history the names and the declarations of a registry agree, and
each type is known under one number and one name.

A type comes in exactly if the registry is open, its name is new and its members have
names of their own. It then stands last under the next number, and its name alone is
interned. Several types come in one after the other, in their order. A number that was
handed out keeps its type and its name over every further history.

A type that is refused and a registry that cannot be finished leave everything as it was.
If one of several types is refused, exactly those before it have come in. Once finished,
the registry can be finished again, takes no type in, and never changes.

Proof: every call leaves the registry alone, extends it by types of new names, or adds
links to it. Each of these keeps the names in step with the declarations, so the whole
history does; and since types are only ever added at the end, and only to an open
registry, positions never shift and a finished registry stays. -/
theorem registry_history_laws (calls : List Registry.Call) (registry : Registry)
    (reached : Registry.after {} calls = registry) :
    registry.Indexed ∧
    (∀ type, (∃ id, (registry.register type).1 = .ok id) ↔
      registry.isFinished = false ∧ type.name ∉ registry.types.map TypeDef.name ∧
        (type.members.map Member.name).Nodup) ∧
    (∀ type id, (registry.register type).1 = .ok id →
      id = registry.types.length ∧
      (registry.register type).2.types = registry.types ++ [type] ∧
      (registry.register type).2.names = (registry.names.intern type.name).2 ∧
      (registry.register type).2.links = none) ∧
    (∀ types ids, (registry.registerAll types).1 = .ok ids →
      ids = List.range' registry.types.length types.length ∧
      (registry.registerAll types).2.types = registry.types ++ types ∧
      (registry.registerAll types).2 = registry.after (types.map .register)) ∧
    (∀ later id type, registry.type id = .ok type →
      (registry.after later).type id = .ok type ∧
      (registry.after later).name id = .ok type.name ∧
      (registry.after later).id type.name = .ok id) ∧
    (∀ type fault, (registry.register type).1 = .error fault →
      (registry.register type).2 = registry) ∧
    (∀ fault, registry.finish.1 = .error fault → registry.finish.2 = registry) ∧
    (∀ types fault, (registry.registerAll types).1 = .error fault →
      ∃ before type rest ids, types = before ++ type :: rest ∧
        (registry.registerAll before).1 = .ok ids ∧
        (registry.registerAll types).2.types = registry.types ++ before ∧
        (registry.registerAll types).2 = registry.after (before.map .register) ∧
        ((registry.after (before.map .register)).register type).1 = .error fault) ∧
    (registry.finish.1 = .ok () →
      registry.finish.2.types = registry.types ∧
      registry.finish.2.names = registry.names ∧
      registry.finish.2.finish = (.ok (), registry.finish.2) ∧
      (∀ type, registry.finish.2.register type =
        (.error (.alreadyFinished type.name), registry.finish.2)) ∧
      ∀ later, registry.finish.2.after later = registry.finish.2) := by
  have inStep : registry.InStep := reached ▸ (Registry.after_reachable calls).sound.inStep
  refine ⟨inStep.indexed, inStep.register_accepts_iff, ?_, ?_, ?_,
    fun _ _ => Registry.register_refused, fun _ => Registry.finish_refused, ?_, ?_⟩
  · intro type id taken
    have whole : registry.register type = (.ok id, (registry.register type).2) :=
      Prod.ext taken rfl
    obtain ⟨isOpen, _, _, next, grown⟩ := (inStep.register_ok_iff type id _).mp whole
    rw [grown]
    exact ⟨next, rfl, rfl, isOpen⟩
  · intro types ids taken
    obtain ⟨numbers, grown⟩ := inStep.registerAll_ok taken
    exact ⟨numbers, by rw [grown]; rfl, (registry.registerAll_after types ids taken).symm⟩
  · intro later id type known
    have kept := Registry.after_type known later
    have reachable := Registry.after_reachable (calls ++ later)
    rw [Registry.after_append, reached] at reachable
    have indexed := reachable.sound.inStep.indexed
    have inside := (List.getElem?_eq_some_iff.mp ((Registry.type_ok_iff _ _ _).mp kept)).1
    obtain ⟨other, found, named, numbered⟩ := indexed.known id inside
    obtain rfl : other = type := Except.ok.inj (found.symm.trans kept)
    exact ⟨kept, named, numbered⟩
  · intro types fault refused
    obtain ⟨before, type, rest, ids, split, taken, stops⟩ :=
      registry.registerAll_refused types fault refused
    have accepted : (registry.registerAll before).1 = .ok ids := congrArg Prod.fst taken
    have steps : (registry.registerAll types).2 = registry.after (before.map .register) := by
      rw [registry.registerAll_after before ids accepted, taken]
    refine ⟨before, type, rest, ids, split, accepted, ?_, steps, steps ▸ stops⟩
    rw [← congrArg Prod.snd taken, (inStep.registerAll_ok accepted).2]
    rfl
  · intro succeeded
    have whole : registry.finish = (.ok (), registry.finish.2) := Prod.ext succeeded rfl
    obtain ⟨types, names, closed⟩ := Registry.finish_closes whole
    obtain ⟨again, refuses⟩ := Registry.finished_refuses closed
    exact ⟨types, names, again, refuses, Registry.after_finished closed⟩

/-- Terms are the root of a small tree. -/
def termType : TypeDef :=
  { name := "Term", isFinal := false }

/-- A number derives from literals, which are declared after it. -/
def digitType : TypeDef :=
  { name := "Digit", base := some (.named "Literal") }

/-- A pair whose two members share a name is refused. -/
def brokenPair : TypeDef :=
  { name := "Pair", members := [.data "part" "Term", .data "part" "Term"] }

/-- Literals are terms. -/
def literalType : TypeDef :=
  { name := "Literal", base := some (.named "Term"), isFinal := false }

/-- Terms come in once, although they are registered again; of the three types that
follow the first comes in, and the registry cannot be finished yet. -/
def draftCalls : List Registry.Call :=
  [.register termType, .register termType, .registerAll [digitType, brokenPair, literalType],
    .finish]

/-- The registry after the draft. -/
def draftRegistry : Registry :=
  .holding [termType, digitType] none

/-- The registry of the terms once the literals are declared and it is finished. -/
def termRegistry : Registry :=
  .holding [termType, digitType, literalType]
    (some {
      bases := [none, some 2, some 0]
      derived := [[2], [], [1]]
      targets := [[], [], []] })

/-- After a draft with three refusals the two accepted types have the first two numbers,
and their names are the only ones that are interned. They keep them when the missing type
comes in, and once the registry is finished nothing more does. -/
theorem registry_history_draft :
    Registry.after {} draftCalls = draftRegistry ∧ draftRegistry.Indexed ∧
      draftRegistry.names.texts = ["Term", "Digit"] ∧
      draftRegistry.finish.1 = .error (.unknownType "Literal" (some "Digit")) ∧
      draftRegistry.finish.2 = draftRegistry ∧
      (draftRegistry.registerAll [literalType]).1 = .ok [2] ∧
      (draftRegistry.registerAll [literalType]).2 = draftRegistry.after [.register literalType] ∧
      draftRegistry.after [.register literalType, .finish] = termRegistry ∧
      termRegistry.type 1 = .ok digitType ∧ termRegistry.id "Digit" = .ok 1 ∧
      termRegistry.register brokenPair = (.error (.alreadyFinished "Pair"), termRegistry) ∧
      termRegistry.after [.registerAll [brokenPair], .finish, .register termType] =
        termRegistry := by
  have draft : Registry.after {} draftCalls = draftRegistry := rfl
  have refused : draftRegistry.finish.1 = .error (.unknownType "Literal" (some "Digit")) := rfl
  have added : (draftRegistry.registerAll [literalType]).1 = .ok [2] := rfl
  have finished : (Registry.holding [termType, digitType, literalType] none).finish =
      (.ok (), termRegistry) :=
    Registry.finish_of_linkedBy (by decide +kernel) (by decide +kernel)
  have later : draftRegistry.after [.register literalType, .finish] = termRegistry :=
    congrArg Prod.snd finished
  have whole :
      Registry.after {} (draftCalls ++ [.register literalType, .finish]) = termRegistry := by
    rw [Registry.after_append, draft, later]
  have again : termRegistry.finish = (.ok (), termRegistry) := rfl
  obtain ⟨indexed, _, _, several, kept, _, unfinished, _, _⟩ :=
    registry_history_laws draftCalls _ draft
  obtain ⟨_, _, _, _, _, _, _, _, closed⟩ := registry_history_laws _ _ whole
  obtain ⟨_, _, _, sealed, unchanged⟩ := closed (by rw [again])
  rw [again] at sealed unchanged
  obtain ⟨digit, _, number⟩ := kept [.register literalType, .finish] 1 digitType rfl
  rw [later] at digit number
  exact ⟨draft, indexed, indexed.names, refused, unfinished _ refused, added,
    (several _ _ added).2.2, later, digit, number, sealed brokenPair, unchanged _⟩

end Taxonomy
