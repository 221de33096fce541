import Taxonomy.Proofs.Growth
import Taxonomy.Slot

/-!
# Slots of a finished registry

Every member that refers to a type is held in a slot, and in a finished registry
the type it refers to is declared. Collecting the slots of declared types therefore
cannot fail, and the slot of a member is given by what its reference means.
-/
namespace Taxonomy

/-- The target of a member is what its reference means. -/
theorem Registry.Finished.memberTarget_ok {registry : Registry} {links : Links}
    (finished : registry.Finished links) {id : TypeId} {type : TypeDef}
    (found : registry.types[id]? = some type) {index : Nat} {member : Member}
    (listed : type.members[index]? = some member) :
    ∃ target, registry.memberTarget id index = .ok target ∧
      Resolved registry.types member.kind.target? target := by
  obtain ⟨targets, entry, each⟩ := Outcome.forall₂_at finished.faithful.targets found
  obtain ⟨target, place, resolved⟩ := Outcome.forall₂_at each listed
  refine ⟨target, ?_, resolved⟩
  have inside : id < registry.types.length := (List.getElem?_eq_some_iff.mp found).1
  rw [memberTarget, Outcome.bind_ok_iff]
  refine ⟨links, finished.linksFor_ok inside, ?_⟩
  simp [Outcome.pure_ok_iff, entry, place]

namespace Slot

variable {registry : Registry} {links : Links}

/-- The slot of a kind for a declared type, if there is a kind and a type. -/
def ofTarget (registry : Registry) (settings : Settings) (kind : Option SlotKind)
    (target : Option TypeId) : Option Slot := do
  let kind ← kind
  let id ← target
  let type ← registry.type? id
  return make settings kind id type

/-- A declared type has a slot of each kind. -/
theorem ofTarget_declared (settings : Settings) (kind : SlotKind) {id : TypeId} {type : TypeDef}
    (found : registry.types[id]? = some type) :
    ofTarget registry settings (some kind) (some id) = some (make settings kind id type) := by
  simp [ofTarget, Registry.type?, found]

/-- The slot of a member is the one for what its reference means. -/
theorem ofMember_ok (finished : registry.Finished links) (settings : Settings) {id : TypeId}
    {type : TypeDef} (found : registry.types[id]? = some type) {index : Nat} {member : Member}
    (listed : type.members[index]? = some member) :
    ∃ target, Resolved registry.types member.kind.target? target ∧
      ofMember registry settings id (member, index) =
        .ok (ofTarget registry settings member.kind.slot? target) := by
  obtain ⟨target, given, resolved⟩ := finished.memberTarget_ok found listed
  refine ⟨target, resolved, ?_⟩
  rw [ofMember]
  cases member.kind.slot? with
  | none => rfl
  | some kind =>
    cases target with
    | none => simp [given, ofTarget, bind, Except.bind, pure, Except.pure]
    | some target =>
      have declared := resolved_inside resolved
      have there : registry.types[target]? = some registry.types[target] :=
        List.getElem?_eq_getElem declared
      have known := (registry.type_ok_iff target _).mpr there
      rw [ofTarget_declared settings kind there]
      simp [given, known, bind, Except.bind, pure, Except.pure]

/-- The slots of a declared type are those of its members. -/
theorem ofType_eq (settings : Settings) {id : TypeId} {type : TypeDef}
    (found : registry.types[id]? = some type) :
    ofType registry settings id =
      (type.members.zipIdx.mapM (ofMember registry settings id)).map
        (List.filterMap fun slot => slot) := by
  rw [ofType, (registry.type_ok_iff id type).mpr found]
  rfl

/-- The slots of a declared type can be collected. -/
theorem ofType_succeeds (finished : registry.Finished links) (settings : Settings) {id : TypeId}
    (inside : id < registry.types.length) : ∃ slots, ofType registry settings id = .ok slots := by
  have found : registry.types[id]? = some registry.types[id] := List.getElem?_eq_getElem inside
  have each : ∀ entry ∈ registry.types[id].members.zipIdx,
      ∃ slot, ofMember registry settings id entry = .ok slot := by
    rintro ⟨member, index⟩ listed
    obtain ⟨target, _, success⟩ :=
      ofMember_ok finished settings found (List.mem_zipIdx_iff_getElem?.mp listed)
    exact ⟨_, success⟩
  obtain ⟨slots, success⟩ := (Outcome.mapM_succeeds_iff _ _).mpr each
  exact ⟨_, by rw [ofType_eq settings found, success]; rfl⟩

/-- The slots of a tree of declared types can be collected. -/
theorem collect_succeeds (finished : registry.Finished links) (settings : Settings) {tree : Tree}
    (declared : ∀ id ∈ tree.ids, id < registry.types.length) :
    ∃ slots, collect registry tree settings = .ok slots := by
  obtain ⟨slots, success⟩ := (Outcome.mapM_succeeds_iff _ _).mpr fun id member =>
    ofType_succeeds finished settings (declared id member)
  simp only [collect, Outcome.bind_ok_iff, Outcome.pure_ok_iff]
  exact ⟨_, slots, success, rfl⟩

/-- The slot of a member is the one of its kind for a declared type. -/
theorem ofMember_made {settings : Settings} {id : TypeId} {member : Member × Nat} {slot : Slot}
    (success : ofMember registry settings id member = .ok (some slot)) :
    ∃ type, registry.types[slot.target]? = some type ∧
      slot = make settings slot.kind slot.target type := by
  rw [ofMember] at success
  cases held : member.1.kind.slot? with
  | none => simp [held] at success
  | some kind =>
    simp only [held, Outcome.bind_ok_iff] at success
    obtain ⟨target, _, success⟩ := success
    cases target with
    | none => simp [pure, Except.pure] at success
    | some target =>
      simp only [Outcome.bind_ok_iff, Outcome.pure_ok_iff, Option.some.injEq,
        Registry.type_ok_iff] at success
      obtain ⟨type, found, rfl⟩ := success
      cases kind with
      | single => exact ⟨type, found, rfl⟩
      | list => exact ⟨type, found, rfl⟩

/-- Only slots of the given list come first. -/
theorem firsts_sublist (seen : List String) (slots : List Slot) :
    (firsts seen slots).Sublist slots := by
  induction slots generalizing seen with
  | nil => exact List.Sublist.refl _
  | cons slot slots inductionHypothesis =>
    rw [firsts]
    split
    · exact (inductionHypothesis seen).cons slot
    · exact (inductionHypothesis _).cons_cons slot

/-- The slots of a tree are those of their kinds for declared types. -/
theorem collect_made {settings : Settings} {tree : Tree} {slots : List Slot}
    (collected : collect registry tree settings = .ok slots) {slot : Slot}
    (member : slot ∈ slots) :
    ∃ type, registry.types[slot.target]? = some type ∧
      slot = make settings slot.kind slot.target type := by
  simp only [collect, Outcome.bind_ok_iff, Outcome.pure_ok_iff] at collected
  obtain ⟨groups, each, rfl⟩ := collected
  have listed : slot ∈ groups.flatten :=
    (firsts_sublist [] groups.flatten).subset (List.mem_mergeSort.mp member)
  obtain ⟨group, inGroups, inGroup⟩ := List.mem_flatten.mp listed
  obtain ⟨id, _, typed⟩ := Outcome.mem_of_mapM each inGroups
  simp only [ofType, Outcome.bind_ok_iff, Outcome.pure_ok_iff] at typed
  obtain ⟨type, _, found, members, rfl⟩ := typed
  obtain ⟨_, inFound, rfl⟩ := List.mem_filterMap.mp inGroup
  obtain ⟨entry, _, success⟩ := Outcome.mem_of_mapM members inFound
  exact ofMember_made success

/-- The slots of a tree are for declared types. -/
theorem collect_inside {settings : Settings} {tree : Tree} {slots : List Slot}
    (collected : collect registry tree settings = .ok slots) :
    ∀ slot ∈ slots, slot.target < registry.types.length := by
  intro slot member
  obtain ⟨type, found, _⟩ := collect_made collected member
  exact (List.getElem?_eq_some_iff.mp found).1

end Slot

end Taxonomy
