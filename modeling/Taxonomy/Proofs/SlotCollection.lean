import Taxonomy.Proofs.Slots

/-!
# One slot for each way of writing

The members of a tree are those of its types, each type before those below it and the members
of one type in the order of their declaration. Slots are collected in this order: of members
whose slots are written alike the first one decides which slot it is. Afterwards the slots are
put in the order of how they are written, so that the result no longer shows which member
came first.

Whether two slots are written alike depends on the settings and on names that types are given
for the generated program. Where no two of the slots that members need are written alike, each
of them is there.
-/
namespace Taxonomy

/-- The member is held in the slot: it is a node or a list of nodes, and the slot is for the
type that its reference means. -/
inductive Member.HeldIn (registry : Registry) (settings : Settings) (member : Member) : Slot → Prop
  | node {ref : TypeRef} {target : TypeId} {type : TypeDef} (kind : member.kind = .node ref)
      (means : ref.Means registry.types target) (found : registry.type target = .ok type) :
      HeldIn registry settings member
        ⟨.single, target, settings.singleSlot ++ "<" ++ type.rendered settings.nodeStem ++ ">",
          type.visitor⟩
  | nodeList {ref : TypeRef} {target : TypeId} {type : TypeDef}
      (kind : member.kind = .nodeList ref)
      (means : ref.Means registry.types target) (found : registry.type target = .ok type) :
      HeldIn registry settings member
        ⟨.list, target, settings.listSlot ++ "<" ++ type.rendered settings.nodeStem ++ ">",
          type.visitor ++ "_list"⟩

/-- The members of the types of a tree, in the order of the types and then in their own. -/
def Tree.members (registry : Registry) (tree : Tree) : Except Fault (List Member) := do
  let groups ← tree.ids.mapM fun id => return (← registry.type id).members
  return groups.flatten

/-- The slot that a member is held in, found without regard to the type it belongs to. -/
def Member.slotIn? (registry : Registry) (settings : Settings) (member : Member) : Option Slot := do
  let ref ← member.kind.target?
  let target ← (registry.resolve member.name ref).toOption
  Slot.ofTarget registry settings member.kind.slot? (some target)

namespace Member

variable {registry : Registry}

/-- Where the reference of a member means a type, its slot is the one for this type. -/
theorem slotIn?_of_means (inStep : registry.InStep) (settings : Settings)
    {member : Member} {ref : TypeRef} (refers : member.kind.target? = some ref) {target : TypeId}
    (means : ref.Means registry.types target) :
    member.slotIn? registry settings =
      Slot.ofTarget registry settings member.kind.slot? (some target) := by
  have resolved := (Registry.resolve_ok_iff inStep member.name ref target).mpr means
  simp [slotIn?, refers, resolved, Except.toOption]

/-- A member that refers to a type is held in a slot if the type is declared. -/
theorem heldIn_of_means (settings : Settings) {member : Member} {ref : TypeRef}
    (refers : member.kind.target? = some ref) {target : TypeId}
    (means : ref.Means registry.types target) : ∃ slot, member.HeldIn registry settings slot := by
  have found := (registry.type_ok_iff target _).mpr
    (List.getElem?_eq_getElem (TypeRef.means_inside means))
  cases kind : member.kind with
  | data _ _ => simp [kind, MemberKind.target?] at refers
  | dataList _ => simp [kind, MemberKind.target?] at refers
  | node other =>
    obtain rfl : other = ref := by simpa [kind, MemberKind.target?] using refers
    exact ⟨_, .node kind means found⟩
  | nodeList other =>
    obtain rfl : other = ref := by simpa [kind, MemberKind.target?] using refers
    exact ⟨_, .nodeList kind means found⟩

/-- The search finds a slot that a member is held in. -/
theorem HeldIn.found (inStep : registry.InStep) {settings : Settings}
    {member : Member} {slot : Slot} (held : member.HeldIn registry settings slot) :
    member.slotIn? registry settings = some slot := by
  cases held with
  | node kind means found =>
    rw [slotIn?_of_means inStep settings (by rw [kind]; rfl) means, kind, MemberKind.slot?,
      Slot.ofTarget_declared settings .single ((registry.type_ok_iff _ _).mp found)]
    rfl
  | nodeList kind means found =>
    rw [slotIn?_of_means inStep settings (by rw [kind]; rfl) means, kind, MemberKind.slot?,
      Slot.ofTarget_declared settings .list ((registry.type_ok_iff _ _).mp found)]
    rfl

/-- The search finds exactly the slot that a member is held in. -/
theorem slotIn?_some_iff (inStep : registry.InStep) (settings : Settings)
    (member : Member) (slot : Slot) :
    member.slotIn? registry settings = some slot ↔ member.HeldIn registry settings slot := by
  refine ⟨fun found => ?_, HeldIn.found inStep⟩
  cases refers : member.kind.target? with
  | none => simp [slotIn?, refers] at found
  | some ref =>
    cases resolved : registry.resolve member.name ref with
    | error fault => simp [slotIn?, refers, resolved, Except.toOption] at found
    | ok target =>
      have means := (Registry.resolve_ok_iff inStep member.name ref target).mp resolved
      obtain ⟨other, held⟩ := heldIn_of_means settings refers means
      obtain rfl := Option.some.inj (found.symm.trans (held.found inStep))
      exact held

/-- Kind and type determine the slot, whatever member is held in it. -/
theorem HeldIn.eq_of_kind_target {settings : Settings} {left right : Member} {first second : Slot}
    (leftHeld : left.HeldIn registry settings first)
    (rightHeld : right.HeldIn registry settings second) (kinds : first.kind = second.kind)
    (targets : first.target = second.target) : first = second := by
  cases leftHeld with
  | node _ _ found =>
    cases rightHeld with
    | node _ _ there =>
      obtain rfl := targets
      obtain rfl := Except.ok.inj (found.symm.trans there)
      rfl
    | nodeList _ _ _ => cases kinds
  | nodeList _ _ found =>
    cases rightHeld with
    | node _ _ _ => cases kinds
    | nodeList _ _ there =>
      obtain rfl := targets
      obtain rfl := Except.ok.inj (found.symm.trans there)
      rfl

/-- In a finished registry every member of a type that refers to one is held in a slot. -/
theorem heldIn_of_child {links : Links} (finished : registry.Finished links) (settings : Settings)
    {id : TypeId} {type : TypeDef} (found : registry.types[id]? = some type) {member : Member}
    (listed : member ∈ type.members) (isChild : member.kind.isChild = true) :
    ∃ slot, member.HeldIn registry settings slot := by
  obtain ⟨ref, refers⟩ := Option.isSome_iff_exists.mp isChild
  obtain ⟨index, place⟩ := List.mem_iff_getElem?.mp listed
  obtain ⟨target, _, resolved⟩ := finished.memberTarget_ok found place
  rw [refers] at resolved
  obtain ⟨meant, _, means⟩ := resolved
  exact heldIn_of_means settings refers means

end Member

/-- The members of a tree are members of declared types. -/
theorem Tree.mem_members {registry : Registry} {tree : Tree} {members : List Member}
    (listed : tree.members registry = .ok members) {member : Member} (among : member ∈ members) :
    ∃ (id : TypeId) (type : TypeDef), registry.types[id]? = some type ∧ member ∈ type.members := by
  rw [Tree.members, Outcome.bind_ok_iff] at listed
  obtain ⟨groups, each, flattened⟩ := listed
  rw [← (Outcome.pure_ok_iff _ _).mp flattened] at among
  obtain ⟨group, inGroups, inGroup⟩ := List.mem_flatten.mp among
  obtain ⟨id, _, typed⟩ := Outcome.mem_of_mapM each inGroups
  simp only [Outcome.bind_ok_iff, Outcome.pure_ok_iff, Registry.type_ok_iff] at typed
  obtain ⟨type, found, rfl⟩ := typed
  exact ⟨id, type, found, inGroup⟩

namespace Slot

/-- A slot comes first exactly if it was not seen before and is the first of the list that is
written as it is. -/
theorem mem_firsts_iff (seen : List String) (slots : List Slot) (slot : Slot) :
    slot ∈ firsts seen slots ↔
      slot.rendered ∉ seen ∧
        (slots.find? fun other => other.rendered == slot.rendered) = some slot := by
  induction slots generalizing seen with
  | nil => simp [firsts]
  | cons first rest inductionHypothesis =>
    rw [firsts, List.find?_cons]
    by_cases met : first.rendered ∈ seen
    · rw [if_pos met, inductionHypothesis]
      refine and_congr_right fun unseen => ?_
      have different : first.rendered ≠ slot.rendered := fun same => unseen (same ▸ met)
      rw [beq_eq_false_iff_ne.mpr different]
    · rw [if_neg met, List.mem_cons, inductionHypothesis, List.mem_cons, not_or]
      by_cases same : first.rendered = slot.rendered
      · simp only [same, not_true_eq_false, false_and, or_false, beq_self_eq_true,
          Option.some.injEq]
        constructor
        · rintro rfl
          exact ⟨met, rfl⟩
        · exact fun both => both.2.symm
      · have other : slot ≠ first := fun equal => same (equal ▸ rfl)
        rw [beq_eq_false_iff_ne.mpr same]
        simp [other, Ne.symm same]

/-- No two of the first slots are written alike. -/
theorem firsts_fresh (seen : List String) (slots : List Slot) :
    Fresh seen ((firsts seen slots).map rendered) := by
  induction slots generalizing seen with
  | nil => simp [firsts, Fresh]
  | cons first rest inductionHypothesis =>
    rw [firsts]
    by_cases met : first.rendered ∈ seen
    · rw [if_pos met]
      exact inductionHypothesis seen
    · rw [if_neg met, List.map_cons, fresh_cons_iff]
      exact ⟨met, inductionHypothesis _⟩

/-- Every way of writing has a first slot. -/
theorem exists_first {slots : List Slot} {slot : Slot} (member : slot ∈ slots) :
    ∃ first ∈ firsts [] slots, first.rendered = slot.rendered := by
  have there : (slots.find? fun other => other.rendered == slot.rendered).isSome = true := by
    rw [List.find?_isSome]
    exact ⟨slot, member, beq_self_eq_true _⟩
  obtain ⟨first, found⟩ := Option.isSome_iff_exists.mp there
  have same : first.rendered = slot.rendered := by simpa using List.find?_some found
  refine ⟨first, (mem_firsts_iff [] slots first).mpr ⟨List.not_mem_nil, ?_⟩, same⟩
  rw [same]
  exact found

/-- Of slots that elements of a list are given, those come first whose element has none
before it with a slot that is written alike. -/
theorem mem_firsts_filterMap_iff {α : Type} (given : α → Option Slot) (elements : List α)
    (slot : Slot) :
    slot ∈ firsts [] (elements.filterMap given) ↔
      ∃ before element after, elements = before ++ element :: after ∧ given element = some slot ∧
        ∀ earlier ∈ before, ∀ other, given earlier = some other →
          other.rendered ≠ slot.rendered := by
  rw [mem_firsts_iff, List.find?_filterMap, Option.bind_eq_some_iff]
  simp only [List.not_mem_nil, not_false_eq_true, true_and, List.find?_eq_some_iff_append]
  constructor
  · rintro ⟨element, ⟨_, before, after, split, unlike⟩, isGiven⟩
    refine ⟨before, element, after, split, isGiven, ?_⟩
    intro earlier member other isOther
    simpa [isOther] using unlike earlier member
  · rintro ⟨before, element, after, split, isGiven, unlike⟩
    refine ⟨element, ⟨by simp [isGiven], before, after, split, ?_⟩, isGiven⟩
    intro earlier member
    cases isOther : given earlier with
    | none => rfl
    | some other => simpa using unlike earlier member other isOther

variable {registry : Registry} {links : Links}

/-- The slot of a member of a declared type depends on the member alone. -/
theorem ofMember_eq (finished : registry.Finished links) (settings : Settings) {id : TypeId}
    {type : TypeDef} (found : registry.types[id]? = some type) {index : Nat} {member : Member}
    (listed : type.members[index]? = some member) :
    ofMember registry settings id (member, index) = .ok (member.slotIn? registry settings) := by
  obtain ⟨target, resolved, made⟩ := ofMember_ok finished settings found listed
  rw [made]
  cases refers : member.kind.target? with
  | none =>
    rw [refers] at resolved
    obtain rfl : target = none := resolved
    cases held : member.kind.slot? <;> simp [Member.slotIn?, refers, ofTarget]
  | some ref =>
    rw [refers] at resolved
    obtain ⟨meant, rfl, means⟩ := resolved
    rw [Member.slotIn?_of_means finished.inStep settings refers means]

/-- The slots of a declared type are those that its members are held in. -/
theorem ofType_ok (finished : registry.Finished links) (settings : Settings) {id : TypeId}
    {type : TypeDef} (found : registry.types[id]? = some type) :
    ofType registry settings id =
      .ok (type.members.filterMap (Member.slotIn? registry settings)) := by
  have each : ∀ entry ∈ type.members.zipIdx, ofMember registry settings id entry =
      .ok (entry.1.slotIn? registry settings) := by
    rintro ⟨member, index⟩ listed
    exact ofMember_eq finished settings found (List.mem_zipIdx_iff_getElem?.mp listed)
  have members : (type.members.zipIdx.map fun entry => entry.1.slotIn? registry settings) =
      type.members.map (Member.slotIn? registry settings) := by
    have fronts := congrArg (List.map (Member.slotIn? registry settings))
      (List.zipIdx_map_fst 0 type.members)
    rwa [List.map_map] at fronts
  rw [ofType_eq settings found, Outcome.mapM_of_forall each, members]
  simp [Except.map, List.filterMap_map]

/-- The slots of a tree are the first ones that its members are held in, put in order. -/
theorem collect_ok (finished : registry.Finished links) (settings : Settings) {tree : Tree}
    (declared : ∀ id ∈ tree.ids, id < registry.types.length) :
    ∃ members, tree.members registry = .ok members ∧
      collect registry tree settings =
        .ok ((firsts [] (members.filterMap (Member.slotIn? registry settings))).mergeSort
          fun left right => decide (left.rendered ≤ right.rendered)) := by
  let membersOf (id : TypeId) : List Member := ((registry.type? id).map TypeDef.members).getD []
  have known {id : TypeId} (member : id ∈ tree.ids) :
      ∃ type, registry.types[id]? = some type ∧ membersOf id = type.members := by
    have found := List.getElem?_eq_getElem (declared id member)
    exact ⟨_, found, by simp [membersOf, Registry.type?, found]⟩
  have listed : ∀ id ∈ tree.ids, (do return (← registry.type id).members) =
      Except.ok (ε := Fault) (membersOf id) := by
    intro id member
    obtain ⟨type, found, same⟩ := known member
    rw [(registry.type_ok_iff id type).mpr found, same]
    rfl
  have each : ∀ id ∈ tree.ids, ofType registry settings id =
      .ok ((membersOf id).filterMap (Member.slotIn? registry settings)) := by
    intro id member
    obtain ⟨type, found, same⟩ := known member
    rw [ofType_ok finished settings found, same]
  refine ⟨tree.ids.flatMap membersOf, ?_, ?_⟩
  · rw [Tree.members, Outcome.mapM_of_forall listed, List.flatMap_def]
    rfl
  · rw [collect, Outcome.mapM_of_forall each, List.filterMap_flatMap, List.flatMap_def]
    rfl

end Slot

/-- The slots of a tree can be collected, and are listed strictly in the order of how they are
written. Every member that refers to a type is held in a slot, and slots are written in exactly
the ways in which those of the members are. Each slot is that of the first member whose slot
is written as it is. Hence, if slots of different kinds or for different types are never
written alike, each slot that a member is held in is there once.

Proof: every member that refers to a type has a slot, as the type is declared. Collecting keeps,
among the slots of all members in their order, the first of each writing. The kept ones are written
differently, so sorting them by writing is strict, and it loses nothing. If slots that are written
alike are slots of one kind for one type, then the kept one is the slot that the member needs. -/
theorem slots_are_first_of_each_writing (registry : Registry) (reachable : registry.Reachable)
    (name : String) (tree : Tree) (built : Tree.ofRoot registry name = .ok tree)
    (settings : Settings) :
    ∃ members slots, tree.members registry = .ok members ∧
      Slot.collect registry tree settings = .ok slots ∧
      (slots.Pairwise fun left right => left.rendered < right.rendered) ∧
      (∀ member ∈ members, member.kind.isChild = true →
        ∃ slot, member.HeldIn registry settings slot) ∧
      (∀ text, text ∈ slots.map Slot.rendered ↔
        ∃ member ∈ members, ∃ slot, member.HeldIn registry settings slot ∧ slot.rendered = text) ∧
      (∀ slot ∈ slots, ∃ before member after, members = before ++ member :: after ∧
        member.HeldIn registry settings slot ∧
        ∀ earlier ∈ before, ∀ other, earlier.HeldIn registry settings other →
          other.rendered ≠ slot.rendered) ∧
      ((∀ left ∈ members, ∀ right ∈ members, ∀ first second,
          left.HeldIn registry settings first → right.HeldIn registry settings second →
          first.rendered = second.rendered →
          first.kind = second.kind ∧ first.target = second.target) →
        ∀ member ∈ members, ∀ held, member.HeldIn registry settings held →
          ∃! slot, slot ∈ slots ∧ slot.kind = held.kind ∧ slot.target = held.target) := by
  obtain ⟨links, finished, _, grown⟩ := Tree.ofRoot_reachable reachable built
  obtain ⟨members, listed, collected⟩ := Slot.collect_ok finished settings grown.declared
  let candidates := members.filterMap (Member.slotIn? registry settings)
  have distinct : ((Slot.firsts [] candidates).map Slot.rendered).Nodup :=
    (fresh_nil_iff _).mp (Slot.firsts_fresh [] candidates)
  have held_iff := Member.slotIn?_some_iff finished.inStep settings
  -- Every slot that a member is held in has a first one that is written alike.
  have first_of {member : Member} (among : member ∈ members) {held : Slot}
      (isHeld : member.HeldIn registry settings held) :
      ∃ first ∈ Slot.firsts [] candidates, first.rendered = held.rendered :=
    Slot.exists_first (List.mem_filterMap.mpr ⟨member, among, isHeld.found finished.inStep⟩)
  have member_of {slot : Slot} (first : slot ∈ Slot.firsts [] candidates) :
      ∃ member ∈ members, member.HeldIn registry settings slot := by
    obtain ⟨member, among, found⟩ :=
      List.mem_filterMap.mp ((Slot.firsts_sublist [] candidates).subset first)
    exact ⟨member, among, (held_iff member slot).mp found⟩
  refine ⟨members, _, listed, collected, Ordering.mergeSort_strict Slot.rendered _ distinct, ?_, ?_,
    ?_, ?_⟩
  · intro member among isChild
    obtain ⟨id, type, found, inType⟩ := Tree.mem_members listed among
    exact Member.heldIn_of_child finished settings found inType isChild
  · intro text
    simp only [List.mem_map, List.mem_mergeSort]
    constructor
    · rintro ⟨slot, first, rfl⟩
      obtain ⟨member, among, isHeld⟩ := member_of first
      exact ⟨member, among, slot, isHeld, rfl⟩
    · rintro ⟨member, among, slot, isHeld, rfl⟩
      exact first_of among isHeld
  · intro slot first
    rw [List.mem_mergeSort, Slot.mem_firsts_filterMap_iff] at first
    simpa only [held_iff] using first
  · intro apart member among held isHeld
    obtain ⟨first, isFirst, alike⟩ := first_of among isHeld
    obtain ⟨owner, ownerAmong, ownerHeld⟩ := member_of isFirst
    obtain ⟨kinds, targets⟩ := apart owner ownerAmong member among first held ownerHeld isHeld alike
    refine ⟨first, ⟨List.mem_mergeSort.mpr isFirst, kinds, targets⟩, ?_⟩
    rintro other ⟨otherListed, otherKind, otherTarget⟩
    obtain ⟨_, _, otherHeld⟩ := member_of (List.mem_mergeSort.mp otherListed)
    exact otherHeld.eq_of_kind_target ownerHeld (otherKind.trans kinds.symm)
      (otherTarget.trans targets.symm)

/-- A page has notes. It is a note, which has a sign, or a sign, which has a mark and notes.
Notes and signs have the same name in the generated program. -/
def pages : Registry :=
  .holding [
    { name := "Page", isFinal := false, members := [.nodeList "notes" (.named "Note")] },
    { name := "Note", base := some (.named "Page"), renderedName := some "Text",
      members := [.node "sign" (.numbered 2)] },
    { name := "Sign", base := some (.named "Page"), renderedName := some "Text",
      members := [.data "mark" "Char", .nodeList "notes" (.named "Note")] }]
    (some {
      bases := [none, some 0, some 0]
      derived := [[1, 2], [], []]
      targets := [[some 1], [some 2], [none, some 1]] })

/-- The tree of the pages. -/
def pageTree : Tree :=
  .group 0 (.leaf 1) [.leaf 2]

/-- The members of the pages, in the order of the tree. -/
def pageMembers : List Member :=
  [.nodeList "notes" (.named "Note"), .node "sign" (.numbered 2), .data "mark" "Char",
    .nodeList "notes" (.named "Note")]

/-- The slot for a list of notes. -/
def noteSlot : Slot :=
  ⟨.list, 1, "NodeList<Text>", "visit_note_list"⟩

/-- The slot for a single sign. -/
def signSlot : Slot :=
  ⟨.single, 2, "NodePtr<Text>", "visit_sign"⟩

/-- The members of the pages are held in a slot for notes or in one for a sign. -/
theorem pageMembers_held {member : Member} (among : member ∈ pageMembers) {slot : Slot}
    (held : member.HeldIn pages { root := "Page" } slot) : slot = noteSlot ∨ slot = signSlot := by
  have each : pageMembers.map (Member.slotIn? pages { root := "Page" }) =
      [some noteSlot, some signSlot, none, some noteSlot] := by
    decide +kernel
  have found := List.mem_map_of_mem (f := Member.slotIn? pages { root := "Page" }) among
  rw [each, held.found (by decide)] at found
  have listed : slot = noteSlot ∨ slot = signSlot ∨ slot = noteSlot := by simpa using found
  tauto

/-- Where single nodes and lists are written alike, the first member of the pages decides that
the only slot is one for notes. Where they are not, there is exactly one slot for a sign too. -/
theorem slots_of_pages :
    Slot.collect pages pageTree { root := "Page", singleSlot := "Box", listSlot := "Box" } =
        .ok [⟨.list, 1, "Box<Text>", "visit_note_list"⟩] ∧
      ∃ slots, Slot.collect pages pageTree { root := "Page" } = .ok slots ∧
        ∃! slot, slot ∈ slots ∧ slot.kind = .single ∧ slot.target = 2 := by
  have made : Registry.ofList pages.types = .ok pages :=
    Registry.ofList_of_linkedBy (by decide +kernel)
  have built : Tree.ofRoot pages "Page" = .ok pageTree := by rfl
  obtain ⟨members, slots, listed, collected, _, _, _, _, unique⟩ :=
    slots_are_first_of_each_writing pages (Registry.ofList_reachable made) "Page" pageTree built
      { root := "Page" }
  obtain rfl : pageMembers = members :=
    Except.ok.inj ((by rfl : Except.ok pageMembers = pageTree.members pages).trans listed)
  have boxed : Slot.collect pages pageTree
      { root := "Page", singleSlot := "Box", listSlot := "Box" } =
        .ok [⟨.list, 1, "Box<Text>", "visit_note_list"⟩] := by
    simp only [Slot.collect, Ordering.mergeSort_by_insertion Slot.rendered]
    rfl
  refine ⟨boxed, slots, collected, ?_⟩
  refine unique ?_ (.node "sign" (.numbered 2)) (by decide) signSlot ?_
  · intro left leftAmong right rightAmong first second leftHeld rightHeld alike
    obtain rfl | rfl := pageMembers_held leftAmong leftHeld <;>
      obtain rfl | rfl := pageMembers_held rightAmong rightHeld
    · exact ⟨rfl, rfl⟩
    · exact absurd alike (by decide)
    · exact absurd alike (by decide)
    · exact ⟨rfl, rfl⟩
  · exact (Member.slotIn?_some_iff (by decide) _ _ _).mp (by rfl)

end Taxonomy
