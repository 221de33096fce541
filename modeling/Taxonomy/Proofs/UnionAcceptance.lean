import Taxonomy.Proofs.Outcome
import Taxonomy.Proofs.Repetition
import Taxonomy.UnionSet

/-!
# Which unions are accepted

A union is checked variant by variant and member by member, and the check stops at
the first defect. What it accepts can be said without the order of the check: the
tag is documented where it has to be, names are not used twice, variants hold data
or something other than the union itself, and the numbers fit into the tag.

A set takes a list of unions in exactly if each is accepted, and no two share a
name or a tag.
-/
namespace Taxonomy

/-- A variant can hold data members with names of their own, or a value of a type
other than its union. -/
def VariantBody.WellFormed (union : String) : VariantBody → Prop
  | .record members =>
    (∀ member ∈ members, member.kind.isChild = false) ∧ (members.map Member.name).Nodup
  | .wrapped target _ => target ≠ union

/-- A union that can be generated. -/
structure Union.WellFormed (union : Union) : Prop where
  tag_documented : union.capabilities.docPlace = .tag → union.tag.doc ≠ none
  variants_distinct : (union.variants.map Variant.name).Nodup
  bodies : ∀ variant ∈ union.variants, variant.body.WellFormed union.name
  fits : union.variants ≠ [] →
    union.tag.first + union.variants.length - 1 ≤ union.tag.width.max

namespace Union

/-- Members pass exactly if all are data and their names are fresh. -/
theorem checkMembers_ok_iff (union : Union) (variant : String) (seen : List String)
    (members : List Member) :
    union.checkMembers variant seen members = .ok () ↔
      (∀ member ∈ members, member.kind.isChild = false) ∧
        Fresh seen (members.map Member.name) := by
  induction members generalizing seen with
  | nil => simp [checkMembers, Fresh]
  | cons member members inductionHypothesis =>
    rw [checkMembers, List.forall_mem_cons, List.map_cons, fresh_cons_iff]
    by_cases child : member.kind.isChild
    · simp [child]
    · by_cases met : member.name ∈ seen
      · simp [child, met]
      · simp [child, met, inductionHypothesis]

/-- What a variant holds passes exactly if it is well formed. -/
theorem checkBody_ok_iff (union : Union) (variant : Variant) :
    union.checkBody variant = .ok () ↔ variant.body.WellFormed union.name := by
  rw [checkBody]
  cases variant.body with
  | record members => rw [checkMembers_ok_iff, fresh_nil_iff, VariantBody.WellFormed]
  | wrapped target passing =>
    by_cases self : target = union.name
    · simp [VariantBody.WellFormed, self]
    · simp [VariantBody.WellFormed, self]

/-- Variants pass exactly if their names are fresh and each holds what it can. -/
theorem checkVariants_ok_iff (union : Union) (seen : List String) (variants : List Variant) :
    union.checkVariants seen variants = .ok () ↔
      Fresh seen (variants.map Variant.name) ∧
        ∀ variant ∈ variants, variant.body.WellFormed union.name := by
  induction variants generalizing seen with
  | nil => simp [checkVariants, Fresh]
  | cons variant variants inductionHypothesis =>
    rw [checkVariants, List.forall_mem_cons, List.map_cons, fresh_cons_iff]
    by_cases met : variant.name ∈ seen
    · simp [met]
    · rw [if_neg met, Outcome.check_ok_iff, checkBody_ok_iff, inductionHypothesis]
      constructor
      · rintro ⟨body, fresh, bodies⟩
        exact ⟨⟨met, fresh⟩, body, bodies⟩
      · rintro ⟨⟨_, fresh⟩, body, bodies⟩
        exact ⟨body, fresh, bodies⟩

/-- The numbers pass exactly if there are none or the last one fits. -/
theorem checkWidth_ok_iff (union : Union) :
    union.checkWidth = .ok () ↔
      (union.variants ≠ [] →
        union.tag.first + union.variants.length - 1 ≤ union.tag.width.max) := by
  rw [checkWidth]
  cases last : union.variants.getLast? with
  | none => simp [List.getLast?_eq_none_iff.mp last]
  | some variant =>
    have some : union.variants ≠ [] := by
      intro none
      simp [none] at last
    have one : 1 ≤ union.variants.length := List.length_pos_iff.mpr some
    have same : union.tag.first + (union.variants.length - 1) =
        union.tag.first + union.variants.length - 1 := by omega
    simp [some, same]

/-- A union is accepted exactly if it is well formed. -/
theorem validate_ok_iff (union : Union) : union.validate = .ok () ↔ union.WellFormed := by
  have documented : (union.capabilities.docPlace = .tag → union.tag.doc ≠ none) ↔
      ¬ (union.capabilities.docPlace = .tag ∧ union.tag.doc = none) := by
    rw [not_and]
  have checks : union.validate = .ok () ↔
      ¬ (union.capabilities.docPlace = .tag ∧ union.tag.doc = none) ∧
        union.checkVariants [] union.variants = .ok () ∧ union.checkWidth = .ok () := by
    rw [validate]
    by_cases missing : union.capabilities.docPlace = .tag ∧ union.tag.doc = none
    · simp [missing, bind, Except.bind]
    · rw [if_neg missing, and_iff_right missing]
      exact Outcome.check_ok_iff _ _ _
  rw [checks, ← documented, checkVariants_ok_iff, fresh_nil_iff, checkWidth_ok_iff]
  constructor
  · rintro ⟨documented, ⟨distinct, bodies⟩, fits⟩
    exact ⟨documented, distinct, bodies, fits⟩
  · rintro ⟨documented, distinct, bodies, fits⟩
    exact ⟨documented, ⟨distinct, bodies⟩, fits⟩

end Union

namespace UnionSet

/-- A name is known to a set exactly if one of its unions has it. -/
theorem get?_isSome_iff (set : UnionSet) (name : String) :
    (set.get? name).isSome ↔ name ∈ set.unions.map Union.name := by
  simp [get?, List.find?_isSome]

/-- A tag leads to a name exactly if the union of this name in the set has the tag. -/
def InStep (set : UnionSet) : Prop :=
  ∀ tag name, set.tagOwner? tag = some name ↔
    ∃ union ∈ set.unions, union.tag.name = tag ∧ union.name = name

/-- The set with unions added at the end and entered as the owners of their tags. -/
def extend (set : UnionSet) (unions : List Union) : UnionSet where
  unions := set.unions ++ unions
  owners := (unions.map fun union => (union.tag.name, union.name)).reverse ++ set.owners

/-- The set that holds the given unions in their order. -/
def holding (unions : List Union) : UnionSet :=
  extend {} unions

variable {set : UnionSet}

/-- Unions can be added in two parts. -/
theorem extend_append (set : UnionSet) (front back : List Union) :
    (set.extend front).extend back = set.extend (front ++ back) := by
  simp [extend]

/-- Nothing added, nothing changed. -/
theorem extend_nil (set : UnionSet) : set.extend [] = set := by
  simp [extend]

/-- A tag has no owner exactly if none of the unions has the tag. -/
theorem InStep.tagOwner?_none_iff (inStep : set.InStep) (tag : String) :
    set.tagOwner? tag = none ↔ tag ∉ set.unions.map fun union => union.tag.name := by
  rw [Option.eq_none_iff_forall_ne_some, List.mem_map]
  constructor
  · rintro nobody ⟨union, member, tagged⟩
    exact nobody union.name ((inStep tag union.name).mpr ⟨union, member, tagged, rfl⟩)
  · intro unknown name owned
    obtain ⟨union, member, tagged, _⟩ := (inStep tag name).mp owned
    exact unknown ⟨union, member, tagged⟩

/-- A union with a new tag keeps the owners in step: nobody else has the tag, and the owners of
other tags stay. -/
theorem InStep.extend_one (inStep : set.InStep) {union : Union}
    (fresh : union.tag.name ∉ set.unions.map fun other => other.tag.name) :
    (set.extend [union]).InStep := by
  intro tag name
  have looked : (set.extend [union]).tagOwner? tag =
      if tag = union.tag.name then some union.name else set.tagOwner? tag := by
    by_cases same : tag = union.tag.name
    · simp [tagOwner?, UnionSet.extend, same]
    · simp [tagOwner?, UnionSet.extend, List.lookup_cons, beq_false_of_ne same, same]
  have listed : (set.extend [union]).unions = set.unions ++ [union] := rfl
  rw [looked, listed]
  by_cases same : tag = union.tag.name
  · subst same
    rw [if_pos rfl, Option.some.injEq]
    constructor
    · rintro rfl
      exact ⟨union, List.mem_append_right _ List.mem_cons_self, rfl, rfl⟩
    · rintro ⟨other, member, tagged, rfl⟩
      rcases List.mem_append.mp member with earlier | last
      · exact absurd (List.mem_map.mpr ⟨other, earlier, tagged⟩) fresh
      · rw [List.mem_singleton.mp last]
  · rw [if_neg same, inStep]
    constructor
    · rintro ⟨other, member, both⟩
      exact ⟨other, List.mem_append_left _ member, both⟩
    · rintro ⟨other, member, tagged, named⟩
      rcases List.mem_append.mp member with earlier | last
      · exact ⟨other, earlier, tagged, named⟩
      · exact absurd (tagged.symm.trans (congrArg (·.tag.name) (List.mem_singleton.mp last))) same

/-- Unions with new tags keep the owners in step. -/
theorem InStep.extend (inStep : set.InStep) {unions : List Union}
    (fresh : Fresh (set.unions.map fun union => union.tag.name)
      (unions.map fun union => union.tag.name)) : (set.extend unions).InStep := by
  induction unions generalizing set with
  | nil => exact set.extend_nil.symm ▸ inStep
  | cons union unions inductionHypothesis =>
    rw [List.map_cons, fresh_cons_iff_append] at fresh
    have rest := inductionHypothesis (inStep.extend_one fresh.1)
      (by simpa [UnionSet.extend] using fresh.2)
    rwa [extend_append] at rest

/-- A union is taken in exactly if its name and its tag are new and it is well
formed. It then stands last and owns its tag. -/
theorem InStep.insert_ok_iff (inStep : set.InStep) (union : Union) (next : UnionSet) :
    set.insert union = (.ok (), next) ↔
      union.name ∉ set.unions.map Union.name ∧
        (union.tag.name ∉ set.unions.map fun union => union.tag.name) ∧
        union.WellFormed ∧ next = set.extend [union] := by
  rw [insert, ← get?_isSome_iff, ← inStep.tagOwner?_none_iff, ← Union.validate_ok_iff]
  by_cases known : (set.get? union.name).isSome
  · simp [known]
  · rw [if_neg known, and_iff_right known]
    cases set.tagOwner? union.tag.name with
    | some owner => simp
    | none => cases union.validate <;> simp [UnionSet.extend, eq_comm]

/-- A union that is refused changes nothing: each of the three checks comes before anything is
entered. -/
theorem insert_refused {union : Union} {fault : Fault}
    (refused : (set.insert union).1 = .error fault) : (set.insert union).2 = set := by
  rw [insert] at refused ⊢
  by_cases known : (set.get? union.name).isSome
  · rw [if_pos known]
  · rw [if_neg known] at refused ⊢
    cases owned : set.tagOwner? union.tag.name with
    | some owner => rfl
    | none =>
      cases checked : union.validate with
      | error other => rfl
      | ok _ => simp [owned, checked] at refused

/-- Unions are taken in exactly if their names and their tags are fresh and each is
well formed. They then stand last, in the order of the list. -/
theorem InStep.insertAll_ok_iff (inStep : set.InStep) (unions : List Union) (last : UnionSet) :
    set.insertAll unions = (.ok (), last) ↔
      Fresh (set.unions.map Union.name) (unions.map Union.name) ∧
        Fresh (set.unions.map fun union => union.tag.name)
          (unions.map fun union => union.tag.name) ∧
        (∀ union ∈ unions, union.WellFormed) ∧ last = set.extend unions := by
  induction unions generalizing set with
  | nil => simp [insertAll, Fresh, extend_nil, eq_comm]
  | cons union unions inductionHypothesis =>
    rw [List.map_cons, List.map_cons, fresh_cons_iff_append, fresh_cons_iff_append,
      List.forall_mem_cons, insertAll]
    rcases taken : set.insert union with ⟨answer, next⟩
    cases answer with
    | error fault =>
      constructor
      · rintro ⟨⟩
      · rintro ⟨⟨name, _⟩, ⟨tag, _⟩, ⟨wellFormed, _⟩, _⟩
        have accepted := (inStep.insert_ok_iff union _).mpr ⟨name, tag, wellFormed, rfl⟩
        rw [taken] at accepted
        cases accepted
    | ok _ =>
      obtain ⟨name, tag, wellFormed, rfl⟩ := (inStep.insert_ok_iff union next).mp taken
      have rest := inductionHypothesis (inStep.extend_one tag)
      have grown : (set.extend [union]).unions = set.unions ++ [union] := rfl
      simp only [extend_append, grown, List.map_append, List.map_cons, List.map_nil,
        List.singleton_append] at rest
      rw [and_iff_right name, and_iff_right tag, and_iff_right wellFormed, ← rest]

/-- The empty set has nobody who owns a tag. -/
theorem empty_inStep : InStep {} := by
  simp [InStep, tagOwner?]

/-- The set of a list of unions holds the list as it is. It can be made exactly if
no two of the unions share a name or a tag and each is well formed. -/
theorem ofList_ok_iff (unions : List Union) (set : UnionSet) :
    ofList unions = .ok set ↔
      (unions.map Union.name).Nodup ∧ (unions.map fun union => union.tag.name).Nodup ∧
        (∀ union ∈ unions, union.WellFormed) ∧ set = holding unions := by
  have taken := empty_inStep.insertAll_ok_iff unions set
  simp only [List.map_nil, fresh_nil_iff] at taken
  rw [holding, ← taken, ofList]
  rcases insertAll {} unions with ⟨outcome, reached⟩
  cases outcome with
  | error fault => simp
  | ok value => simp

/-- In a set of unions with tags of their own each union owns its tag. -/
theorem holding_inStep {unions : List Union}
    (distinct : (unions.map fun union => union.tag.name).Nodup) : (holding unions).InStep :=
  empty_inStep.extend ((fresh_nil_iff _).mpr distinct)

end UnionSet

end Taxonomy
