import Taxonomy.Proofs.Descent
import Taxonomy.Proofs.Labels
import Taxonomy.Proofs.Slots

/-!
# Which faults a compilation reports

A look-up that finds nothing has faults of its own: the number was never handed out,
or the registry has no links to answer with. All other faults say what is wrong with
a schema or its settings.

A compilation reports no fault of a look-up. Registering, resolving and the checks
of unions make none that could fail. Growing a tree asks for the type and the derived
types of a number, but starts at a declared type and goes on to declared ones, so it
can only fail at an abstract type without a derived one. Numbering a grown tree and
collecting its slots ask for declared types alone.
-/
namespace Taxonomy

open Outcome Relation

/-- Whether the fault is that of a look-up which finds nothing. -/
def Fault.isMiss : Fault → Bool
  | .unknownId _ => true
  | .notFinished _ => true
  | _ => false

/-- If the step fails, then not because of a look-up. -/
abbrev NoMiss {α : Type} (outcome : Except Fault α) : Prop :=
  FailsWith (fun fault => fault.isMiss = false) outcome

namespace Registry

/-- Taking a type in makes no look-up that can fail. -/
theorem register_noMiss (registry : Registry) (type : TypeDef) :
    NoMiss (registry.register type).1 := by
  rw [register]
  split
  · exact .error rfl
  · split
    · exact .error rfl
    · split
      · exact .error rfl
      · exact .ok _

/-- Taking several types in fails as one of them does. -/
theorem registerAll_noMiss (registry : Registry) (types : List TypeDef) :
    NoMiss (registry.registerAll types).1 := by
  induction types generalizing registry with
  | nil => exact .ok _
  | cons type types inductionHypothesis =>
    rw [registerAll]
    rcases taken : registry.register type with ⟨answer, next⟩
    cases answer with
    | error fault => exact .error (register_noMiss registry type fault (congrArg Prod.fst taken))
    | ok id =>
      intro fault failed
      apply inductionHypothesis next fault
      cases rest : (next.registerAll types).1 with
      | error other => simpa [rest, Except.map] using failed
      | ok ids => simp [rest, Except.map] at failed

/-- A reference that cannot be resolved is reported by its text. -/
theorem resolve_noMiss (registry : Registry) (referrer : String) (ref : TypeRef) :
    NoMiss (registry.resolve referrer ref) := by
  unfold resolve
  dsimp only
  split
  · exact .ok _
  · exact .error rfl

/-- Only a reference that is there can fail to be resolved. -/
theorem resolve?_noMiss (registry : Registry) (referrer : String) (ref : Option TypeRef) :
    NoMiss (registry.resolve? referrer ref) := by
  cases ref with
  | none => exact .ok _
  | some ref => exact (resolve_noMiss registry referrer ref).bind fun _ _ => .ok _

/-- The check for final bases reports a derivation. -/
theorem finalDerivation?_noMiss {registry : Registry} {bases : Bases} {fault : Fault}
    (found : registry.finalDerivation? bases = some fault) : fault.isMiss = false := by
  obtain ⟨⟨type, base?⟩, _, reported⟩ := List.exists_of_findSome?_eq_some found
  simp only [Option.bind_eq_bind, Option.bind_eq_some_iff] at reported
  obtain ⟨_, _, base, _, reported⟩ := reported
  split at reported
  · rw [← Option.some.inj reported]
    rfl
  · cases reported

/-- The check for cycles reports a cycle. -/
theorem inheritanceCycle?_noMiss {registry : Registry} {bases : Bases} {fault : Fault}
    (found : registry.inheritanceCycle? bases = some fault) : fault.isMiss = false := by
  obtain ⟨_, _, _, _, rfl⟩ := (inheritanceCycle?_some_iff registry bases fault).mp found
  rfl

/-- Linking reports a reference, a derivation or a cycle. -/
theorem link_noMiss (registry : Registry) : NoMiss registry.link := by
  rw [link]
  refine FailsWith.bind (.mapM fun type _ => ?_) fun resolved _ => ?_
  · refine (resolve?_noMiss registry _ _).bind fun base _ => ?_
    refine FailsWith.bind (.mapM fun member _ => ?_) fun targets _ => .ok _
    exact resolve?_noMiss registry _ _
  · dsimp only
    split
    · next fault found =>
      refine .error_bind ?_ _
      exact finalDerivation?_noMiss found
    · split
      · next fault found =>
        refine .error_bind ?_ _
        exact inheritanceCycle?_noMiss found
      · exact .ok _

/-- Finishing a registry fails as linking does. -/
theorem finish_noMiss (registry : Registry) : NoMiss registry.finish.1 := by
  intro fault failed
  exact link_noMiss registry fault ((finish_error_iff registry fault).mp failed).2

/-- Making a registry from types makes no look-up that can fail. -/
theorem ofList_noMiss (types : List TypeDef) : NoMiss (ofList types) := by
  have registered := registerAll_noMiss {} types
  rw [ofList]
  split
  · next fault registry taken =>
    refine .error (registered fault ?_)
    rw [taken]
  · next ids registry taken =>
    split
    · next fault _ refused =>
      refine .error (finish_noMiss registry fault ?_)
      rw [refused]
    · exact .ok _

end Registry

namespace Tree

variable {registry : Registry} {links : Links}

/-- The fault names an abstract type below the given one that has no derived type. -/
def Childless (registry : Registry) (links : Links) (top : TypeId) (fault : Fault) : Prop :=
  ∃ id type, links.bases.Below id top ∧ registry.types[id]? = some type ∧ type.isFinal = false ∧
    (∀ child, ¬ links.bases.Step child id) ∧ fault = .emptyHierarchy type.name

/-- The tree of a name fails to grow only if the name is not declared, or at an
abstract type without a derived one. -/
theorem ofRoot_fails (finished : registry.Finished links) (name : String) :
    FailsWith (fun fault => fault = .unknownType name none ∨
      ∃ top, registry.find? name = some top ∧ Childless registry links top fault)
      (ofRoot registry name) := by
  intro fault failed
  cases named : registry.find? name with
  | none =>
    have unknown : ofRoot registry name = .error (.unknownType name none) := by
      rw [ofRoot, Registry.isFinished, finished.linked, Option.isSome_some, if_pos rfl,
        Registry.id, named]
      rfl
    exact Or.inl (Except.error.inj (failed.symm.trans unknown))
  | some top =>
    obtain ⟨_, there, _⟩ := (finished.inStep.find?_some_iff name top).mp named
    have inside : top < registry.types.length := (List.getElem?_eq_some_iff.mp there).1
    rw [← fault?_some_iff, ofRoot_fault? finished named] at failed
    obtain ⟨id, listed, reported⟩ := List.exists_of_findSome?_eq_some failed
    obtain ⟨type, found, abstract, nobody, rfl⟩ :=
      (registry.emptiness?_some_iff links.bases id fault).mp reported
    refine Or.inr ⟨top, rfl, id, type, (finished.mem_under_iff inside id).mp listed, found,
      abstract, ?_, rfl⟩
    intro child step
    rw [← finished.mem_derived_iff, nobody] at step
    exact List.not_mem_nil step

/-- The fault of a number that cannot be given: the first is zero, one does not fit,
or its label is there already. -/
def Unnumbered (start : Nat) (width : TagWidth) (fault : Fault) : Prop :=
  fault = .invalidTagStart start ∨ (∃ label value, fault = .tagOverflow label value width) ∨
    ∃ label, fault = .duplicateName .tagLabel label

/-- An entry with a defect does not fit or repeats a label. -/
theorem defect?_unnumbered (start : Nat) (width : TagWidth) {seen : List String}
    {entries : List TagEntry} {fault : Fault}
    (found : TagTable.defect? width seen entries = some fault) : Unnumbered start width fault := by
  induction entries generalizing seen with
  | nil => cases found
  | cons entry entries inductionHypothesis =>
    rw [TagTable.defect?] at found
    split at found
    · exact Or.inr (Or.inl ⟨_, _, (Option.some.inj found).symm⟩)
    · split at found
      · exact Or.inr (Or.inr ⟨_, (Option.some.inj found).symm⟩)
      · exact inductionHypothesis found

/-- Numbering a grown tree fails only because of the numbers. Its groups have children
and its types have names. -/
theorem Grown.allocate_fails {tree : Tree} (finished : registry.Finished links)
    (grown : tree.Grown registry links) (start : Nat) (width : TagWidth) :
    FailsWith (Unnumbered start width) (TagTable.allocate registry tree start width) := by
  rw [grown.allocate_eq finished]
  split
  · exact .error (Or.inl rfl)
  · split
    · next fault found => exact .error (defect?_unnumbered start width found)
    · exact .ok _

end Tree

/-- Building the hierarchy of a finished registry makes no look-up that fails. -/
theorem Hierarchy.build_noMiss {registry : Registry} {links : Links}
    (finished : registry.Finished links) (settings : Settings) :
    NoMiss (Hierarchy.build registry settings) := by
  rw [Hierarchy.build]
  refine FailsWith.bind ((Tree.ofRoot_fails finished settings.root).mono ?_) fun tree success => ?_
  · rintro fault (rfl | ⟨_, _, _, _, _, _, _, _, rfl⟩)
    · rfl
    · rfl
  · obtain ⟨_, grown⟩ := Tree.ofRoot_grown finished success
    refine FailsWith.bind ((grown.allocate_fails finished _ _).mono ?_) fun tags _ => ?_
    · rintro fault (rfl | ⟨_, _, rfl⟩ | ⟨_, rfl⟩)
      · rfl
      · rfl
      · rfl
    · obtain ⟨slots, collected⟩ := Slot.collect_succeeds finished settings grown.declared
      rw [collected]
      exact FailsWith.bind (.ok _) fun _ _ => .ok _

namespace Union

/-- The check of members makes no look-up. -/
theorem checkMembers_noMiss (union : Union) (variant : String) (seen : List String)
    (members : List Member) : NoMiss (union.checkMembers variant seen members) := by
  induction members generalizing seen with
  | nil => exact .ok _
  | cons member members inductionHypothesis =>
    rw [checkMembers]
    split
    · exact .error rfl
    · split
      · exact .error rfl
      · exact inductionHypothesis _

/-- The check of variants makes no look-up. -/
theorem checkVariants_noMiss (union : Union) (seen : List String) (variants : List Variant) :
    NoMiss (union.checkVariants seen variants) := by
  induction variants generalizing seen with
  | nil => exact .ok _
  | cons variant variants inductionHypothesis =>
    rw [checkVariants]
    split
    · exact .error rfl
    · refine FailsWith.bind ?_ fun _ _ => inductionHypothesis _
      rw [checkBody]
      split
      · split
        · exact .error rfl
        · exact .ok _
      · exact checkMembers_noMiss union _ _ _

/-- The check of a union makes no look-up. -/
theorem validate_noMiss (union : Union) : NoMiss union.validate := by
  rw [validate]
  split
  · refine .error_bind ?_ _
    rfl
  · refine (checkVariants_noMiss union _ _).bind fun _ _ => ?_
    rw [checkWidth]
    split
    · exact .ok _
    · dsimp only
      split
      · exact .ok _
      · exact .error rfl

end Union

/-- Adding unions to a set makes no look-up that can fail. -/
theorem UnionSet.insertAll_noMiss (set : UnionSet) (unions : List Union) :
    NoMiss (set.insertAll unions).1 := by
  induction unions generalizing set with
  | nil => exact .ok _
  | cons union unions inductionHypothesis =>
    have inserted : NoMiss (set.insert union).1 := by
      rw [insert]
      split
      · exact .error rfl
      · split
        · exact .error rfl
        · split
          · next fault invalid => exact .error (union.validate_noMiss fault invalid)
          · exact .ok _
    rw [insertAll]
    rcases taken : set.insert union with ⟨answer, next⟩
    cases answer with
    | error fault => exact .error (inserted fault (congrArg Prod.fst taken))
    | ok _ => exact inductionHypothesis next

/-- Making a set of unions makes no look-up that can fail. -/
theorem UnionSet.ofList_noMiss (unions : List Union) : NoMiss (UnionSet.ofList unions) := by
  have inserted := insertAll_noMiss {} unions
  rw [ofList]
  split
  · exact .ok _
  · next fault _ taken =>
    refine .error (inserted fault ?_)
    rw [taken]

/-- No compilation fails because of a look-up, whatever the schema refers to. -/
theorem Model.compile_noMiss (schema : Schema) (settings : Settings) :
    NoMiss (Model.compile schema settings) := by
  rw [Model.compile]
  refine (Registry.ofList_noMiss schema.types).bind fun registry made => ?_
  obtain ⟨_, links, finished⟩ := Registry.ofList_finished made
  have rest (hierarchy : Option Hierarchy) : NoMiss (do
      let unions ← UnionSet.ofList schema.unions
      return (⟨registry, hierarchy, unions, settings⟩ : Model)) :=
    (UnionSet.ofList_noMiss schema.unions).bind fun _ _ => .ok _
  dsimp only
  split
  · exact rest none
  · exact (Hierarchy.build_noMiss finished settings).bind fun hierarchy _ => rest (some hierarchy)

end Taxonomy
