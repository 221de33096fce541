import Mathlib.Algebra.Group.Nat.Defs
import Taxonomy.Proofs.UnionAcceptance

/-!
# The first defect of a union

A union that is not accepted can have many defects at once, at different variants and at
different members of one variant. One of them is reported. Which one it is depends on the
order of the declarations only: a missing documentation comes first, then the defects of the
variants, each variant after those before it, and last that the numbers do not fit.

A defect is stated together with all that has to be in order for it to be the first one. That
a union has such a defect exactly if it is not accepted, and never two, follows from the check
reporting exactly these.
-/
namespace Taxonomy

/-- The member cannot follow the given ones in a variant, for the given fault. -/
inductive Member.Refused (union variant : String) (earlier : List Member) (member : Member) :
    Fault → Prop
  | child (child : member.kind.isChild = true) :
      Refused union variant earlier member (.childInUnion union variant member.name)
  | repeated (data : member.kind.isChild = false) (met : member.name ∈ earlier.map Member.name) :
      Refused union variant earlier member
        (.duplicateMember (union ++ "::" ++ variant) member.name)

/-- What the variant of the given name holds cannot stand in a union, for the given fault. -/
inductive VariantBody.Refused (union variant : String) : VariantBody → Fault → Prop
  | selfAlias (passing : Passing) :
      Refused union variant (.wrapped union passing) (.selfAlias union variant)
  /-- The first member that cannot follow those before it. -/
  | member {before after : List Member} {member : Member} {fault : Fault}
      (data : ∀ earlier ∈ before, earlier.kind.isChild = false)
      (distinct : (before.map Member.name).Nodup)
      (refused : member.Refused union variant before fault) :
      Refused union variant (.record (before ++ member :: after)) fault

/-- The variant cannot follow the given ones in a union, for the given fault. -/
inductive Variant.Refused (union : String) (earlier : List Variant) (variant : Variant) :
    Fault → Prop
  | repeated (met : variant.name ∈ earlier.map Variant.name) :
      Refused union earlier variant (.duplicateVariant union variant.name)
  | body {fault : Fault} (fresh : variant.name ∉ earlier.map Variant.name)
      (refused : variant.body.Refused union variant.name fault) :
      Refused union earlier variant fault

/-- The first defect of a union, with the fault that reports it. -/
inductive Union.FirstDefect (union : Union) : Fault → Prop
  | undocumented (place : union.capabilities.docPlace = .tag) (missing : union.tag.doc = none) :
      FirstDefect union (.missingDoc union.name union.tag.name)
  /-- The first variant that cannot follow those before it. -/
  | variant {before after : List Variant} {variant : Variant} {fault : Fault}
      (documented : union.capabilities.docPlace = .tag → union.tag.doc ≠ none)
      (order : union.variants = before ++ variant :: after)
      (distinct : (before.map Variant.name).Nodup)
      (bodies : ∀ earlier ∈ before, earlier.body.WellFormed union.name)
      (refused : variant.Refused union.name before fault) :
      FirstDefect union fault
  /-- The number of the last variant does not fit, where nothing else is wrong. -/
  | overflow {last : Variant}
      (documented : union.capabilities.docPlace = .tag → union.tag.doc ≠ none)
      (distinct : (union.variants.map Variant.name).Nodup)
      (bodies : ∀ variant ∈ union.variants, variant.body.WellFormed union.name)
      (isLast : union.variants.getLast? = some last)
      (excess : union.tag.width.max < union.tag.first + union.variants.length - 1) :
      FirstDefect union (.tagOverflow (union.tag.name ++ "::" ++ last.name)
        (min (union.tag.first + union.variants.length - 1) (2 ^ 64 - 1)) union.tag.width)

namespace Union

/-- One round of the check of members: a member that follows those of the given names. -/
def admitMember (union : Union) (variant : String) (seen : List String) (member : Member) :
    Except Fault Unit :=
  if member.kind.isChild then .error (.childInUnion union.name variant member.name)
  else if member.name ∈ seen then .error (.duplicateMember (union.qualify variant) member.name)
  else .ok ()

/-- Members are admitted one after the other. -/
theorem checkMembers_cons (union : Union) (variant : String) (seen : List String)
    (member : Member) (rest : List Member) :
    union.checkMembers variant seen (member :: rest) =
      (union.admitMember variant seen member >>= fun _ =>
        union.checkMembers variant (member.name :: seen) rest) := by
  rw [checkMembers, admitMember]
  split
  · rfl
  · split <;> rfl

/-- A member is not admitted exactly if it cannot follow those before it. -/
theorem admitMember_error_iff (union : Union) (variant : String) {seen : List String}
    {before : List Member} {member : Member} (fault : Fault)
    (known : member.name ∈ seen ↔ member.name ∈ before.map Member.name) :
    union.admitMember variant seen member = .error fault ↔
      member.Refused union.name variant before fault := by
  simp only [admitMember, known]
  constructor
  · intro failed
    split at failed
    · next child =>
      obtain rfl := Except.error.inj failed
      exact .child child
    · next data =>
      split at failed
      · next met =>
        obtain rfl := Except.error.inj failed
        exact .repeated (Bool.eq_false_iff.mpr data) met
      · cases failed
  · rintro (child | ⟨data, met⟩)
    · rw [if_pos child]
    · rw [if_neg (by simp [data]), if_pos met, qualify]

/-- Members fail exactly at the first one that cannot follow those before it. -/
theorem checkMembers_error_iff (union : Union) (variant : String) (members : List Member)
    (fault : Fault) :
    union.checkMembers variant [] members = .error fault ↔
      (VariantBody.record members).Refused union.name variant fault := by
  have refused (before : List Member) (member : Member) :
      union.admitMember variant ((before.map Member.name).reverse ++ []) member = .error fault ↔
        member.Refused union.name variant before fault :=
    union.admitMember_error_iff variant fault (by simp)
  rw [scan_error_iff (fun _ => rfl) (union.checkMembers_cons variant)]
  simp only [refused, checkMembers_ok_iff, fresh_nil_iff]
  constructor
  · rintro ⟨before, member, after, rfl, ⟨data, distinct⟩, isRefused⟩
    exact .member data distinct isRefused
  · rintro (_ | @⟨before, after, member, _, data, distinct, isRefused⟩)
    exact ⟨before, member, after, rfl, ⟨data, distinct⟩, isRefused⟩

/-- What a variant holds fails exactly if it cannot stand in the union. -/
theorem checkBody_error_iff (union : Union) (variant : Variant) (fault : Fault) :
    union.checkBody variant = .error fault ↔
      variant.body.Refused union.name variant.name fault := by
  rw [checkBody]
  cases variant.body with
  | record members => exact checkMembers_error_iff union variant.name members fault
  | wrapped target passing =>
    by_cases self : target = union.name
    · simp only [self, if_true, Except.error.injEq]
      constructor
      · rintro rfl
        exact .selfAlias passing
      · rintro ⟨⟩
        rfl
    · simp only [self, if_false, reduceCtorEq, false_iff]
      rintro ⟨⟩
      exact self rfl

/-- One round of the check of variants: a variant that follows those of the given names. -/
def admitVariant (union : Union) (seen : List String) (variant : Variant) : Except Fault Unit :=
  if variant.name ∈ seen then .error (.duplicateVariant union.name variant.name)
  else union.checkBody variant

/-- Variants are admitted one after the other. -/
theorem checkVariants_cons (union : Union) (seen : List String) (variant : Variant)
    (rest : List Variant) :
    union.checkVariants seen (variant :: rest) =
      (union.admitVariant seen variant >>= fun _ =>
        union.checkVariants (variant.name :: seen) rest) := by
  rw [checkVariants, admitVariant]
  split <;> rfl

/-- A variant is not admitted exactly if it cannot follow those before it. -/
theorem admitVariant_error_iff (union : Union) {seen : List String} {before : List Variant}
    {variant : Variant} (fault : Fault)
    (known : variant.name ∈ seen ↔ variant.name ∈ before.map Variant.name) :
    union.admitVariant seen variant = .error fault ↔
      variant.Refused union.name before fault := by
  simp only [admitVariant, known]
  by_cases met : variant.name ∈ before.map Variant.name
  · rw [if_pos met, Except.error.injEq]
    constructor
    · rintro rfl
      exact .repeated met
    · rintro (_ | ⟨fresh, _⟩)
      · rfl
      · exact absurd met fresh
  · rw [if_neg met, checkBody_error_iff]
    constructor
    · exact .body met
    · rintro (again | ⟨_, body⟩)
      · exact absurd again met
      · exact body

/-- Variants fail exactly at the first one that cannot follow those before it. -/
theorem checkVariants_error_iff (union : Union) (variants : List Variant) (fault : Fault) :
    union.checkVariants [] variants = .error fault ↔
      ∃ before variant after, variants = before ++ variant :: after ∧
        ((before.map Variant.name).Nodup ∧
          ∀ earlier ∈ before, earlier.body.WellFormed union.name) ∧
        variant.Refused union.name before fault := by
  have refused (before : List Variant) (variant : Variant) :
      union.admitVariant ((before.map Variant.name).reverse ++ []) variant = .error fault ↔
        variant.Refused union.name before fault :=
    union.admitVariant_error_iff fault (by simp)
  rw [scan_error_iff (fun _ => rfl) union.checkVariants_cons]
  simp only [refused, checkVariants_ok_iff, fresh_nil_iff]

/-- The numbers fail exactly if the last one does not fit. -/
theorem checkWidth_error_iff (union : Union) (fault : Fault) :
    union.checkWidth = .error fault ↔
      ∃ last, union.variants.getLast? = some last ∧
        union.tag.width.max < union.tag.first + union.variants.length - 1 ∧
        fault = .tagOverflow (union.tag.name ++ "::" ++ last.name)
          (min (union.tag.first + union.variants.length - 1) (2 ^ 64 - 1)) union.tag.width := by
  rw [checkWidth]
  cases isLast : union.variants.getLast? with
  | none => simp
  | some last =>
    have nonempty : union.variants ≠ [] := by
      intro none
      simp [none] at isLast
    have one : 1 ≤ union.variants.length := List.length_pos_iff.mpr nonempty
    have same : union.tag.first + (union.variants.length - 1) =
        union.tag.first + union.variants.length - 1 := by omega
    have largest : maxTag = 2 ^ 64 - 1 := rfl
    simp only [same, largest, Option.some.injEq, exists_eq_left']
    by_cases fits : union.tag.first + union.variants.length - 1 ≤ union.tag.width.max
    · simp [fits, Nat.not_lt.mpr fits]
    · rw [if_neg fits, and_iff_right (Nat.not_le.mp fits), Except.error.injEq]
      exact eq_comm

/-- The check of a union goes from the documentation to the variants to the numbers. -/
theorem validate_error_cases (union : Union) (fault : Fault) :
    union.validate = .error fault ↔
      (union.capabilities.docPlace = .tag ∧ union.tag.doc = none ∧
        fault = .missingDoc union.name union.tag.name) ∨
      ((union.capabilities.docPlace = .tag → union.tag.doc ≠ none) ∧
        (union.checkVariants [] union.variants = .error fault ∨
          union.checkVariants [] union.variants = .ok () ∧ union.checkWidth = .error fault)) := by
  rw [validate]
  by_cases missing : union.capabilities.docPlace = .tag ∧ union.tag.doc = none
  · simp [missing, bind, Except.bind, eq_comm]
  · rw [if_neg missing, ← not_and, and_iff_right missing, ← and_assoc,
      or_iff_right fun both => missing both.1]
    exact Outcome.check_error_iff _ _ _

end Union

/-- A union is accepted exactly if its tag is documented where it has to be, its variants have
names of their own and hold what they can, and their numbers fit. Otherwise the fault is that
of its first defect: the missing documentation, or else the first variant that is refused with
its first defect, or else the number of the last variant.

Proof: the check is three checks in a row, and it fails with the fault of the first that fails. The
one over the variants is a run over a list with the names seen so far. By induction on the list it
fails at the variant up to which the names are distinct and the bodies well formed, and with the
first defect of this variant. The width is looked at only if there is no other defect, and then only
the number of the last variant is compared. -/
theorem validation_reports_first_defect (union : Union) :
    (union.validate = .ok () ↔ union.WellFormed) ∧
      ∀ fault, union.validate = .error fault ↔ union.FirstDefect fault := by
  refine ⟨union.validate_ok_iff, fun fault => ?_⟩
  rw [union.validate_error_cases, union.checkVariants_error_iff, union.checkWidth_error_iff,
    union.checkVariants_ok_iff, fresh_nil_iff]
  constructor
  · rintro (⟨place, missing, rfl⟩ |
      ⟨documented, ⟨before, variant, after, order, ⟨distinct, bodies⟩, refused⟩ |
        ⟨⟨distinct, bodies⟩, last, isLast, excess, rfl⟩⟩)
    · exact .undocumented place missing
    · exact .variant documented order distinct bodies refused
    · exact .overflow documented distinct bodies isLast excess
  · rintro (⟨place, missing⟩ | ⟨documented, order, distinct, bodies, refused⟩ |
      ⟨documented, distinct, bodies, isLast, excess⟩)
    · exact Or.inl ⟨place, missing, rfl⟩
    · exact Or.inr ⟨documented, Or.inl ⟨_, _, _, order, ⟨distinct, bodies⟩, refused⟩⟩
    · exact Or.inr ⟨documented, Or.inr ⟨⟨distinct, bodies⟩, _, isLast, excess, rfl⟩⟩

/-- A variant repeats a member before it holds a node, the next one repeats its name, and no
number fits. Only the repeated member is reported. -/
example :
    Union.validate {
      name := "Mark", tag := { name := "MarkTag", width := .u8, start := some 300 }
      variants := [
        .record "Dot" [.data "x" "f32", .data "x" "f32", .node "page" (.named "Page")],
        .wrapped "Dot" "Mark"] } =
      .error (.duplicateMember "Mark::Dot" "x") := by
  decide

end Taxonomy
