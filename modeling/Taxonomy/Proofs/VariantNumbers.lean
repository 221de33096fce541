import Mathlib.Data.List.Chain
import Mathlib.Order.Basic
import Taxonomy.Proofs.UnionDefects

/-!
# The numbers of the variants

Variants are numbered from the first value of the tag on. A number is never written larger
than the largest tag, so variants beyond it would be given one number together. The check of a
union looks at the number of its last variant alone, and not at how it is written. That this
is enough is shown here: in an accepted union every number is written as it is, no two
variants share one, and all of them fit into the tag. Where nothing else is wrong, a union is
refused only if the number of its last variant really is too large.
-/
namespace Taxonomy.Union

/-- The entries are in the order of the variants, one for each. -/
theorem tagValues_at (union : Union) (index : Nat) :
    union.tagValues[index]? = union.variants[index]?.map fun variant =>
      ⟨variant.name, min (union.tag.first + index) maxTag⟩ := by
  rw [tagValues, List.getElem?_mapIdx]

/-- The labels are the names of the variants. -/
theorem tagValues_labels (union : Union) :
    union.tagValues.map TagEntry.label = union.variants.map Variant.name := by
  apply List.ext_getElem?
  intro index
  rw [List.getElem?_map, tagValues_at, Option.map_map, List.getElem?_map]
  rfl

namespace WellFormed

variable {union : Union}

/-- In a well-formed union the number of every variant fits, since that of the last does. -/
theorem number_fits (wellFormed : union.WellFormed) {index : Nat}
    (inside : index < union.variants.length) :
    union.tag.first + index ≤ union.tag.width.max := by
  have nonempty : union.variants ≠ [] := List.length_pos_iff.mp (Nat.zero_lt_of_lt inside)
  have lastFits := wellFormed.fits nonempty
  omega

/-- A number that fits is written as it is. -/
theorem tagValues_exact (wellFormed : union.WellFormed) {index : Nat} {variant : Variant}
    (listed : union.variants[index]? = some variant) :
    union.tagValues[index]? = some ⟨variant.name, union.tag.first + index⟩ := by
  have inside : index < union.variants.length := (List.getElem?_eq_some_iff.mp listed).1
  have fits : union.tag.first + index ≤ maxTag :=
    (wellFormed.number_fits inside).trans union.tag.width.max_le
  rw [tagValues_at, listed, Option.map_some, Nat.min_eq_left fits]

/-- The numbers of a well-formed union follow each other from the first value on. -/
theorem tagValues_numbers (wellFormed : union.WellFormed) :
    union.tagValues.map TagEntry.value =
      List.range' union.tag.first union.variants.length := by
  apply List.ext_getElem?
  intro index
  rw [List.getElem?_map]
  cases listed : union.variants[index]? with
  | none =>
    have outside : union.variants.length ≤ index := List.getElem?_eq_none_iff.mp listed
    simp [tagValues_at, outside]
  | some variant =>
    have inside : index < union.variants.length := (List.getElem?_eq_some_iff.mp listed).1
    simp [wellFormed.tagValues_exact listed, List.getElem?_range' inside]

end WellFormed

end Union

/-- The variants of an accepted union have the numbers from the first value on, exactly and in
their order: labels and numbers are pairwise different, each number is the one before it plus
one, and all fit into the tag. A union with variants in which all but the numbers is in order
is refused exactly if the number of its last variant, computed without a bound, does not fit.

Proof: in an accepted union the number of the last variant fits, and it is the largest one. So no
number is cut off at the largest of 64 bits, and the numbers are those of a range without gaps.
Acceptance is known as a condition on the union, of which only the last part is about numbers. -/
theorem accepted_numbers_never_saturate (union : Union) :
    (union.validate = .ok () →
      union.tagValues.length = union.variants.length ∧
      (∀ (index : Nat) (variant : Variant), union.variants[index]? = some variant →
        union.tagValues[index]? = some ⟨variant.name, union.tag.first + index⟩) ∧
      (union.tagValues.map TagEntry.label).Nodup ∧
      (union.tagValues.map TagEntry.value).Nodup ∧
      (union.tagValues.IsChain fun left right => right.value = left.value + 1) ∧
      ∀ entry ∈ union.tagValues, entry.value ≤ union.tag.width.max) ∧
    (union.variants ≠ [] →
      (union.capabilities.docPlace = .tag → union.tag.doc ≠ none) →
      (union.variants.map Variant.name).Nodup →
      (∀ variant ∈ union.variants, variant.body.WellFormed union.name) →
      (union.validate ≠ .ok () ↔
        union.tag.width.max < union.tag.first + (union.variants.length - 1))) := by
  constructor
  · intro accepted
    have wellFormed := union.validate_ok_iff.mp accepted
    have numbers := wellFormed.tagValues_numbers
    refine ⟨by simp [Union.tagValues], fun index variant => wellFormed.tagValues_exact, ?_, ?_, ?_,
      ?_⟩
    · rw [union.tagValues_labels]
      exact wellFormed.variants_distinct
    · rw [numbers]
      exact List.nodup_range'
    · have consecutive := List.isChain_range' union.tag.first union.variants.length 1
      rwa [← numbers, List.isChain_map] at consecutive
    · intro entry member
      have numbered := List.mem_map_of_mem (f := TagEntry.value) member
      rw [numbers, List.mem_range'_1] at numbered
      have inside : entry.value - union.tag.first < union.variants.length := by omega
      have fits := wellFormed.number_fits inside
      omega
  · intro nonempty documented distinct bodies
    have one : 1 ≤ union.variants.length := List.length_pos_iff.mpr nonempty
    rw [Ne, union.validate_ok_iff]
    constructor
    · intro refused
      by_contra fits
      exact refused ⟨documented, distinct, bodies, fun _ => by omega⟩
    · intro excess wellFormed
      have inside : union.variants.length - 1 < union.variants.length := by omega
      have fits := wellFormed.number_fits inside
      omega

/-- A union whose first value is the last but one of all tags. -/
def shoreUnion (variants : List Variant) : Union where
  name := "Shore"
  tag := { name := "ShoreTag", width := .u64, start := some (2 ^ 64 - 2) }
  variants := variants

/-- Two variants get the last two tags. A third one is refused, for its number would be written
as that of the second. -/
theorem shore_numbers_never_saturate :
    (shoreUnion [.unit "Sand", .unit "Reed"]).validate = .ok () ∧
    (shoreUnion [.unit "Sand", .unit "Reed"]).tagValues[1]? = some ⟨"Reed", 2 ^ 64 - 1⟩ ∧
    ((shoreUnion [.unit "Sand", .unit "Reed"]).tagValues.map TagEntry.value).Nodup ∧
    (shoreUnion [.unit "Sand", .unit "Reed", .unit "Sea"]).validate ≠ .ok () ∧
    (shoreUnion [.unit "Sand", .unit "Reed", .unit "Sea"]).tag.width.max < 2 ^ 64 - 2 + 2 ∧
    (shoreUnion [.unit "Sand", .unit "Reed", .unit "Sea"]).tagValues.map TagEntry.value =
      [2 ^ 64 - 2, 2 ^ 64 - 1, 2 ^ 64 - 1] := by
  have accepted : (shoreUnion [.unit "Sand", .unit "Reed"]).validate = .ok () := by decide
  have refused : (shoreUnion [.unit "Sand", .unit "Reed", .unit "Sea"]).validate ≠ .ok () := by
    decide
  obtain ⟨_, exactly, _, distinct, _⟩ := (accepted_numbers_never_saturate _).1 accepted
  have bodies : ∀ variant ∈ [Variant.unit "Sand", .unit "Reed", .unit "Sea"],
      variant.body.WellFormed "Shore" := by
    simp [Variant.unit, Variant.record, VariantBody.WellFormed]
  have excess := ((accepted_numbers_never_saturate
    (shoreUnion [.unit "Sand", .unit "Reed", .unit "Sea"])).2 (by decide) (by decide) (by decide)
      bodies).mp refused
  exact ⟨accepted, exactly 1 _ rfl, distinct, refused, excess, by decide⟩

end Taxonomy
