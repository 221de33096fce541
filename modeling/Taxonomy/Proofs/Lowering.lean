import Taxonomy.Instruction
import Taxonomy.Proofs.DerivedNames
import Taxonomy.Proofs.VariantNumbers

/-!
# Which instruction sets are accepted

The union of a list of instructions holds data only, needs no documentation of its tag and wraps
nothing, so most checks of a union cannot fail on it. What is left are repeated names and the
width of the tag.

Operands are escaped before the members of a variant are compared. Two operands of different names
can be merged in this way, and only in one: one of them is named by a reserved word, and the other
one by this word with an underscore at its end.
-/
namespace Taxonomy

/-- Escaped names are pairwise different exactly if the names are, and none of them is that of
another one, which is reserved, with an underscore at its end. -/
theorem escaped_nodup_iff (names : List String) :
    (names.map escapeReserved).Nodup ↔
      names.Nodup ∧ ∀ word, isReserved word = true → ¬ (word ∈ names ∧ word ++ "_" ∈ names) := by
  constructor
  · intro distinct
    have named : names.Nodup := distinct.of_map escapeReserved
    refine ⟨named, ?_⟩
    rintro word reserved ⟨bare, marked⟩
    have merged : escapeReserved word = escapeReserved (word ++ "_") :=
      (escapeReserved_eq_iff _ _).mpr (.inr (.inl ⟨reserved, rfl⟩))
    have same := (List.nodup_map_iff_inj_on named).mp distinct _ bare _ marked merged
    rw [same, reserved_underscore] at reserved
    cases reserved
  · rintro ⟨named, unmerged⟩
    rw [List.nodup_map_iff_inj_on named]
    intro left leftListed right rightListed alike
    rcases (escapeReserved_eq_iff left right).mp alike with
      same | ⟨reserved, rfl⟩ | ⟨reserved, rfl⟩
    · exact same
    · exact absurd ⟨leftListed, rightListed⟩ (unmerged left reserved)
    · exact absurd ⟨rightListed, leftListed⟩ (unmerged right reserved)

/-- The member holds the operand: it is required data of the operand's type, has its documentation
and its name, escaped if need be, and can be used as a name. -/
structure Operand.HeldBy (operand : Operand) (member : Member) : Prop where
  data : ∃ simple, member.kind = .data operand.kind.memberType simple
  required : member.isRequired = true
  doc : member.doc = operand.doc
  named : member.name = operand.name ∨
    (isReserved operand.name = true ∧ member.name = operand.name ++ "_")
  free : isReserved member.name = false

/-- An operand is held by its member. -/
theorem Operand.heldBy_member (operand : Operand) : operand.HeldBy operand.member := by
  refine ⟨⟨false, rfl⟩, rfl, rfl, ?_, escapeReserved_free operand.name⟩
  rw [Operand.member, escapeReserved]
  by_cases reserved : isReserved operand.name
  · exact .inr ⟨reserved, if_pos reserved⟩
  · exact .inl (if_neg reserved)

namespace Instruction

/-- The names of the operands. -/
def operandNames (instruction : Instruction) : List String :=
  instruction.operands.map Operand.name

/-- The variant of an instruction is well formed exactly if its escaped operands are different. -/
theorem body_wellFormed_iff (instruction : Instruction) (union : String) :
    instruction.variant.body.WellFormed union ↔
      (instruction.operandNames.map escapeReserved).Nodup := by
  have data : ∀ member ∈ instruction.operands.map Operand.member,
      member.kind.isChild = false := by
    intro member listed
    obtain ⟨operand, _, rfl⟩ := List.mem_map.mp listed
    rfl
  have names : (instruction.operands.map Operand.member).map Member.name =
      instruction.operandNames.map escapeReserved := by
    rw [operandNames, List.map_map, List.map_map]
    rfl
  rw [variant, VariantBody.WellFormed, names, and_iff_right data]

variable {name : String} {tag : Tag} {instructions : List Instruction}

/-- The union of a list of instructions is well formed exactly if their names are different, the
escaped operands of each are, and the numbers fit. -/
theorem lower_wellFormed_iff :
    (lower name tag instructions).WellFormed ↔
      (instructions.map Instruction.name).Nodup ∧
        (∀ instruction ∈ instructions, (instruction.operandNames.map escapeReserved).Nodup) ∧
        (instructions ≠ [] → tag.first + instructions.length - 1 ≤ tag.width.max) := by
  have names : (lower name tag instructions).variants.map Variant.name =
      instructions.map Instruction.name := by
    rw [lower, List.map_map]
    rfl
  have bodies : (∀ variant ∈ (lower name tag instructions).variants,
      variant.body.WellFormed name) ↔
        ∀ instruction ∈ instructions, (instruction.operandNames.map escapeReserved).Nodup := by
    rw [lower, List.forall_mem_map]
    simp only [body_wellFormed_iff]
  have fits : ((lower name tag instructions).variants ≠ [] →
      tag.first + (lower name tag instructions).variants.length - 1 ≤ tag.width.max) ↔
        (instructions ≠ [] → tag.first + instructions.length - 1 ≤ tag.width.max) := by
    rw [lower, List.length_map, Ne, List.map_eq_nil_iff]
  rw [← names, ← bodies, ← fits]
  constructor
  · rintro ⟨_, distinct, each, numbers⟩
    exact ⟨distinct, each, numbers⟩
  · rintro ⟨distinct, each, numbers⟩
    refine ⟨fun place => ?_, distinct, each, numbers⟩
    -- Documentation stays with the members, so the tag needs none.
    cases place

/-- In an accepted union every instruction has its own name and the number of its position. -/
theorem lower_tagValues (wellFormed : (lower name tag instructions).WellFormed) :
    (lower name tag instructions).tagValues =
      instructions.mapIdx fun index instruction => ⟨instruction.name, tag.first + index⟩ := by
  apply List.ext_getElem?
  intro index
  have variants : (lower name tag instructions).variants[index]? =
      instructions[index]?.map variant := by
    rw [lower, List.getElem?_map]
  rw [List.getElem?_mapIdx]
  cases listed : instructions[index]? with
  | none =>
    rw [Union.tagValues_at, variants, listed]
    rfl
  | some instruction =>
    rw [listed, Option.map_some] at variants
    exact wellFormed.tagValues_exact variants

end Instruction

/-- The union of a list of instructions is accepted exactly if the instructions have different
names, the operands of each have different names, no operand is named by a reserved word next to
one that is named by this word with an underscore, and there are no instructions or the number of
the last one fits into the tag.

An accepted union numbers the instructions in their order from the first value of the tag on, and
its variants hold their operands in their order.

Proof: of the conditions on an accepted union, those on documentation and on wrapped types hold of
every union of instructions. Those on the members of a variant say that its escaped operands are
different. Escaping merges two different names only if one is reserved and the other one is its
escaped form. The numbers are those of the variants of any accepted union. -/
theorem lowering_accepted_exactly (name : String) (tag : Tag) (instructions : List Instruction) :
    ((Instruction.lower name tag instructions).validate = .ok () ↔
      (instructions.map Instruction.name).Nodup ∧
      (∀ instruction ∈ instructions, (instruction.operands.map Operand.name).Nodup) ∧
      (∀ instruction ∈ instructions, ∀ word, isReserved word = true →
        ¬ (word ∈ instruction.operands.map Operand.name ∧
          word ++ "_" ∈ instruction.operands.map Operand.name)) ∧
      (instructions = [] ∨ tag.first + instructions.length - 1 ≤ tag.width.max)) ∧
    ((Instruction.lower name tag instructions).validate = .ok () →
      (Instruction.lower name tag instructions).tagValues =
        (instructions.mapIdx fun index instruction => ⟨instruction.name, tag.first + index⟩) ∧
      List.Forall₂ (fun instruction variant => variant.name = instruction.name ∧
          ∃ members, variant.body = .record members ∧
            List.Forall₂ Operand.HeldBy instruction.operands members)
        instructions (Instruction.lower name tag instructions).variants) := by
  rw [Union.validate_ok_iff]
  constructor
  · have operands : (∀ instruction ∈ instructions,
        (instruction.operandNames.map escapeReserved).Nodup) ↔
          (∀ instruction ∈ instructions, instruction.operandNames.Nodup) ∧
          ∀ instruction ∈ instructions, ∀ word, isReserved word = true →
            ¬ (word ∈ instruction.operandNames ∧ word ++ "_" ∈ instruction.operandNames) := by
      simp only [escaped_nodup_iff, forall_and]
    rw [Instruction.lower_wellFormed_iff, operands, and_assoc, ← or_iff_not_imp_left]
    rfl
  · intro wellFormed
    refine ⟨Instruction.lower_tagValues wellFormed, ?_⟩
    rw [Instruction.lower, List.forall₂_map_right_iff]
    refine List.forall₂_same.mpr fun instruction _ => ⟨rfl, _, rfl, ?_⟩
    rw [List.forall₂_map_right_iff]
    exact List.forall₂_same.mpr fun operand _ => operand.heldBy_member

/-- Two instructions; the second one has an operand whose name is reserved. -/
def jumps : List Instruction :=
  [{ name := "Halt", doc := "Stop." },
    { name := "Jump", doc := "Go on elsewhere.",
      operands := [{ name := "if", kind := .register }, { name := "to", kind := .offset }] }]

/-- An instruction with two operands, one of which is called as the other one is escaped. -/
def mergedJump : Instruction where
  name := "Jump"
  doc := "Go on elsewhere."
  operands := [{ name := "if", kind := .register }, { name := "if_", kind := .register }]

/-- The tag of the jumps, which leaves room for two numbers. -/
def jumpTag : Tag where
  name := "JumpCode"
  width := .u8
  start := some 254

/-- The jumps are accepted with the last two numbers of their tag. With merged operands they are
not. -/
theorem jumps_accepted :
    (Instruction.lower "Jumps" jumpTag jumps).validate = .ok () ∧
      (Instruction.lower "Jumps" jumpTag jumps).tagValues = [⟨"Halt", 254⟩, ⟨"Jump", 255⟩] ∧
      (Instruction.lower "Jumps" jumpTag [mergedJump]).validate ≠ .ok () := by
  have accepted : (Instruction.lower "Jumps" jumpTag jumps).validate = .ok () := by decide
  have numbered := ((lowering_accepted_exactly "Jumps" jumpTag jumps).2 accepted).1
  refine ⟨accepted, numbered, fun success => ?_⟩
  obtain ⟨_, _, unmerged, _⟩ :=
    (lowering_accepted_exactly "Jumps" jumpTag [mergedJump]).1.mp success
  exact unmerged mergedJump List.mem_cons_self "if" (by decide) (by decide)

end Taxonomy
