import Mathlib.Data.List.Nodup
import Taxonomy.Proofs.Outcome
import Taxonomy.Repetition

/-!
# Names that were not used before

Several checks go through a list and keep the names they have met, and refuse a
name that they meet again. They accept exactly if the names are pairwise different
and none of them was there before. Whatever else such a check looks at, it reports
the first element that it refuses, after accepting those before it.
-/
namespace Taxonomy

variable {α : Type}

/-- Elements that are pairwise different, none of which was seen before. -/
def Fresh (seen elements : List α) : Prop :=
  elements.Nodup ∧ ∀ element ∈ elements, element ∉ seen

/-- With nothing seen before it only counts that the elements are different. -/
theorem fresh_nil_iff (elements : List α) : Fresh [] elements ↔ elements.Nodup := by
  simp [Fresh]

/-- One element is fresh if it was not seen before. -/
theorem fresh_singleton_iff {seen : List α} {element : α} :
    Fresh seen [element] ↔ element ∉ seen := by
  simp [Fresh]

/-- Going on from the first element, it counts as seen. -/
theorem fresh_cons_iff (seen : List α) (element : α) (rest : List α) :
    Fresh seen (element :: rest) ↔ element ∉ seen ∧ Fresh (element :: seen) rest := by
  rw [Fresh, Fresh, List.nodup_cons, List.forall_mem_cons]
  constructor
  · rintro ⟨⟨absent, distinct⟩, unseen, others⟩
    refine ⟨unseen, distinct, fun other member met => ?_⟩
    rcases List.mem_cons.mp met with rfl | earlier
    · exact absent member
    · exact others other member earlier
  · rintro ⟨unseen, distinct, others⟩
    refine ⟨⟨fun member => others element member List.mem_cons_self, distinct⟩, unseen, ?_⟩
    exact fun other member earlier => others other member (List.mem_cons_of_mem _ earlier)

/-- In which order elements were seen makes no difference. -/
theorem fresh_congr {seen other : List α} (same : ∀ element, element ∈ seen ↔ element ∈ other)
    (elements : List α) : Fresh seen elements ↔ Fresh other elements := by
  simp only [Fresh, same]

/-- The same as `fresh_cons_iff` if what was seen is kept in its order. -/
theorem fresh_cons_iff_append (seen : List α) (element : α) (rest : List α) :
    Fresh seen (element :: rest) ↔ element ∉ seen ∧ Fresh (seen ++ [element]) rest := by
  have same (value : α) : value ∈ element :: seen ↔ value ∈ seen ++ [element] := by
    simp [or_comm]
  rw [fresh_cons_iff, fresh_congr same]

/-- The search for a repetition finds nothing exactly if the elements are fresh. -/
theorem firstRepeated_none_iff [DecidableEq α] (seen elements : List α) :
    firstRepeated seen elements = none ↔ Fresh seen elements := by
  induction elements generalizing seen with
  | nil => simp [firstRepeated, Fresh]
  | cons element rest inductionHypothesis =>
    rw [firstRepeated, fresh_cons_iff]
    by_cases met : element ∈ seen
    · simp [met]
    · simp [met, inductionHypothesis]

/-- What the search finds was seen before, or stands earlier in the list as well, and it
is the first such element: those before it are fresh. -/
theorem firstRepeated_split [DecidableEq α] {seen elements : List α} {element : α}
    (found : firstRepeated seen elements = some element) :
    ∃ before after, elements = before ++ element :: after ∧ Fresh seen before ∧
      (element ∈ seen ∨ element ∈ before) := by
  induction elements generalizing seen with
  | nil => simp [firstRepeated] at found
  | cons first rest inductionHypothesis =>
    rw [firstRepeated] at found
    by_cases met : first ∈ seen
    · rw [if_pos met, Option.some.injEq] at found
      subst found
      exact ⟨[], rest, rfl, by simp [Fresh], Or.inl met⟩
    · rw [if_neg met] at found
      obtain ⟨before, after, rfl, fresh, earlier⟩ := inductionHypothesis found
      refine ⟨first :: before, after, rfl, (fresh_cons_iff seen first before).mpr ⟨met, fresh⟩, ?_⟩
      rw [List.mem_cons] at earlier ⊢
      tauto

/-- Searching a whole list finds nothing exactly if no element stands in it
twice. -/
theorem firstRepeated_nil_iff [DecidableEq α] (elements : List α) :
    firstRepeated [] elements = none ↔ elements.Nodup := by
  rw [firstRepeated_none_iff, fresh_nil_iff]

/-- A check of elements one after the other, which keeps the keys that it has met, fails
as it does on the first element that it refuses. -/
theorem scan_error_iff {β ε : Type} {key : α → β} {check : List β → List α → Except ε Unit}
    {step : List β → α → Except ε Unit} (ends : ∀ seen, check seen [] = .ok ())
    (goesOn : ∀ seen element rest,
      check seen (element :: rest) =
        (step seen element >>= fun _ => check (key element :: seen) rest))
    (seen : List β) (elements : List α) (fault : ε) :
    check seen elements = .error fault ↔
      ∃ before element after, elements = before ++ element :: after ∧
        check seen before = .ok () ∧
        step ((before.map key).reverse ++ seen) element = .error fault := by
  induction elements generalizing seen with
  | nil => simp [ends]
  | cons first rest inductionHypothesis =>
    rw [goesOn, Outcome.check_error_iff]
    constructor
    · rintro (refused | ⟨passed, late⟩)
      · exact ⟨[], first, rest, rfl, ends seen, refused⟩
      · obtain ⟨before, element, after, rfl, accepted, refused⟩ := (inductionHypothesis _).mp late
        refine ⟨first :: before, element, after, rfl, ?_, by simpa using refused⟩
        rw [goesOn, Outcome.check_ok_iff]
        exact ⟨passed, accepted⟩
    · rintro ⟨before, element, after, split, accepted, refused⟩
      cases before with
      | nil =>
        obtain ⟨rfl, rfl⟩ := List.cons.inj split
        exact Or.inl refused
      | cons other before =>
        obtain ⟨rfl, rfl⟩ := List.cons.inj split
        rw [goesOn, Outcome.check_ok_iff] at accepted
        refine Or.inr ⟨accepted.1, (inductionHypothesis _).mpr ?_⟩
        exact ⟨before, element, after, rfl, accepted.2, by simpa using refused⟩

/-- An element with a new key can be added at the end. -/
theorem distinct_concat {β : Type} {key : α → β} {elements : List α} {element : α}
    (distinct : (elements.map key).Nodup) (fresh : key element ∉ elements.map key) :
    ((elements ++ [element]).map key).Nodup := by
  rw [List.map_append, List.nodup_append]
  refine ⟨distinct, by simp, ?_⟩
  rintro left leftMember right rightMember rfl
  exact fresh (List.mem_singleton.mp rightMember ▸ leftMember)

/-- Where no text stands twice, looking a text up finds exactly the element that has
it. -/
theorem find?_key_iff {key : α → String} {elements : List α}
    (distinct : (elements.map key).Nodup) (text : String) (element : α) :
    (elements.find? fun other => key other == text) = some element ↔
      element ∈ elements ∧ key element = text := by
  constructor
  · intro found
    exact ⟨List.mem_of_find?_eq_some found, by simpa using List.find?_some found⟩
  · rintro ⟨member, rfl⟩
    cases found : elements.find? fun other => key other == key element with
    | none =>
      have absent := List.find?_eq_none.mp found element member
      simp at absent
    | some other =>
      have alike : key other = key element := by simpa using List.find?_some found
      rw [List.inj_on_of_nodup_map distinct (List.mem_of_find?_eq_some found) member alike]

/-- Looking a text up does not depend on the order of the elements. -/
theorem find?_key_perm {key : α → String} {left right : List α} (permuted : left.Perm right)
    (distinct : (left.map key).Nodup) (text : String) :
    (left.find? fun other => key other == text) = right.find? fun other => key other == text := by
  ext element
  rw [find?_key_iff distinct, find?_key_iff ((permuted.map key).nodup_iff.mp distinct),
    permuted.mem_iff]

end Taxonomy
