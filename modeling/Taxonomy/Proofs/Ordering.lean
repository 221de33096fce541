import Mathlib.Data.List.Forall2
import Mathlib.Data.List.Pairwise
import Mathlib.Data.List.Sort
import Mathlib.Data.String.Basic

/-!
# Lists ordered by a text

Several lists are put in the order of a text that each element has: derived types
by their names, slots by how they are written, facades by their public names. The
sorting is stable and keeps every element. Where the texts are pairwise different
the order is strict, and then the elements alone determine the list. Sorting by
insertion gives the same list.
-/
namespace Taxonomy.Ordering

variable {α : Type}

/-- Comparing by a text is transitive. -/
theorem by_text_trans (key : α → String) (first second third : α) :
    decide (key first ≤ key second) = true → decide (key second ≤ key third) = true →
      decide (key first ≤ key third) = true := by
  simpa using String.le_trans

/-- Comparing by a text is total. -/
theorem by_text_total (key : α → String) (first second : α) :
    (decide (key first ≤ key second) || decide (key second ≤ key first)) = true := by
  simpa using String.le_total (key first) (key second)

/-- Sorting by a text puts the texts in order. -/
theorem mergeSort_ordered (key : α → String) (elements : List α) :
    (elements.mergeSort fun left right => decide (key left ≤ key right)).Pairwise
      fun left right => key left ≤ key right := by
  have sorted : (elements.mergeSort fun left right => decide (key left ≤ key right)).Pairwise
      fun left right => decide (key left ≤ key right) = true :=
    List.pairwise_mergeSort (by_text_trans key) (by_text_total key) elements
  simpa using sorted

/-- Sorting by texts that are pairwise different gives a strict order. -/
theorem mergeSort_strict (key : α → String) (elements : List α)
    (distinct : (elements.map key).Nodup) :
    (elements.mergeSort fun left right => decide (key left ≤ key right)).Pairwise
      fun left right => key left < key right := by
  let sorted := elements.mergeSort fun left right => decide (key left ≤ key right)
  have same : (sorted.map key).Nodup :=
    ((List.mergeSort_perm elements _).map key).nodup_iff.mpr distinct
  have apart : sorted.Pairwise fun left right => key left ≠ key right := List.pairwise_map.mp same
  refine ((mergeSort_ordered key elements).and apart).imp ?_
  rintro left right ⟨ordered, different⟩
  exact lt_of_le_of_ne ordered different

/-- Sorting leaves elements of one text as they were: it is stable. -/
theorem mergeSort_filter_key (key : α → String) (elements : List α) (text : String) :
    (elements.mergeSort fun left right => decide (key left ≤ key right)).filter
        (fun element => key element == text) =
      elements.filter fun element => key element == text := by
  let sorted := elements.mergeSort fun left right => decide (key left ≤ key right)
  have alike : (elements.filter fun element => key element == text).Pairwise
      fun left right => decide (key left ≤ key right) = true := by
    refine List.pairwise_of_forall_mem_list fun left leftMember right rightMember => ?_
    have leftText : key left = text := by simpa using (List.mem_filter.mp leftMember).2
    have rightText : key right = text := by simpa using (List.mem_filter.mp rightMember).2
    simp [leftText, rightText]
  have kept : (elements.filter fun element => key element == text).Sublist sorted :=
    List.sublist_mergeSort (by_text_trans key) (by_text_total key) alike
      List.filter_sublist
  -- What is kept is all of it, since sorting neither adds nor drops an element.
  have within := kept.filter fun element => key element == text
  rw [List.filter_filter] at within
  simp only [Bool.and_self] at within
  refine (within.eq_of_length ?_).symm
  exact ((List.mergeSort_perm elements _).filter _).length_eq.symm

/-- After sorting, of two elements the earlier one has the smaller text, or the texts are
equal and it was the earlier one before. -/
theorem mergeSort_stable (key : α → String) (elements : List α) :
    (elements.mergeSort fun left right => decide (key left ≤ key right)).Pairwise
      fun left right => key left < key right ∨
        key left = key right ∧ [left, right].Sublist elements := by
  rw [List.pairwise_iff_forall_sublist]
  intro left right placed
  have ordered : key left ≤ key right :=
    List.pairwise_iff_forall_sublist.mp (mergeSort_ordered key elements) placed
  by_cases same : key left = key right
  · refine Or.inr ⟨same, ?_⟩
    have alike := placed.filter fun element => key element == key right
    rw [mergeSort_filter_key] at alike
    simp only [same, beq_self_eq_true, List.filter_cons_of_pos, List.filter_nil] at alike
    exact alike.trans List.filter_sublist
  · exact Or.inl (lt_of_le_of_ne ordered same)

/-- Lists that agree element by element still do after sorting, if elements that agree have
the same text. -/
theorem forall₂_mergeSort {β : Type} {related : α → β → Prop} {key : α → String}
    {other : β → String} (same : ∀ first second, related first second → key first = other second)
    {left : List α} {right : List β} (agree : List.Forall₂ related left right) :
    List.Forall₂ related (left.mergeSort fun first second => decide (key first ≤ key second))
      (right.mergeSort fun first second => decide (other first ≤ other second)) := by
  -- Both are what sorting the pairs gives.
  let pairs := left.zip right
  let sorted := pairs.mergeSort fun first second => decide (key first.1 ≤ key second.1)
  have paired {pair : α × β} (member : pair ∈ pairs) : related pair.1 pair.2 :=
    List.forall₂_zip agree member
  have fronts : sorted.map Prod.fst =
      left.mergeSort fun first second => decide (key first ≤ key second) := by
    rw [← List.map_fst_zip (Nat.le_of_eq agree.length_eq)]
    exact List.map_mergeSort fun first _ second _ => rfl
  have backs : sorted.map Prod.snd =
      right.mergeSort fun first second => decide (other first ≤ other second) := by
    rw [← List.map_snd_zip (Nat.le_of_eq agree.length_eq.symm)]
    refine List.map_mergeSort fun first firstMember second secondMember => ?_
    rw [same _ _ (paired firstMember), same _ _ (paired secondMember)]
  rw [← fronts, ← backs, List.forall₂_map_left_iff, List.forall₂_map_right_iff, List.forall₂_same]
  intro pair member
  exact paired (List.mem_mergeSort.mp member)

/-- Sorting commutes with a replacement that keeps the texts. -/
theorem map_mergeSort_key {β : Type} {change : α → β} {key : α → String} {other : β → String}
    (same : ∀ element, other (change element) = key element) (elements : List α) :
    (elements.mergeSort fun left right => decide (key left ≤ key right)).map change =
      (elements.map change).mergeSort fun left right => decide (other left ≤ other right) := by
  apply List.map_mergeSort
  intro left _ right _
  rw [same, same]

/-- Sorting by insertion gives the same list, since it is stable as well. It goes through the list
once for each element, so that what comes out can be computed. -/
theorem mergeSort_by_insertion (key : α → String) (elements : List α) :
    (elements.mergeSort fun left right => decide (key left ≤ key right)) =
      elements.insertionSort fun left right => key left ≤ key right := by
  induction elements with
  | nil => simp
  | cons element elements inductionHypothesis =>
    obtain ⟨smaller, others, whole, rest, isSmaller⟩ :=
      List.mergeSort_cons (by_text_trans key) (by_text_total key) element elements
    have ordered := mergeSort_ordered key (element :: elements)
    rw [whole, List.pairwise_append, List.pairwise_cons] at ordered
    have notAfter : ∀ other ∈ smaller, decide (¬ key element ≤ key other) = true := by
      simpa using isSmaller
    rw [whole, List.insertionSort_cons, ← inductionHypothesis, rest,
      List.orderedInsert_eq_take_drop, List.takeWhile_append_of_pos notAfter,
      List.dropWhile_append_of_pos notAfter]
    cases others with
    | nil => simp
    | cons other others =>
      have stops : ¬ decide (¬ key element ≤ key other) = true := by
        rw [decide_eq_true_eq]
        exact not_not_intro (ordered.2.1.1 other List.mem_cons_self)
      rw [List.takeWhile_cons, List.dropWhile_cons, if_neg stops, if_neg stops, List.append_nil]

/-- Two lists in one strict order that have the same elements are equal. -/
theorem eq_of_same_members {before : α → α → Prop}
    (asymm : ∀ left right, before left right → ¬ before right left) {left right : List α}
    (leftSorted : left.Pairwise before) (rightSorted : right.Pairwise before)
    (same : ∀ element, element ∈ left ↔ element ∈ right) : left = right := by
  have distinct {elements : List α} (sorted : elements.Pairwise before) : elements.Nodup := by
    refine sorted.imp ?_
    rintro first second related rfl
    exact asymm first first related related
  have permuted : left.Perm right :=
    (List.perm_ext_iff_of_nodup (distinct leftSorted) (distinct rightSorted)).mpr same
  refine permuted.eq_of_pairwise ?_ leftSorted rightSorted
  intro first second _ _ forward backward
  exact absurd backward (asymm first second forward)

/-- In a list that is strictly ordered, as many elements come before an element as
its position says. -/
theorem countP_before_eq {before : α → α → Prop} [DecidableRel before]
    (asymm : ∀ left right, before left right → ¬ before right left) {elements : List α}
    (sorted : elements.Pairwise before) {position : Nat} {element : α}
    (listed : elements[position]? = some element) :
    (elements.countP fun other => before other element) = position := by
  induction elements generalizing position with
  | nil => simp at listed
  | cons first rest inductionHypothesis =>
    rw [List.pairwise_cons] at sorted
    cases position with
    | zero =>
      obtain rfl := Option.some.inj listed
      have none (other : α) (member : other ∈ first :: rest) : ¬ before other first := by
        rcases List.mem_cons.mp member with rfl | later
        · exact fun self => asymm other other self self
        · exact asymm first other (sorted.1 other later)
      rw [List.countP_eq_zero]
      simpa using none
    | succ position =>
      have less : before first element := sorted.1 element (List.mem_of_getElem? listed)
      rw [List.countP_cons, inductionHypothesis sorted.2 listed]
      simp [less]

end Taxonomy.Ordering
