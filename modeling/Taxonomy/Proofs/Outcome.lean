import Mathlib.Data.List.Forall2

/-!
# Steps that can fail, one after the other

A sequence of steps succeeds exactly if each of them does, and a step that is
applied to every element of a list succeeds exactly if it does on each element.
These laws take a successful computation apart without looking into its steps. If it
fails, the fault is that of one of its steps.

Calls that answer and change a state make up a run, which goes on after a call that
fails. What every call preserves, the run does.
-/
namespace Taxonomy.Outcome

variable {ε α β γ δ : Type}

/-- Two steps succeed together exactly if the first succeeds and the second
succeeds on its result. -/
theorem bind_ok_iff (first : Except ε α) (second : α → Except ε β) (result : β) :
    (first >>= second) = .ok result ↔ ∃ value, first = .ok value ∧ second value = .ok result := by
  cases first with
  | error fault => simp [bind, Except.bind]
  | ok value => simp [bind, Except.bind]

/-- Two steps fail together exactly if the first fails, or the second fails on its
result. -/
theorem bind_error_iff (first : Except ε α) (second : α → Except ε β) (fault : ε) :
    (first >>= second) = .error fault ↔
      first = .error fault ∨ ∃ value, first = .ok value ∧ second value = .error fault := by
  cases first with
  | error other => simp [bind, Except.bind]
  | ok value => simp [bind, Except.bind]

/-- A check before a step succeeds together with it. -/
theorem check_ok_iff (check : Except ε Unit) (next : Except ε α) (result : α) :
    (check >>= fun _ => next) = .ok result ↔ check = .ok () ∧ next = .ok result := by
  cases check with
  | error fault => simp [bind, Except.bind]
  | ok value => simp [bind, Except.bind]

/-- A check before a step fails, or it passes and the step fails. -/
theorem check_error_iff (check : Except ε Unit) (next : Except ε α) (fault : ε) :
    (check >>= fun _ => next) = .error fault ↔
      check = .error fault ∨ check = .ok () ∧ next = .error fault := by
  cases check with
  | error other => simp [bind, Except.bind]
  | ok value => simp [bind, Except.bind]

/-- A value is returned as it is. -/
theorem pure_ok_iff (value result : α) :
    (pure value : Except ε α) = .ok result ↔ value = result := by
  simp [pure, Except.pure]

/-- A step on each element gives the list of the single results. -/
theorem mapM_ok_iff (step : α → Except ε β) (elements : List α) (results : List β) :
    elements.mapM step = .ok results ↔
      List.Forall₂ (fun element result => step element = .ok result) elements results := by
  induction elements generalizing results with
  | nil =>
    rw [List.mapM_nil, pure_ok_iff, List.forall₂_nil_left_iff]
    exact eq_comm
  | cons element rest inductionHypothesis =>
    simp only [List.mapM_cons, bind_ok_iff, pure_ok_iff, inductionHypothesis]
    constructor
    · rintro ⟨result, stepped, others, remaining, rfl⟩
      exact .cons stepped remaining
    · rintro (_ | ⟨stepped, remaining⟩)
      exact ⟨_, stepped, _, remaining, rfl⟩

/-- A step on each element succeeds exactly if it does on every element. -/
theorem mapM_succeeds_iff (step : α → Except ε β) (elements : List α) :
    (∃ results, elements.mapM step = .ok results) ↔
      ∀ element ∈ elements, ∃ result, step element = .ok result := by
  induction elements with
  | nil => simp [pure, Except.pure]
  | cons element rest inductionHypothesis =>
    simp only [List.mapM_cons, bind_ok_iff, pure_ok_iff, List.forall_mem_cons,
      ← inductionHypothesis]
    constructor
    · rintro ⟨_, result, stepped, others, remaining, _⟩
      exact ⟨⟨result, stepped⟩, others, remaining⟩
    · rintro ⟨⟨result, stepped⟩, others, remaining⟩
      exact ⟨_, result, stepped, others, remaining, rfl⟩

/-- A step that is known on every element gives the list of its results. -/
theorem mapM_of_forall {step : α → Except ε β} {result : α → β} {elements : List α}
    (each : ∀ element ∈ elements, step element = .ok (result element)) :
    elements.mapM step = .ok (elements.map result) := by
  rw [mapM_ok_iff, List.forall₂_map_right_iff, List.forall₂_same]
  exact each

/-- Lists that agree element by element agree at each position. -/
theorem forall₂_at {related : α → β → Prop} {left : List α} {right : List β}
    (agree : List.Forall₂ related left right) {position : Nat} {first : α}
    (found : left[position]? = some first) :
    ∃ second, right[position]? = some second ∧ related first second := by
  induction agree generalizing position with
  | nil => simp at found
  | cons head _ inductionHypothesis =>
    cases position with
    | zero =>
      obtain rfl := Option.some.inj found
      exact ⟨_, rfl, head⟩
    | succ position => exact inductionHypothesis found

/-- Lists that agree element by element have a partner for each element. -/
theorem forall₂_mem {related : α → β → Prop} {left : List α} {right : List β}
    (agree : List.Forall₂ related left right) {first : α} (member : first ∈ left) :
    ∃ second ∈ right, related first second := by
  obtain ⟨position, listed⟩ := List.mem_iff_getElem?.mp member
  obtain ⟨second, found, holds⟩ := forall₂_at agree listed
  exact ⟨second, List.mem_of_getElem? found, holds⟩

/-- What agrees element by element for each part agrees for all parts together. -/
theorem forall₂_flatMap {related : β → γ → Prop} {left : α → List β} {right : α → List γ}
    {elements : List α} (each : ∀ element ∈ elements,
      List.Forall₂ related (left element) (right element)) :
    List.Forall₂ related (elements.flatMap left) (elements.flatMap right) := by
  induction elements with
  | nil => exact .nil
  | cons element rest inductionHypothesis =>
    rw [List.forall_mem_cons] at each
    rw [List.flatMap_cons, List.flatMap_cons]
    exact List.rel_append each.1 (inductionHypothesis each.2)

/-- Every result of a step on a list is its result on some element. -/
theorem mem_of_mapM {step : α → Except ε β} {elements : List α} {results : List β}
    (success : elements.mapM step = .ok results) {result : β} (member : result ∈ results) :
    ∃ element ∈ elements, step element = .ok result :=
  forall₂_mem ((mapM_ok_iff _ _ _).mp success).flip member

/-- If a second step does on renamed elements what a first one does on the given
ones, up to a renaming of the results, then so it does on whole lists. The faults
are the same as well. -/
theorem mapM_renamed (rename : α → γ) (change : β → δ) (step : α → Except ε β)
    (other : γ → Except ε δ) (elements : List α)
    (agree : ∀ element ∈ elements, other (rename element) = (step element).map change) :
    (elements.map rename).mapM other = (elements.mapM step).map (List.map change) := by
  induction elements with
  | nil => rfl
  | cons element rest inductionHypothesis =>
    have tail := inductionHypothesis fun value member => agree value (List.mem_cons_of_mem _ member)
    have head := agree element List.mem_cons_self
    rw [List.map_cons, List.mapM_cons, List.mapM_cons, head, tail]
    cases step element with
    | error fault => rfl
    | ok result =>
      cases rest.mapM step with
      | error fault => rfl
      | ok results => rfl

/-- The fault of a step, if it has one. -/
def fault? : Except ε α → Option ε
  | .ok _ => none
  | .error fault => some fault

/-- A step has a fault exactly if it fails with it. -/
theorem fault?_some_iff (outcome : Except ε α) (fault : ε) :
    fault? outcome = some fault ↔ outcome = .error fault := by
  cases outcome <;> simp [fault?]

/-- A step has no fault exactly if it succeeds. -/
theorem fault?_none_iff (outcome : Except ε α) :
    fault? outcome = none ↔ ∃ value, outcome = .ok value := by
  cases outcome <;> simp [fault?]

/-- What is made of the result of a step has no bearing on its fault. -/
theorem fault?_bind_pure (outcome : Except ε α) (change : α → β) :
    fault? (outcome >>= fun value => pure (change value)) = fault? outcome := by
  cases outcome <;> rfl

/-- Where the fault of the second step does not depend on the result of the first, it counts
if the first has none. -/
theorem fault?_bind {first : Except ε α} {second : α → Except ε β} {later : Option ε}
    (same : ∀ value, fault? (second value) = later) :
    fault? (first >>= second) = (fault? first).or later := by
  cases first with
  | error fault => rfl
  | ok value => exact same value

/-- Two steps that do not look at each other's results fail one after the other. -/
theorem fault?_bind_const (first : Except ε α) (second : Except ε β) (change : α → β → γ) :
    fault? (do let left ← first; let right ← second; return change left right) =
      (fault? first).or (fault? second) :=
  fault?_bind fun left => fault?_bind_pure second (change left)

/-- The fault of a step on each element is the first one that it has on an element. -/
theorem fault?_mapM (step : α → Except ε β) (elements : List α) :
    fault? (elements.mapM step) = elements.findSome? fun element => fault? (step element) := by
  induction elements with
  | nil => rfl
  | cons element rest inductionHypothesis =>
    rw [List.mapM_cons, fault?_bind_const, inductionHypothesis, List.findSome?_cons]
    cases fault? (step element) <;> rfl

/-- A search depends only on what it selects from the elements of the list. -/
theorem findSome?_congr {select other : α → Option β} {elements : List α}
    (same : ∀ element ∈ elements, select element = other element) :
    elements.findSome? select = elements.findSome? other := by
  induction elements with
  | nil => rfl
  | cons element rest inductionHypothesis =>
    rw [List.forall_mem_cons] at same
    rw [List.findSome?_cons, List.findSome?_cons, same.1, inductionHypothesis same.2]

/-- Searching one list after the other is searching them as one. -/
theorem findSome?_flatMap (part : α → List β) (select : β → Option γ) (elements : List α) :
    (elements.flatMap part).findSome? select =
      elements.findSome? fun element => (part element).findSome? select := by
  induction elements with
  | nil => rfl
  | cons element rest inductionHypothesis =>
    rw [List.flatMap_cons, List.findSome?_append, List.findSome?_cons, inductionHypothesis]
    cases (part element).findSome? select <;> rfl

/-- If the step fails, then with a fault of the given kind. -/
def FailsWith (kind : ε → Prop) (outcome : Except ε α) : Prop :=
  ∀ fault, outcome = .error fault → kind fault

namespace FailsWith

variable {kind : ε → Prop}

/-- A step that succeeds has no fault at all. -/
theorem ok (value : α) : FailsWith kind (.ok value) :=
  fun _ failed => nomatch failed

/-- A fault that is reported is the one that was given. -/
theorem error {fault : ε} (holds : kind fault) : FailsWith kind (.error fault : Except ε α) := by
  intro other failed
  rwa [Except.error.inj failed] at holds

/-- A fault of one kind is of every kind that includes it. -/
theorem mono {other : ε → Prop} {outcome : Except ε α} (fails : FailsWith kind outcome)
    (includes : ∀ fault, kind fault → other fault) : FailsWith other outcome :=
  fun fault failed => includes fault (fails fault failed)

/-- Two steps fail as the first does, or as the second does on its result. -/
theorem bind {first : Except ε α} {second : α → Except ε β} (fails : FailsWith kind first)
    (next : ∀ value, first = .ok value → FailsWith kind (second value)) :
    FailsWith kind (first >>= second) := by
  intro fault failed
  rcases (bind_error_iff first second fault).mp failed with early | ⟨value, success, late⟩
  · exact fails fault early
  · exact next value success fault late

/-- A fault that is reported ends the steps that would come after it. -/
theorem error_bind {fault : ε} (holds : kind fault) (next : α → Except ε β) :
    FailsWith kind (.error fault >>= next) :=
  (error holds).bind fun _ success => nomatch success

/-- A step on each element fails as it does on some element. -/
theorem mapM {step : α → Except ε β} {elements : List α}
    (each : ∀ element ∈ elements, FailsWith kind (step element)) :
    FailsWith kind (elements.mapM step) := by
  induction elements with
  | nil => exact ok []
  | cons element rest inductionHypothesis =>
    rw [List.forall_mem_cons] at each
    rw [List.mapM_cons]
    refine each.1.bind fun result _ => ?_
    exact (inductionHypothesis each.2).bind fun results _ => ok (result :: results)

end FailsWith

/-- The state after calls in their order, whatever they answer. -/
def run (answer : δ → γ → α × δ) (state : δ) (calls : List γ) : δ :=
  calls.foldl (fun reached call => (answer reached call).2) state

/-- What every call preserves, a run preserves. -/
theorem run_preserves {answer : δ → γ → α × δ} {motive : δ → Prop}
    (each : ∀ state call, motive state → motive (answer state call).2) (calls : List γ)
    {state : δ} (holds : motive state) : motive (run answer state calls) := by
  induction calls generalizing state with
  | nil => exact holds
  | cons call calls inductionHypothesis => exact inductionHypothesis (each state call holds)

end Taxonomy.Outcome
