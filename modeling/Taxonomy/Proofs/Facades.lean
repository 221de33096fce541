import Taxonomy.Facade
import Taxonomy.Proofs.Growth

/-!
# What facades stand for

Gathering goes down a tree with the place of the current facade in a list that grows
while the tree is visited. The same facades can be found from below upwards, without
any place: what a tree hands up are the final types that have no facade in it, and a
public type takes all that is handed up to it.

Both ways agree. While a tree is visited, its public types only append facades, so that
the place of the current one stays good, and exactly the final types that the tree would
hand up are added to the facade at this place.

No final type is lost and none is taken twice: each is handed up or stands in one
facade.
-/
namespace Taxonomy.Facade

/-- Closes the list of final types without a facade at a type: a public type takes
them all and adds its facade in front. -/
def close (publicName : Option String) (found : List TypeId × List Facade) :
    List TypeId × List Facade :=
  match publicName with
  | none => found
  | some name => ([], ⟨name, found.1⟩ :: found.2)

mutual

/-- The final types of a tree that have no facade in it, and the facades of the
tree, found from below upwards. -/
def harvest (publicName : TypeId → Option String) : Tree → List TypeId × List Facade
  | .leaf id => close (publicName id) ([id], [])
  | .group id eldest others =>
    let first := harvest publicName eldest
    let rest := harvestAll publicName others
    close (publicName id) (first.1 ++ rest.1, first.2 ++ rest.2)

/-- The same for several trees, one tree after the other. -/
def harvestAll (publicName : TypeId → Option String) : List Tree → List TypeId × List Facade
  | [] => ([], [])
  | tree :: trees =>
    let first := harvest publicName tree
    let rest := harvestAll publicName trees
    (first.1 ++ rest.1, first.2 ++ rest.2)

end

/-- The list with final types added to the current facade, if there is one. -/
def deposit (ids : List TypeId) (current : Option Nat) (out : List Facade) : List Facade :=
  match current with
  | none => out
  | some index => out.modify index fun facade => { facade with objects := facade.objects ++ ids }

/-- The current facade, if there is one, has a place in the list. -/
def Placed (current : Option Nat) (out : List Facade) : Prop :=
  ∀ index, current = some index → index < out.length

variable {current : Option Nat} {out : List Facade}

/-- Adding nothing changes nothing. -/
theorem deposit_nil (current : Option Nat) (out : List Facade) : deposit [] current out = out := by
  cases current with
  | none => rfl
  | some index =>
    simp only [deposit, List.append_nil]
    exact List.modify_id index out

/-- Final types can be added in two parts. -/
theorem deposit_append_ids (front back : List TypeId) (current : Option Nat) (out : List Facade) :
    deposit back current (deposit front current out) = deposit (front ++ back) current out := by
  cases current with
  | none => rfl
  | some index => simp [deposit, List.modify_modify_eq, Function.comp_def]

/-- Adding final types leaves the number of facades as it is. -/
theorem length_deposit (ids : List TypeId) (current : Option Nat) (out : List Facade) :
    (deposit ids current out).length = out.length := by
  cases current with
  | none => rfl
  | some index => rw [deposit, List.length_modify]

/-- Facades that were appended later are not touched. -/
theorem deposit_append (placed : Placed current out) (ids : List TypeId) (later : List Facade) :
    deposit ids current (out ++ later) = deposit ids current out ++ later := by
  cases current with
  | none => rfl
  | some index =>
    have inside := placed index rfl
    apply List.ext_getElem?
    intro position
    simp only [deposit, List.getElem?_modify, List.getElem?_append, List.length_modify]
    by_cases early : position < out.length
    · simp [early]
    · have other : index ≠ position := by omega
      simp [early, other]

/-- What is added to the last facade goes to it alone. -/
theorem deposit_last (ids : List TypeId) (out : List Facade) (name : String) :
    deposit ids (some out.length) (out ++ [⟨name, []⟩]) = out ++ [⟨name, ids⟩] := by
  apply List.ext_getElem?
  intro position
  simp only [deposit, List.getElem?_modify, List.getElem?_append, List.getElem?_singleton]
  by_cases early : position < out.length
  · have other : out.length ≠ position := by omega
    simp [early, other]
  · by_cases last : out.length = position
    · simp [last]
    · have beyond : position - out.length ≠ 0 := by omega
      simp [early, last, beyond]

/-- Appending facades keeps the current one in its place. -/
theorem Placed.append (placed : Placed current out) (later : List Facade) :
    Placed current (out ++ later) := by
  intro index same
  rw [List.length_append]
  exact Nat.lt_add_right _ (placed index same)

/-- Entering a type and then adding to the current facade is the same as closing what
is added at this type. -/
theorem enter_deposit (publicName : Option String) (found : List TypeId × List Facade)
    (current : Option Nat) (out : List Facade) :
    deposit found.1 (enter publicName current out).1 (enter publicName current out).2 ++ found.2 =
      deposit (close publicName found).1 current out ++ (close publicName found).2 := by
  cases publicName with
  | none => rfl
  | some name => simp [enter, close, deposit_last, deposit_nil]

/-- After entering a type the current facade has a place in the list. -/
theorem enter_placed (publicName : Option String) (placed : Placed current out) :
    Placed (enter publicName current out).1 (enter publicName current out).2 := by
  cases publicName with
  | none => exact placed
  | some name =>
    intro index same
    obtain rfl : out.length = index := Option.some.inj same
    simp [enter]

variable (publicName : TypeId → Option String)

/-- The facades from below upwards, for a tree and trees in turn. -/
theorem harvest_group (id : TypeId) (eldest : Tree) (others : List Tree) :
    harvest publicName (.group id eldest others) =
      close (publicName id) (harvestAll publicName (eldest :: others)) := by
  rw [harvest, harvestAll]

/-- Visiting the tree adds to the current facade what the tree hands up, and appends the
facades of the tree. -/
def Visited (tree : Tree) : Prop :=
  ∀ current out, Placed current out →
    gather publicName tree current out =
      deposit (harvest publicName tree).1 current out ++ (harvest publicName tree).2

/-- Several trees are visited one after the other. A facade that one of them appends stands
behind the current one, which the next tree therefore finds in its place. -/
theorem gatherAll_eq_harvestAll (trees : List Tree)
    (visited : ∀ tree ∈ trees, Visited publicName tree) (current : Option Nat)
    (out : List Facade) (placed : Placed current out) :
    gatherAll publicName trees current out =
      deposit (harvestAll publicName trees).1 current out ++ (harvestAll publicName trees).2 := by
  induction trees generalizing out with
  | nil => rw [gatherAll, harvestAll, deposit_nil, List.append_nil]
  | cons tree trees inductionHypothesis =>
    rw [List.forall_mem_cons] at visited
    have kept : Placed current (deposit (harvest publicName tree).1 current out) := by
      intro index same
      rw [length_deposit]
      exact placed index same
    rw [gatherAll, visited.1 current out placed, inductionHypothesis visited.2 _ (kept.append _),
      deposit_append kept, deposit_append_ids, List.append_assoc, harvestAll]

/-- Every tree is visited so: entering the root and then the children comes to closing at
the root what the children hand up. -/
theorem gather_eq_harvest (tree : Tree) : Visited publicName tree := by
  induction tree using Tree.by_children with
  | leaf id =>
    intro current out _
    have entered := enter_deposit (publicName id) ([id], []) current out
    rw [List.append_nil] at entered
    rw [harvest, ← entered]
    rfl
  | group id eldest others inductionHypothesis =>
    intro current out placed
    have below := enter_placed (publicName id) placed
    rw [harvest_group, ← enter_deposit,
      ← gatherAll_eq_harvestAll publicName _ inductionHypothesis _ _ below]
    rfl

/-- Gathered into an empty list without a current facade, the facades of a tree are those that
are found from below upwards. -/
theorem gather_eq (tree : Tree) : gather publicName tree none [] = (harvest publicName tree).2 :=
  gather_eq_harvest publicName tree none [] fun _ impossible => nomatch impossible

/-- The final types that are left over and those of all facades. -/
def allObjects (found : List TypeId × List Facade) : List TypeId :=
  found.1 ++ found.2.flatMap Facade.objects

/-- Closing moves the final types that are left over into the new facade. -/
theorem allObjects_close (publicName : Option String) (found : List TypeId × List Facade) :
    allObjects (close publicName found) = allObjects found := by
  cases publicName with
  | none => rfl
  | some name => simp [allObjects, close]

/-- What is found in two trees is found in each. -/
theorem allObjects_append (first second : List TypeId × List Facade) :
    (allObjects (first.1 ++ second.1, first.2 ++ second.2)).Perm
      (allObjects first ++ allObjects second) := by
  rw [List.perm_iff_count]
  intro id
  simp only [allObjects, List.count_append, List.flatMap_append]
  omega

mutual

/-- The final types of a tree are those that are left over and those of its
facades. -/
theorem harvest_perm : ∀ tree : Tree, (allObjects (harvest publicName tree)).Perm tree.leaves
  | .leaf id => by
    rw [harvest, allObjects_close]
    exact List.Perm.refl _
  | .group id eldest others => by
    rw [harvest, allObjects_close, Tree.leaves]
    exact (allObjects_append _ _).trans ((harvest_perm eldest).append (harvestAll_perm others))

/-- The same for several trees. -/
theorem harvestAll_perm : ∀ trees : List Tree,
    (allObjects (harvestAll publicName trees)).Perm (Tree.leavesAll trees)
  | [] => List.Perm.refl _
  | tree :: trees => by
    rw [harvestAll, Tree.leavesAll]
    exact (allObjects_append _ _).trans ((harvest_perm tree).append (harvestAll_perm trees))

end

/-- A facade of a tree stands for final types of the tree. -/
theorem collect_objects (registry : Registry) (tree : Tree) :
    ∀ facade ∈ collect registry tree, ∀ id ∈ facade.objects, id ∈ tree.leaves := by
  intro facade member id object
  rw [collect, List.mem_mergeSort, gather_eq] at member
  apply (harvest_perm _ tree).mem_iff.mp
  exact List.mem_append_right _ (List.mem_flatMap.mpr ⟨facade, member, object⟩)

end Taxonomy.Facade
