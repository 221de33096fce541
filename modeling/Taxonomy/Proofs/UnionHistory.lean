import Taxonomy.Proofs.UnionAcceptance

/-!
# The history of a set of unions

A set lives through calls that add unions to it, one or several at a time. Some of
the calls fail, and the history goes on after them. A union is kept in two places: in
the list, where it is found by its name, and among the owners of tags. An owner that was
entered for a refused union would keep its tag from every later one.

At every point of every history the names of the unions and their tags are pairwise
different and every union is valid, a name leads to one union, and a tag to the name of
the union in the list that has it. A union that is refused leaves no trace: neither its
name nor its tag is taken by it.

A union is refused for its name, for its tag, or for a defect of its own, in this
order.
-/
namespace Taxonomy

namespace UnionSet

/-- A call that can change a set. -/
inductive Call where
  | insert (union : Union)
  | insertAll (unions : List Union)

/-- The unions that a call offers to the set. -/
def Call.offered : Call → List Union
  | .insert union => [union]
  | .insertAll unions => unions

/-- What a call answers, and the set after it. -/
def answer (set : UnionSet) : Call → Except Fault Unit × UnionSet
  | .insert union => set.insert union
  | .insertAll unions => set.insertAll unions

/-- The set after calls in their order, whether they succeed or fail. -/
def after (set : UnionSet) (calls : List Call) : UnionSet :=
  Outcome.run answer set calls

/-- No two unions share a name or a tag, each is valid, and looking up a name or a tag
finds the union that has it. -/
structure Indexed (set : UnionSet) : Prop where
  names_distinct : (set.unions.map Union.name).Nodup
  tags_distinct : (set.unions.map fun union => union.tag.name).Nodup
  valid : ∀ union ∈ set.unions, union.validate = .ok ()
  get?_iff : ∀ name union, set.get? name = some union ↔ union ∈ set.unions ∧ union.name = name
  tagOwner?_iff : ∀ tag name,
    set.tagOwner? tag = some name ↔ ∃ union, set.get? name = some union ∧ union.tag.name = tag

/-- What every set keeps to. -/
structure Sound (set : UnionSet) : Prop where
  names_distinct : (set.unions.map Union.name).Nodup
  tags_distinct : (set.unions.map fun union => union.tag.name).Nodup
  wellFormed : ∀ union ∈ set.unions, union.WellFormed
  inStep : set.InStep

variable {set : UnionSet}

/-- Inserting a union changes nothing, or adds it to the list and to the owners. -/
theorem insert_cases (set : UnionSet) (union : Union) :
    (∃ fault, set.insert union = (.error fault, set)) ∨
      set.insert union = (.ok (), set.extend [union]) := by
  rcases taken : set.insert union with ⟨answer, next⟩
  cases answer with
  | error fault =>
    have same : next = set := by simpa [taken] using insert_refused (congrArg Prod.fst taken)
    exact Or.inl ⟨fault, by rw [same]⟩
  | ok _ =>
    rw [insert] at taken
    split at taken
    · cases taken
    · split at taken
      · cases taken
      · split at taken
        · cases taken
        · obtain ⟨_, rfl⟩ := Prod.mk.inj taken
          exact Or.inr rfl

/-- Inserting a union keeps a set sound: a union comes in only under a new name and with
a new tag. -/
theorem Sound.insert (sound : set.Sound) (union : Union) : (set.insert union).2.Sound := by
  rcases insert_cases set union with ⟨fault, refused⟩ | taken
  · rw [refused]
    exact sound
  · obtain ⟨name, tag, wellFormed, _⟩ := (sound.inStep.insert_ok_iff union _).mp taken
    rw [taken]
    have listed : (set.extend [union]).unions = set.unions ++ [union] := rfl
    refine ⟨?_, ?_, ?_, sound.inStep.extend_one tag⟩
    · rw [listed]
      exact distinct_concat sound.names_distinct name
    · rw [listed]
      exact distinct_concat sound.tags_distinct tag
    · rw [listed, List.forall_mem_append]
      exact ⟨sound.wellFormed, List.forall_mem_singleton.mpr wellFormed⟩

/-- Inserting several unions keeps a set sound, also where one is refused. -/
theorem Sound.insertAll (sound : set.Sound) (unions : List Union) :
    (set.insertAll unions).2.Sound := by
  induction unions generalizing set with
  | nil => exact sound
  | cons union unions inductionHypothesis =>
    have step := sound.insert union
    rw [UnionSet.insertAll]
    rcases insert_cases set union with ⟨fault, refused⟩ | taken
    · rw [refused]
      exact sound
    · rw [taken] at step ⊢
      exact inductionHypothesis step

/-- In a sound set a name leads to one union, and a tag to the one that has it. -/
theorem Sound.indexed (sound : set.Sound) : set.Indexed where
  names_distinct := sound.names_distinct
  tags_distinct := sound.tags_distinct
  valid union member := (Union.validate_ok_iff union).mpr (sound.wellFormed union member)
  get?_iff name union := find?_key_iff sound.names_distinct name union
  tagOwner?_iff tag name := by
    have named (union : Union) :
        set.get? name = some union ↔ union ∈ set.unions ∧ union.name = name :=
      find?_key_iff sound.names_distinct name union
    rw [sound.inStep]
    constructor
    · rintro ⟨union, member, tagged, same⟩
      exact ⟨union, (named union).mpr ⟨member, same⟩, tagged⟩
    · rintro ⟨union, found, tagged⟩
      obtain ⟨member, same⟩ := (named union).mp found
      exact ⟨union, member, tagged, same⟩

/-- A call keeps a set sound. -/
theorem Sound.answer (sound : set.Sound) (call : Call) : (set.answer call).2.Sound := by
  cases call with
  | insert union => exact sound.insert union
  | insertAll unions => exact sound.insertAll unions

/-- Every history leads to a sound set. -/
theorem after_sound (calls : List Call) : (after {} calls).Sound :=
  Outcome.run_preserves (fun _ call sound => sound.answer call) calls
    ⟨List.nodup_nil, List.nodup_nil, fun _ member => absurd member List.not_mem_nil, empty_inStep⟩

/-- Of several unions the first ones are added, and stand last in their order. -/
theorem insertAll_taken (set : UnionSet) (unions : List Union) :
    ∃ taken, taken <+: unions ∧ (set.insertAll unions).2 = set.extend taken := by
  induction unions generalizing set with
  | nil => exact ⟨[], List.prefix_refl _, set.extend_nil.symm⟩
  | cons union unions inductionHypothesis =>
    rw [insertAll]
    rcases insert_cases set union with ⟨fault, refused⟩ | accepted
    · rw [refused]
      exact ⟨[], List.nil_prefix, set.extend_nil.symm⟩
    · rw [accepted]
      obtain ⟨others, first, reached⟩ := inductionHypothesis (set.extend [union])
      exact ⟨union :: others, List.cons_prefix_cons.mpr ⟨rfl, first⟩,
        by rw [reached, extend_append]; rfl⟩

/-- A call adds the first of the unions that it offers at the end, as many as are
accepted. -/
theorem answer_taken (set : UnionSet) (call : Call) :
    ∃ taken, taken <+: call.offered ∧ (set.answer call).2 = set.extend taken := by
  cases call with
  | insert union =>
    rw [answer]
    rcases insert_cases set union with ⟨fault, refused⟩ | accepted
    · rw [refused]
      exact ⟨[], List.nil_prefix, set.extend_nil.symm⟩
    · rw [accepted]
      exact ⟨[union], List.prefix_refl _, rfl⟩
  | insertAll unions => exact insertAll_taken set unions

/-- Unions stay where they are: later ones come after them. -/
theorem after_unions (set : UnionSet) (calls : List Call) :
    set.unions <+: (set.after calls).unions := by
  refine Outcome.run_preserves (motive := fun reached : UnionSet => set.unions <+: reached.unions)
    ?_ calls (List.prefix_refl _)
  intro reached call earlier
  obtain ⟨taken, _, grown⟩ := answer_taken reached call
  rw [grown]
  exact earlier.trans (List.prefix_append _ _)

/-- The unions of a set stand in the order in which a history offered them. -/
theorem after_sublist (set : UnionSet) (calls : List Call) :
    (set.after calls).unions.Sublist (set.unions ++ calls.flatMap Call.offered) := by
  induction calls generalizing set with
  | nil => simp [after, Outcome.run]
  | cons call calls inductionHypothesis =>
    obtain ⟨taken, first, grown⟩ := answer_taken set call
    have rest := inductionHypothesis (set.answer call).2
    have added : (set.answer call).2.unions = set.unions ++ taken := by
      rw [grown]
      rfl
    have step : set.after (call :: calls) = (set.answer call).2.after calls := rfl
    rw [added] at rest
    rw [step, List.flatMap_cons, ← List.append_assoc]
    exact rest.trans ((first.sublist.append_left set.unions).append_right _)

/-- Where several unions are not all accepted, those before the first refused one
are. -/
theorem insertAll_refused (set : UnionSet) (unions : List Union) (fault : Fault)
    (refused : (set.insertAll unions).1 = .error fault) :
    ∃ before union rest, unions = before ++ union :: rest ∧
      set.insertAll before = (.ok (), (set.insertAll unions).2) ∧
      ((set.insertAll unions).2.insert union).1 = .error fault := by
  induction unions generalizing set with
  | nil => simp [insertAll] at refused
  | cons union unions inductionHypothesis =>
    rw [insertAll] at refused ⊢
    rcases insert_cases set union with ⟨other, stopped⟩ | accepted
    · rw [stopped] at refused ⊢
      obtain rfl : other = fault := Except.error.inj refused
      exact ⟨[], union, unions, rfl, rfl, by rw [stopped]⟩
    · rw [accepted] at refused ⊢
      obtain ⟨before, stopped, rest, rfl, reached, stops⟩ := inductionHypothesis _ refused
      refine ⟨union :: before, stopped, rest, rfl, ?_, stops⟩
      rw [insertAll, accepted]
      exact reached

/-- Unions that are all accepted stand last, in their order, and own their tags. -/
theorem insertAll_ok (set : UnionSet) (unions : List Union)
    (accepted : (set.insertAll unions).1 = .ok ()) :
    (set.insertAll unions).2 = set.extend unions := by
  induction unions generalizing set with
  | nil => exact set.extend_nil.symm
  | cons union unions inductionHypothesis =>
    rw [insertAll] at accepted ⊢
    rcases insert_cases set union with ⟨fault, refused⟩ | first
    · rw [refused] at accepted
      cases accepted
    · rw [first] at accepted ⊢
      rw [inductionHypothesis _ accepted, extend_append]
      rfl

/-- Inserting several unions is inserting them one after the other. -/
theorem insertAll_after (set : UnionSet) (unions : List Union)
    (accepted : (set.insertAll unions).1 = .ok ()) :
    set.after (unions.map .insert) = (set.insertAll unions).2 := by
  induction unions generalizing set with
  | nil => rfl
  | cons union unions inductionHypothesis =>
    have step : set.after ((union :: unions).map .insert) =
        (set.insert union).2.after (unions.map .insert) := rfl
    rw [insertAll] at accepted ⊢
    rcases insert_cases set union with ⟨fault, refused⟩ | first
    · rw [refused] at accepted
      cases accepted
    · rw [step, first]
      rw [first] at accepted
      exact inductionHypothesis _ accepted

/-- A union is refused for its name if a union of the set has it, or else for its tag
if a union of the set has that, or else for its own first defect. -/
theorem Sound.insert_error_iff (sound : set.Sound) (union : Union) (fault : Fault) :
    (set.insert union).1 = .error fault ↔
      (union.name ∈ set.unions.map Union.name ∧ fault = .duplicateName .union union.name) ∨
      (union.name ∉ set.unions.map Union.name ∧ ∃ owner ∈ set.unions,
        owner.tag.name = union.tag.name ∧
          fault = .tagTaken union.tag.name union.name owner.name) ∨
      (union.name ∉ set.unions.map Union.name ∧
        (union.tag.name ∉ set.unions.map fun other => other.tag.name) ∧
        union.validate = .error fault) := by
  rw [UnionSet.insert, ← get?_isSome_iff]
  by_cases known : (set.get? union.name).isSome
  · simp [known, eq_comm]
  · rw [if_neg known]
    cases owned : set.tagOwner? union.tag.name with
    | none =>
      have free := (sound.inStep.tagOwner?_none_iff _).mp owned
      have unowned : ¬ ∃ owner ∈ set.unions, owner.tag.name = union.tag.name ∧
          fault = .tagTaken union.tag.name union.name owner.name := by
        rintro ⟨owner, member, tagged, _⟩
        exact free (tagged ▸ List.mem_map_of_mem member)
      cases union.validate with
      | error other => simp [known, free, unowned]
      | ok _ => simp [known, free, unowned]
    | some name =>
      obtain ⟨owner, member, tagged, rfl⟩ := (sound.inStep _ _).mp owned
      have taken : union.tag.name ∈ set.unions.map fun other => other.tag.name :=
        List.mem_map.mpr ⟨owner, member, tagged⟩
      have only : (∃ other ∈ set.unions, other.tag.name = union.tag.name ∧
          fault = .tagTaken union.tag.name union.name other.name) ↔
          Fault.tagTaken union.tag.name union.name owner.name = fault := by
        constructor
        · rintro ⟨other, listed, same, rfl⟩
          rw [List.inj_on_of_nodup_map sound.tags_distinct listed member (same.trans tagged.symm)]
        · rintro rfl
          exact ⟨owner, member, tagged, rfl⟩
      simp only [known, only, taken, not_true_eq_false, false_and, and_false, or_false, false_or,
        Bool.false_eq_true, not_false_eq_true, true_and, Except.error.injEq]

end UnionSet

/-- At every point of a history the set lists valid unions in the order in which they
came, with names and tags of their own. It finds each by its name, and its tag leads to
this name; no other tag leads anywhere.

A union that is accepted stands last, and so do several that are, in their order, as if
they were inserted one by one. Nothing is ever moved or taken away. A union that is
refused leaves everything as it was, and if one of several is refused, exactly those
before it have come in. A union is refused exactly if its name is taken, its tag is taken
or it is not valid, and the fault is the first of these three.

Proof: inserting a union leaves the set alone, or extends the list and the owners by a
union whose name and tag no listed union has. Such an extension keeps the owners in step
with the list, so the whole history does. Both kinds of calls only extend, which gives the
order; and a call with several unions is a run of calls with one, up to the first that is
refused. -/
theorem union_history_laws (calls : List UnionSet.Call) (set : UnionSet)
    (reached : UnionSet.after {} calls = set) :
    set.Indexed ∧
    set.unions.Sublist (calls.flatMap UnionSet.Call.offered) ∧
    (∀ union, (set.insert union).1 = .ok () →
      (set.insert union).2.unions = set.unions ++ [union] ∧
      (set.insert union).2.tagOwner? union.tag.name = some union.name) ∧
    (∀ unions, (set.insertAll unions).1 = .ok () →
      (set.insertAll unions).2.unions = set.unions ++ unions ∧
      (set.insertAll unions).2 = set.after (unions.map .insert)) ∧
    (∀ later, set.unions <+: (set.after later).unions) ∧
    (∀ union fault, (set.insert union).1 = .error fault → (set.insert union).2 = set) ∧
    (∀ unions fault, (set.insertAll unions).1 = .error fault →
      ∃ before union rest, unions = before ++ union :: rest ∧
        (set.insertAll before).1 = .ok () ∧
        (set.insertAll unions).2.unions = set.unions ++ before ∧
        (set.insertAll unions).2 = set.after (before.map .insert) ∧
        ((set.after (before.map .insert)).insert union).1 = .error fault) ∧
    ∀ union fault, (set.insert union).1 = .error fault ↔
      (union.name ∈ set.unions.map Union.name ∧ fault = .duplicateName .union union.name) ∨
      (union.name ∉ set.unions.map Union.name ∧ ∃ owner ∈ set.unions,
        owner.tag.name = union.tag.name ∧
          fault = .tagTaken union.tag.name union.name owner.name) ∨
      (union.name ∉ set.unions.map Union.name ∧
        (union.tag.name ∉ set.unions.map fun other => other.tag.name) ∧
        union.validate = .error fault) := by
  have sound : set.Sound := reached ▸ UnionSet.after_sound calls
  refine ⟨sound.indexed, ?_, ?_, ?_, set.after_unions, fun _ _ => UnionSet.insert_refused, ?_,
    sound.insert_error_iff⟩
  · rw [← reached]
    exact UnionSet.after_sublist {} calls
  · intro union accepted
    rcases set.insert_cases union with ⟨fault, refused⟩ | taken
    · rw [refused] at accepted
      cases accepted
    · have step := sound.insert union
      rw [taken] at step ⊢
      refine ⟨rfl, (step.inStep _ _).mpr ⟨union, ?_, rfl, rfl⟩⟩
      exact List.mem_append_right _ List.mem_cons_self
  · intro unions accepted
    refine ⟨?_, (set.insertAll_after unions accepted).symm⟩
    rw [set.insertAll_ok unions accepted]
    rfl
  · intro unions fault refused
    obtain ⟨before, union, rest, split, taken, stops⟩ := set.insertAll_refused unions fault refused
    have accepted : (set.insertAll before).1 = .ok () := congrArg Prod.fst taken
    have steps : (set.insertAll unions).2 = set.after (before.map .insert) := by
      rw [set.insertAll_after before accepted, taken]
    refine ⟨before, union, rest, split, accepted, ?_, steps, steps ▸ stops⟩
    rw [← congrArg Prod.snd taken, set.insertAll_ok before accepted]
    rfl

/-- A colour is red or green. -/
def colourUnion : Union :=
  { name := "Colour", tag := { name := "ColourTag", width := .u8 },
    variants := [.unit "Red", .unit "Green"] }

/-- Shades want the tag that colours have. -/
def shadeUnion : Union :=
  { name := "Shade", tag := { name := "ColourTag", width := .u8 } }

/-- Ink is blue or blue, which is not valid. -/
def blottedInk : Union :=
  { name := "Ink", tag := { name := "InkTag", width := .u8 },
    variants := [.unit "Blue", .unit "Blue"] }

/-- Ink is blue. -/
def inkUnion : Union :=
  { name := "Ink", tag := { name := "InkTag", width := .u8 }, variants := [.unit "Blue"] }

/-- Paper is offered behind a union that is refused. -/
def paperUnion : Union :=
  { name := "Paper", tag := { name := "PaperTag", width := .u8 } }

/-- Colours come in once, ink only when it is valid, and neither shades nor the paper
behind them. -/
def colourCalls : List UnionSet.Call :=
  [.insert colourUnion, .insert colourUnion, .insert blottedInk,
    .insertAll [inkUnion, shadeUnion, paperUnion]]

/-- The set after these calls. -/
def colourSet : UnionSet :=
  .holding [colourUnion, inkUnion]

/-- The refused ink took neither the name nor the tag of the valid one. The paper can
still come in, and the shades cannot. -/
theorem union_history_colours :
    UnionSet.after {} colourCalls = colourSet ∧ colourSet.Indexed ∧
      colourSet.tagOwner? "InkTag" = some "Ink" ∧
      (colourSet.insert shadeUnion).1 = .error (.tagTaken "ColourTag" "Shade" "Colour") ∧
      (colourSet.insert shadeUnion).2 = colourSet ∧
      (colourSet.insertAll [paperUnion]).2.unions = [colourUnion, inkUnion, paperUnion] ∧
      ∃ before union rest, [paperUnion, shadeUnion] = before ++ union :: rest ∧
        (colourSet.insertAll [paperUnion, shadeUnion]).2 =
          colourSet.after (before.map .insert) := by
  have reached : UnionSet.after {} colourCalls = colourSet := by rfl
  obtain ⟨indexed, _, _, several, _, unchanged, partly, refusal⟩ :=
    union_history_laws colourCalls _ reached
  have owned := (indexed.tagOwner?_iff "InkTag" "Ink").mpr ⟨inkUnion, rfl, rfl⟩
  have refused : (colourSet.insert shadeUnion).1 =
      .error (.tagTaken "ColourTag" "Shade" "Colour") :=
    (refusal shadeUnion _).mpr (Or.inr (Or.inl ⟨by decide, colourUnion, by decide, rfl, rfl⟩))
  obtain ⟨before, union, rest, split, _, _, kept, _⟩ :=
    partly [paperUnion, shadeUnion] (.tagTaken "ColourTag" "Shade" "Colour") (by rfl)
  exact ⟨reached, indexed, owned, refused, unchanged _ _ refused,
    (several [paperUnion] (by rfl)).1, before, union, rest, split, kept⟩

end Taxonomy
