import Mathlib
import Taxonomy.Naming

/-!
# Snake case

The snake case of a name is put together from one part for each character of the name. The part
depends on the character and on the one before it alone, so no part is changed by what follows.

No part has a capital, and a name without capitals is its own snake case.

A name in Pascal case begins with a capital and has no underscore. It can be told from its snake
case: every underscore ends a word, and every word gets its capital back. An underscore at the
end of a text has no word behind it and says nothing, and further words behind an underscore give
further words of the name.

The library's lemmas about the case of a single character are only reached by importing all of it.
-/
namespace Taxonomy

/-- What a character of a name adds to its snake case, by the character before it. -/
def snakePart (before : Option Char) (c : Char) : List Char :=
  if c.isUpper then
    if before = none ∨ before = some '_' then [c.toLower] else ['_', c.toLower]
  else [c]

/-- What characters of a name add to its snake case, by the character before them. -/
def snakeParts (before : Option Char) : List Char → List Char
  | [] => []
  | c :: rest => snakePart before c ++ snakeParts (some c) rest

/-- The characters with each underscore left out and the letter behind it made a capital. The
first letter is made a capital too if a word begins with it. -/
def pascalChars (begins : Bool) : List Char → List Char
  | [] => []
  | c :: rest =>
    if c = '_' then pascalChars true rest
    else (if begins then c.toUpper else c) :: pascalChars false rest

/-- A text with a capital for each word in the place of underscores between the words. -/
def pascalCase (text : String) : String :=
  String.ofList (pascalChars true text.toList)

/-- The name begins with a capital and has no underscore. -/
def IsPascal (name : String) : Prop :=
  name.toList.head?.any Char.isUpper = true ∧ '_' ∉ name.toList

instance (name : String) : Decidable (IsPascal name) :=
  inferInstanceAs (Decidable (_ ∧ _))

/-- What is written of a name shows as much of the last character as the next one needs: whether
there is one, and whether it is an underscore. -/
structure Precedes (before : Option Char) (written : List Char) : Prop where
  none_iff : before = none ↔ written = []
  underscore_iff : before = some '_' ↔ written.head? = some '_'

/-- The lower case of a capital is no underscore. -/
theorem toLower_ne_underscore {c : Char} (capital : c.isUpper = true) : c.toLower ≠ '_' := by
  intro same
  have letter : c.toLower.isLower = c.isAlpha := c.isLower_toLower_eq_isAlpha
  rw [same, Char.isAlpha, capital, Bool.true_or] at letter
  exact absurd letter (by decide)

/-- A capital is the upper case of its lower case. -/
theorem toUpper_toLower_of_isUpper {c : Char} (capital : c.isUpper = true) :
    c.toLower.toUpper = c := by
  rw [c.toUpper_toLower_eq_toUpper]
  exact Char.toUpper_eq_of_not_isLower (Char.not_isLower_of_isUpper capital)

namespace Precedes

variable {before : Option Char} {written : List Char}

/-- The next character adds its part, which is held in reverse order. -/
theorem step_eq (precedes : Precedes before written) (c : Char) :
    snakeStep written c = (snakePart before c).reverse ++ written := by
  unfold snakeStep snakePart
  by_cases capital : c.isUpper
  · rw [if_pos capital, if_pos capital]
    by_cases first : before = none
    · obtain rfl := precedes.none_iff.mp first
      simp [first]
    · by_cases apart : before = some '_'
      · obtain ⟨rest, rfl⟩ := List.head?_eq_some_iff.mp (precedes.underscore_iff.mp apart)
        simp [apart]
      · obtain ⟨last, rest, rfl⟩ := List.exists_cons_of_ne_nil (mt precedes.none_iff.mpr first)
        have other : last ≠ '_' := fun same =>
          apart (precedes.underscore_iff.mpr (by rw [same, List.head?_cons]))
        simp [first, apart, other]
  · simp [capital]

/-- Behind the part of a character, this character is the last one. -/
theorem step (precedes : Precedes before written) (c : Char) :
    Precedes (some c) (snakeStep written c) := by
  rw [precedes.step_eq, snakePart]
  by_cases capital : c.isUpper
  · have other : c ≠ '_' := by
      rintro rfl
      exact absurd capital (by decide)
    by_cases begins : before = none ∨ before = some '_'
    · constructor <;> simp [capital, begins, other, toLower_ne_underscore capital]
    · constructor <;> simp [capital, begins, other, toLower_ne_underscore capital]
  · constructor <;> simp [capital]

/-- The rest of a name adds the parts of its characters. -/
theorem foldl_eq (precedes : Precedes before written) (rest : List Char) :
    rest.foldl snakeStep written = (snakeParts before rest).reverse ++ written := by
  induction rest generalizing before written with
  | nil => rfl
  | cons c rest inductionHypothesis =>
    rw [List.foldl_cons, inductionHypothesis (precedes.step c), precedes.step_eq, snakeParts,
      List.reverse_append, List.append_assoc]

end Precedes

/-- The snake case of a name is made of the parts of its characters. -/
theorem snakeCase_toList (name : String) :
    (snakeCase name).toList = snakeParts none name.toList := by
  have start : Precedes none [] := ⟨by simp, by simp⟩
  rw [snakeCase, start.foldl_eq, List.append_nil, List.reverse_reverse, String.toList_ofList]

/-- The parts of characters that stand behind others depend on the last of these. -/
theorem snakeParts_append (before : Option Char) (front back : List Char) :
    snakeParts before (front ++ back) =
      snakeParts before front ++ snakeParts (front.getLast?.or before) back := by
  induction front generalizing before with
  | nil => rfl
  | cons c front inductionHypothesis =>
    have last : front.getLast?.or (some c) = (c :: front).getLast?.or before := by
      cases front with
      | nil => rfl
      | cons d front => simp [List.getLast?_cons]
    rw [List.cons_append, snakeParts, inductionHypothesis, last, snakeParts, List.append_assoc]

/-- The parts are those of the single characters, each by the character before it. -/
theorem snakeParts_eq (before : Option Char) (chars : List Char) :
    snakeParts before chars =
      (List.zipWith snakePart (before :: chars.map some) chars).flatten := by
  induction chars generalizing before with
  | nil => rfl
  | cons c rest inductionHypothesis =>
    rw [snakeParts, inductionHypothesis, List.map_cons, List.zipWith_cons_cons, List.flatten_cons]

/-- A character adds itself if it is no capital, and apart from that only underscores and small
letters. -/
theorem mem_snakePart {before : Option Char} {c d : Char} (member : d ∈ snakePart before c) :
    d = c ∧ c.isUpper = false ∨ d = '_' ∨ d.isLower = true := by
  rw [snakePart] at member
  by_cases capital : c.isUpper
  · have small : c.toLower.isLower = true := by
      rw [c.isLower_toLower_eq_isAlpha, Char.isAlpha, capital, Bool.true_or]
    rw [if_pos capital] at member
    split at member
    · rw [List.mem_singleton.mp member]
      exact Or.inr (Or.inr small)
    · rw [List.mem_pair] at member
      rcases member with rfl | rfl
      · exact Or.inr (Or.inl rfl)
      · exact Or.inr (Or.inr small)
  · rw [if_neg capital, List.mem_singleton] at member
    exact Or.inl ⟨member, Bool.eq_false_iff.mpr capital⟩

/-- The parts have those characters that are no capitals, underscores, and small letters. -/
theorem mem_snakeParts {before : Option Char} {chars : List Char} {d : Char}
    (member : d ∈ snakeParts before chars) :
    d ∈ chars ∧ d.isUpper = false ∨ d = '_' ∨ d.isLower = true := by
  induction chars generalizing before with
  | nil => cases member
  | cons c rest inductionHypothesis =>
    rw [snakeParts, List.mem_append] at member
    rcases member with part | later
    · refine (mem_snakePart part).imp_left ?_
      rintro ⟨rfl, lower⟩
      exact ⟨List.mem_cons_self, lower⟩
    · exact (inductionHypothesis later).imp_left fun found =>
        ⟨List.mem_cons_of_mem c found.1, found.2⟩

/-- Characters without a capital are added as they are. -/
theorem snakeParts_of_lower (before : Option Char) {chars : List Char}
    (lower : ∀ c ∈ chars, c.isUpper = false) : snakeParts before chars = chars := by
  induction chars generalizing before with
  | nil => rfl
  | cons c rest inductionHypothesis =>
    rw [List.forall_mem_cons] at lower
    rw [snakeParts, inductionHypothesis _ lower.2, snakePart, if_neg (by simp [lower.1]),
      List.singleton_append]

/-- An underscore ends a word, and the rest is read by itself. -/
theorem pascalChars_append (begins : Bool) (front back : List Char) :
    pascalChars begins (front ++ '_' :: back) =
      pascalChars begins front ++ pascalChars true back := by
  induction front generalizing begins with
  | nil => simp [pascalChars]
  | cons c front inductionHypothesis =>
    by_cases mark : c = '_'
    · simp [pascalChars, mark, inductionHypothesis]
    · simp [pascalChars, mark, inductionHypothesis]

/-- Behind a character that is no underscore, the parts of further ones give them back. -/
theorem pascalChars_snakeParts {before : Char} (apart : before ≠ '_') {rest : List Char}
    (unbroken : '_' ∉ rest) : pascalChars false (snakeParts (some before) rest) = rest := by
  induction rest generalizing before with
  | nil => rfl
  | cons c rest inductionHypothesis =>
    rw [List.mem_cons, not_or] at unbroken
    have other : c ≠ '_' := Ne.symm unbroken.1
    have tail := inductionHypothesis other unbroken.2
    by_cases capital : c.isUpper
    · simp [snakeParts, snakePart, pascalChars, capital, apart, toLower_ne_underscore capital,
        toUpper_toLower_of_isUpper capital, tail]
    · simp [snakeParts, snakePart, pascalChars, capital, other, tail]

/-- Words behind an underscore are read as further words of the name. -/
theorem pascalCase_append (front back : String) :
    pascalCase (front ++ "_" ++ back) = pascalCase front ++ pascalCase back := by
  rw [← String.toList_inj]
  simp [pascalCase, pascalChars_append]

/-- An underscore at the end is not read. -/
theorem pascalCase_underscore (text : String) : pascalCase (text ++ "_") = pascalCase text := by
  have empty : pascalCase "" = "" := by decide
  simpa [empty] using pascalCase_append text ""

namespace IsPascal

variable {name front back : String}

/-- A name in Pascal case is a capital and further characters, none of which is an underscore. -/
theorem exists_capital (pascal : IsPascal name) :
    ∃ c rest, name.toList = c :: rest ∧ c.isUpper = true ∧ c ≠ '_' ∧ '_' ∉ rest := by
  obtain ⟨begins, unbroken⟩ := pascal
  cases chars : name.toList with
  | nil => simp [chars] at begins
  | cons c rest =>
    rw [chars] at begins unbroken
    rw [List.mem_cons, not_or] at unbroken
    exact ⟨c, rest, rfl, by simpa using begins, Ne.symm unbroken.1, unbroken.2⟩

/-- A name in Pascal case can be told from its snake case. -/
theorem pascalCase_snakeCase (pascal : IsPascal name) : pascalCase (snakeCase name) = name := by
  obtain ⟨c, rest, chars, capital, other, unbroken⟩ := pascal.exists_capital
  rw [← String.toList_inj, pascalCase, snakeCase_toList, chars, String.toList_ofList]
  simp [snakeParts, snakePart, pascalChars, capital, toLower_ne_underscore capital,
    toUpper_toLower_of_isUpper capital, pascalChars_snakeParts other unbroken]

/-- The words of a name behind another one follow its words. -/
theorem snakeCase_append (frontPascal : IsPascal front) (backPascal : IsPascal back) :
    snakeCase (front ++ back) = snakeCase front ++ "_" ++ snakeCase back := by
  obtain ⟨c, rest, chars, capital, _, _⟩ := backPascal.exists_capital
  have nonempty : front.toList ≠ [] := by
    obtain ⟨_, _, frontChars, _⟩ := frontPascal.exists_capital
    simp [frontChars]
  have apart : front.toList.getLast nonempty ≠ '_' := fun same =>
    frontPascal.2 (same ▸ List.getLast_mem nonempty)
  rw [← String.toList_inj]
  simp [snakeCase_toList, snakeParts_append, List.getLast?_eq_getLast_of_ne_nil nonempty, chars,
    snakeParts, snakePart, capital, apart]

end IsPascal

/-- The snake case of a name is made of one part for each character, by this character and the one
before it in the name. It has no capital and is its own snake case. A name in Pascal case is read
back from it: the first letter and each letter behind an underscore are made capitals, and the
underscores are left out.

Proof: the fold that builds the snake case appends one part for each character, which depends on the
character and the one before it. The laws follow part by part. No part has a capital, and the part
of a character that is none is the character itself. Of a name in Pascal case a capital gives an
underscore and a small letter, apart from the first one, and reading back undoes this. -/
theorem snake_case_laws (name : String) :
    (snakeCase name).toList =
      (List.zipWith snakePart (none :: name.toList.map some) name.toList).flatten ∧
    (∀ c ∈ (snakeCase name).toList, c.isUpper = false) ∧
    snakeCase (snakeCase name) = snakeCase name ∧
    (IsPascal name → pascalCase (snakeCase name) = name) := by
  have lower : ∀ c ∈ (snakeCase name).toList, c.isUpper = false := by
    intro c member
    rw [snakeCase_toList] at member
    rcases mem_snakeParts member with ⟨_, lower⟩ | rfl | small
    · exact lower
    · rfl
    · exact Bool.eq_false_iff.mpr (Char.not_isUpper_of_isLower small)
  refine ⟨?_, lower, ?_, IsPascal.pascalCase_snakeCase⟩
  · rw [snakeCase_toList, snakeParts_eq]
  · rw [← String.toList_inj, snakeCase_toList (snakeCase name), snakeParts_of_lower none lower]

/-- Every capital of a run is a word of its own, and all of them are read back. -/
theorem snake_case_of_servers :
    IsPascal "HTTPServer" ∧ snakeCase "HTTPServer" = "h_t_t_p_server" ∧
      snakeCase "h_t_t_p_server" = "h_t_t_p_server" ∧
      pascalCase "h_t_t_p_server" = "HTTPServer" := by
  have pascal : IsPascal "HTTPServer" := by decide
  have written : snakeCase "HTTPServer" = "h_t_t_p_server" := by decide
  obtain ⟨_, _, again, back⟩ := snake_case_laws "HTTPServer"
  rw [written] at again back
  exact ⟨pascal, written, again, back pascal⟩

end Taxonomy
