import Mathlib.Data.Nat.Find
import TadsReference.Macro.Definition
import TadsReference.Proofs.Macro.PastedTexts
import TadsReference.Proofs.Text.Identifiers

/-!
# Arguments in the place of parameters

A text is made of identifiers, which are as long as they can be, and of other characters. If neither
the body of a macro nor its arguments hold an operator, the macro expands to its body in which each
identifier is replaced by itself, whatever is put in the place of the others: `expand_replaces`.
-/

namespace TadsReference

open Identifier

variable {text rest : List Char} {character : Char}

/-! ### Texts without operators -/

namespace Macro

theorem quoteMarked_of_none (none : Text.cut? ['#', '@'] text = none) :
    quoteMarked text = text := by
  rw [quoteMarked]
  split
  · rfl
  · simp_all

theorem quoteMarked_of_not_mem (noOperator : '#' ∉ text) : quoteMarked text = text :=
  quoteMarked_of_none (Text.cut?_eq_none_of_not_mem noOperator ['@'])

theorem quoteSingle_other (other : character ≠ '#') (afterHash : Bool) :
    quoteSingle afterHash (character :: rest) = character :: quoteSingle false rest := by
  have notHash : (character == '#') = false := by simpa using other
  rw [quoteSingle, notHash]
  rfl

theorem quoteSingle_of_not_mem (noOperator : '#' ∉ text) (afterHash : Bool) :
    quoteSingle afterHash text = text := by
  induction text generalizing afterHash with
  | nil => rw [quoteSingle]
  | cons character rest ih =>
      rw [List.mem_cons, not_or] at noOperator
      rw [quoteSingle_other (Ne.symm noOperator.1), ih noOperator.2]

theorem applyQuoting_of_not_mem (noOperator : '#' ∉ text) : applyQuoting text = text := by
  rw [applyQuoting, quoteMarked_of_not_mem noOperator, quoteSingle_of_not_mem noOperator]

end Macro

namespace MacroDefinition

variable {parameters : List String} {arguments : List (List Char)} {run argument result : List Char}

/-- The argument for a parameter: it stands where the first parameter of this name stands. -/
def IsArgumentOf (parameters : List String) (arguments : List (List Char))
    (run argument : List Char) : Prop :=
  ∃ position : Nat, parameters[position]? = some (String.ofList run) ∧
    (∀ earlier < position, parameters[earlier]? ≠ some (String.ofList run)) ∧
      arguments[position]? = some argument

/-- A text with the parameters in it replaced. -/
inductive Replaced (parameters : List String) (arguments : List (List Char)) :
    (text result : List Char) → Prop
  | nil : Replaced parameters arguments [] []
  /-- A character that belongs to no identifier stays. -/
  | other {character : Char} {rest result : List Char}
      (isOther : isIdentifierCharacter character = false)
      (replaced : Replaced parameters arguments rest result) :
      Replaced parameters arguments (character :: rest) (character :: result)
  /-- So does an identifier that names no parameter. -/
  | name {run rest result : List Char} (isRun : IsRun run) (apart : Apart rest)
      (isName : String.ofList run ∉ parameters)
      (replaced : Replaced parameters arguments rest result) :
      Replaced parameters arguments (run ++ rest) (run ++ result)
  /-- The argument is put in the place of an identifier that names a parameter. -/
  | parameter {run argument rest result : List Char} (isRun : IsRun run) (apart : Apart rest)
      (isArgument : IsArgumentOf parameters arguments run argument)
      (replaced : Replaced parameters arguments rest result) :
      Replaced parameters arguments (run ++ rest) (argument ++ result)

/-! ### One identifier -/

/-- The argument for a parameter is the one at the place of its first occurrence among the
parameters. -/
theorem argumentFor_of_isArgumentOf (isArgument : IsArgumentOf parameters arguments run argument) :
    argumentFor parameters arguments run = argument := by
  obtain ⟨position, isName, noneBefore, isThere⟩ := isArgument
  obtain ⟨inside, isName⟩ := List.getElem?_eq_some_iff.mp isName
  obtain ⟨insideToo, isThere⟩ := List.getElem?_eq_some_iff.mp isThere
  have found : (parameters.zip arguments).find? (·.1 == String.ofList run) =
      some (String.ofList run, argument) := by
    have insideBoth : position < (parameters.zip arguments).length := by
      rw [List.length_zip]
      exact Nat.lt_min.mpr ⟨inside, insideToo⟩
    rw [List.find?_eq_some_iff_getElem]
    refine ⟨by simp, position, insideBoth, by simp [isName, isThere], fun earlier isEarlier => ?_⟩
    have other := noneBefore earlier isEarlier
    rw [List.getElem?_eq_getElem (Nat.lt_trans isEarlier inside)] at other
    simpa using other
  rw [argumentFor, found]

theorem argumentFor_name (isName : String.ofList run ∉ parameters) :
    argumentFor parameters arguments run = run := by
  have none : (parameters.zip arguments).find? (·.1 == String.ofList run) = none := by
    rw [List.find?_eq_none]
    rintro ⟨name, argument⟩ isPair same
    rw [beq_iff_eq] at same
    exact isName (same ▸ (List.of_mem_zip isPair).1)
  rw [argumentFor, none]

/-- An identifier that names a parameter has an argument, if there are as many as parameters. -/
theorem exists_isArgumentOf (same : arguments.length = parameters.length)
    (isParameter : String.ofList run ∈ parameters) :
    ∃ argument ∈ arguments, IsArgumentOf parameters arguments run argument := by
  have exists_position : ∃ position : Nat, parameters[position]? = some (String.ofList run) :=
    List.mem_iff_getElem?.mp isParameter
  have isName := Nat.find_spec exists_position
  have inside : Nat.find exists_position < arguments.length :=
    same ▸ (List.getElem?_eq_some_iff.mp isName).1
  exact ⟨_, List.getElem_mem inside, _, isName, fun earlier => Nat.find_min exists_position,
    List.getElem?_eq_getElem inside⟩

/-! ### The whole body -/

/-- There is one way to replace the parameters of a text. Identifiers are as long as they can be, so
a text is made of them in one way only. -/
theorem replaced_iff (same : arguments.length = parameters.length) :
    Replaced parameters arguments text result ↔
      result = mapRuns (argumentFor parameters arguments) text := by
  constructor
  · intro replaced
    induction replaced with
    | nil => rw [mapRuns_nil]
    | other isOther _ ih => rw [mapRuns_other isOther, ih]
    | name isRun apart isName _ ih => rw [mapRuns_run isRun apart, argumentFor_name isName, ih]
    | parameter isRun apart isArgument _ ih =>
        rw [mapRuns_run isRun apart, argumentFor_of_isArgumentOf isArgument, ih]
  · rintro rfl
    induction text using run_induction with
    | nil =>
        rw [mapRuns_nil]
        exact .nil
    | other character rest isOther ih =>
        rw [mapRuns_other isOther]
        exact .other isOther ih
    | identifier run rest isRun apart ih =>
        rw [mapRuns_run isRun apart]
        by_cases isParameter : String.ofList run ∈ parameters
        · obtain ⟨argument, _, isArgument⟩ := exists_isArgumentOf same isParameter
          rw [argumentFor_of_isArgumentOf isArgument]
          exact .parameter isRun apart isArgument ih
        · rw [argumentFor_name isParameter]
          exact .name isRun apart isParameter ih

/-- All that is written comes from the text or from an argument. So operators could only come from
those. -/
theorem Replaced.not_mem (replaced : Replaced parameters arguments text result)
    (notInText : character ∉ text) (notInArguments : ∀ argument ∈ arguments, character ∉ argument) :
    character ∉ result := by
  induction replaced with
  | nil => exact notInText
  | other _ _ ih =>
      rw [List.mem_cons, not_or] at notInText ⊢
      exact ⟨notInText.1, ih notInText.2⟩
  | name _ _ _ _ ih =>
      rw [List.mem_append, not_or] at notInText ⊢
      exact ⟨notInText.1, ih notInText.2⟩
  | parameter _ _ isArgument _ ih =>
      obtain ⟨_, _, _, isThere⟩ := isArgument
      rw [List.mem_append, not_or] at notInText ⊢
      exact ⟨notInArguments _ (List.mem_of_getElem? isThere), ih notInText.2⟩

/-- A macro for which the number of arguments is wrong expands to its bare body. If neither the body
nor the arguments hold an operator, it expands to the body with the parameters replaced. -/
theorem expand_replaces (definition : MacroDefinition) (arguments : List (List Char)) :
    (arguments.length ≠ definition.parameters.length →
      definition.expand arguments = definition.body.toList) ∧
    (arguments.length = definition.parameters.length → '#' ∉ definition.body.toList →
      (∀ argument ∈ arguments, '#' ∉ argument) →
        ∀ result, Replaced definition.parameters arguments definition.body.toList result ↔
          result = definition.expand arguments) := by
  refine ⟨fun differs => ?_, fun same bodyPlain argumentsPlain result => ?_⟩
  · simp [expand, differs]
  · have replaced : Replaced definition.parameters arguments definition.body.toList
        (definition.substitute arguments) := (replaced_iff same).mpr rfl
    have noOperator := replaced.not_mem bodyPlain argumentsPlain
    have expanded : definition.expand arguments = definition.substitute arguments := by
      rw [expand, if_pos (by simpa using same), Macro.applyQuoting_of_not_mem noOperator,
        Macro.applyPasting_of_not_mem noOperator]
    rw [replaced_iff same, expanded]
    rfl

/-- A macro with two parameters of one name, which stands in its body within and beside longer
names. -/
def showing : MacroDefinition where
  name := "SHOW"
  parameters := ["a", "b", "a"]
  body := "a + ab.b(éa, a_1)"

/-- A name that only contains the name of a parameter is left alone, and so is one that continues
with a letter that is not of ASCII. -/
theorem expand_showing :
    showing.expand ["c".toList] = showing.body.toList ∧
      ∀ result, Replaced showing.parameters ["b(a)".toList, "a".toList, []] showing.body.toList
        result ↔ result = "b(a) + ab.a(éb(a), a_1)".toList := by
  have replaces := expand_replaces showing
  have expanded : showing.expand ["b(a)".toList, "a".toList, []] =
      "b(a) + ab.a(éb(a), a_1)".toList := by
    decide +kernel
  refine ⟨(replaces ["c".toList]).1 (by decide), ?_⟩
  rw [← expanded]
  exact (replaces ["b(a)".toList, "a".toList, []]).2 (by decide) (by decide) (by decide)

end MacroDefinition

end TadsReference
