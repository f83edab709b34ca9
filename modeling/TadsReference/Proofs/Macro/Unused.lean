import TadsReference.Proofs.Macro.Unfolding

/-!
# Texts that use no macro

A text in which no macro is named stays as it is, whatever the macros are:
`expandLine_of_not_namesMacro`.
-/

namespace TadsReference.MacroScope

open Identifier

variable {scope : MacroScope} {text run rest : List Char}

/-- A pass keeps an identifier that names no macro. -/
theorem expandOnce_unknown (isRun : IsRun run) (apart : Apart rest)
    (unknown : scope.lookup? run = none) :
    scope.expandOnce (run ++ rest) = (scope.expandOnce rest).keep run := by
  rcases run with _ | ⟨character, tail⟩
  · exact absurd rfl isRun.nonempty
  · have isIdentifier := isRun.all character List.mem_cons_self
    have spans := takeWhile_append_of_apart
      (fun symbol isSymbol => isRun.all symbol (List.mem_cons_of_mem _ isSymbol)) apart
    simp only [List.cons_append, expandOnce, isIdentifier, spans.1, spans.2, if_true]
    split
    · rfl
    · next known =>
        rw [unknown] at known
        contradiction

/-- A pass finds nothing to replace in a text that names no macro. -/
theorem expandOnce_of_not_namesMacro (unused : ¬scope.NamesMacro text) :
    scope.expandOnce text = ⟨text, none, false⟩ := by
  rw [namesMacro_iff_lookup?] at unused
  induction text using run_induction with
  | nil => exact expandOnce_nil
  | other character rest other ih =>
      rw [names_other other] at unused
      rw [expandOnce_other other, ih unused]
      rfl
  | identifier run rest isRun apart ih =>
      simp only [names_run isRun apart, List.mem_cons, exists_eq_or_imp, not_or, not_not] at unused
      rw [expandOnce_unknown isRun apart unused.1, ih unused.2]
      rfl

theorem expandLine_of_not_namesMacro (unused : ¬scope.NamesMacro text) :
    scope.expandLine text = .ok (.complete text) := by
  have pass := expandOnce_of_not_namesMacro unused
  have rests : scope.expandAvailable text = .ok text := by
    simp [expandAvailable, expansionLimit, settle, pass]
  simp [expandLine, pass, rests, Except.map]

/-! ### Macros of a scope -/

theorem mem_definitions_define {definition added : MacroDefinition}
    (isDefinition : definition ∈ (scope.define added).definitions) :
    definition = added ∨ definition ∈ scope.definitions := by
  rcases List.mem_cons.mp isDefinition with same | isOther
  · exact .inl same
  · exact .inr (List.mem_filter.mp isOther).1

theorem mem_of_mem_definitions_ofList {definitions : List MacroDefinition}
    {definition : MacroDefinition} (isDefinition : definition ∈ (ofList definitions).definitions) :
    definition ∈ definitions := by
  induction definitions with
  | nil => contradiction
  | cons first others ih =>
      rcases mem_definitions_define isDefinition with rfl | isOther
      · exact List.mem_cons_self
      · exact List.mem_cons_of_mem _ (ih isOther)

theorem namesMacro_define {added : MacroDefinition}
    (uses : (scope.define added).NamesMacro text) :
    occursIn added.name text = true ∨ scope.NamesMacro text := by
  rcases uses with ⟨definition, isDefinition, isName⟩
  rcases mem_definitions_define isDefinition with rfl | isOther
  · exact .inl (occursIn_iff.mpr isName)
  · exact .inr ⟨definition, isOther, isName⟩

end TadsReference.MacroScope
