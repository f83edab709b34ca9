import Mathlib.Data.List.Nodup
import TadsReference.Macro.Expansion
import TadsReference.Proofs.Text.Identifiers

/-!
# Unfolding macros without parameters

If no macro has parameters, a pass replaces every macro's name in a line by its body. The names that
stand in the line after some passes are those at the ends of the walks of that many steps along
which each macro is named in the body of the one before. So the passes go on for as long as there
are such walks, and when they stop, every name has been replaced by its body with all names in it
replaced: `expand_of_parameterless`.
-/

namespace TadsReference.MacroScope

open Identifier

variable {scope : MacroScope} {text run : List Char}

/-- The text with every macro's name replaced by the body, in which the names have been replaced in
the same way. All else stays. -/
inductive Unfolds (scope : MacroScope) : List Char → List Char → Prop where
  | intro {text : List Char} (unfolded : List Char → List Char)
      (macros : ∀ definition ∈ scope.definitions, definition.name.toList ∈ names text →
        scope.Unfolds definition.body.toList (unfolded definition.name.toList))
      (others : ∀ run ∈ names text,
        (∀ definition ∈ scope.definitions, definition.name.toList ≠ run) → unfolded run = run) :
      scope.Unfolds text (mapRuns unfolded text)

/-- A walk along the macros from a text: the first one is named in the text, each other one in the
body of the one before. -/
def IsWalk (scope : MacroScope) : List Char → List MacroDefinition → Prop
  | _, [] => True
  | text, definition :: others =>
      definition ∈ scope.definitions ∧ occursIn definition.name text = true ∧
        scope.IsWalk definition.body.toList others

/-! ### Looking macros up -/

theorem name_toList_eq_iff {definition : MacroDefinition} :
    definition.name.toList = run ↔ (definition.name == String.ofList run) = true := by
  constructor
  · rintro rfl
    simp
  · intro same
    simp [eq_of_beq same]

theorem lookup?_eq_none_iff :
    scope.lookup? run = none ↔
      ∀ definition ∈ scope.definitions, definition.name.toList ≠ run := by
  simp only [lookup?, List.find?_eq_none, ne_eq, name_toList_eq_iff]

/-- A macro is found under its name, and under no other. In a scope no two definitions have the same
name. -/
theorem lookup?_eq_some_iff {definition : MacroDefinition} :
    scope.lookup? run = some definition ↔
      definition ∈ scope.definitions ∧ definition.name.toList = run := by
  constructor
  · intro found
    refine ⟨List.mem_of_find?_eq_some found, name_toList_eq_iff.mpr ?_⟩
    simpa using List.find?_some found
  · rintro ⟨isDefinition, named⟩
    cases found : scope.lookup? run with
    | none => exact absurd named (lookup?_eq_none_iff.mp found definition isDefinition)
    | some other =>
        have isOther := List.mem_of_find?_eq_some found
        have sameName : other.name = definition.name := by
          rw [eq_of_beq (name_toList_eq_iff.mp named)]
          simpa using List.find?_some found
        rw [List.inj_on_of_nodup_map scope.distinct isOther isDefinition sameName]

/-- What a pass puts in the place of an identifier. -/
def bodyOf (scope : MacroScope) (run : List Char) : List Char :=
  match scope.lookup? run with
  | some definition => definition.body.toList
  | none => run

/-- Whether a text names a macro. -/
def NamesMacro (scope : MacroScope) (text : List Char) : Prop :=
  ∃ definition ∈ scope.definitions, definition.name.toList ∈ names text

/-- A text names a macro if one of its identifiers is found in the scope. -/
theorem namesMacro_iff_lookup? :
    scope.NamesMacro text ↔ ∃ run ∈ names text, scope.lookup? run ≠ none := by
  constructor
  · rintro ⟨definition, isDefinition, isName⟩
    refine ⟨definition.name.toList, isName, ?_⟩
    simp [lookup?_eq_some_iff.mpr ⟨isDefinition, rfl⟩]
  · rintro ⟨run, isName, known⟩
    rcases Option.ne_none_iff_exists'.mp known with ⟨definition, found⟩
    rcases lookup?_eq_some_iff.mp found with ⟨isDefinition, rfl⟩
    exact ⟨definition, isDefinition, isName⟩

theorem bodyOf_definition {definition : MacroDefinition}
    (isDefinition : definition ∈ scope.definitions) :
    scope.bodyOf definition.name.toList = definition.body.toList := by
  simp [bodyOf, lookup?_eq_some_iff.mpr ⟨isDefinition, rfl⟩]

theorem bodyOf_other (other : ∀ definition ∈ scope.definitions, definition.name.toList ≠ run) :
    scope.bodyOf run = run := by
  simp [bodyOf, lookup?_eq_none_iff.mpr other]

/-! ### One pass -/

theorem expandOnce_nil : scope.expandOnce [] = .nothing := by
  rw [expandOnce]

theorem expandOnce_other {character : Char} {rest : List Char}
    (other : isIdentifierCharacter character = false) :
    scope.expandOnce (character :: rest) = (scope.expandOnce rest).keep [character] := by
  rw [expandOnce, other]
  rfl

section Parameterless

variable (parameterless : ∀ definition ∈ scope.definitions, definition.parameters = [])

include parameterless

/-- A pass goes over one identifier: it is kept, or replaced by the body of its macro, which has no
parameters here. -/
theorem expandOnce_run {rest : List Char} (isRun : IsRun run) (apart : Apart rest) :
    scope.expandOnce (run ++ rest) =
      match scope.lookup? run with
      | none => (scope.expandOnce rest).keep run
      | some definition =>
          (scope.expandOnce rest).insertExpansion definition.name definition.body.toList := by
  rcases run with _ | ⟨character, tail⟩
  · exact absurd rfl isRun.nonempty
  · have isIdentifier := isRun.all character List.mem_cons_self
    have spans := takeWhile_append_of_apart
      (fun symbol isSymbol => isRun.all symbol (List.mem_cons_of_mem _ isSymbol)) apart
    simp only [List.cons_append, expandOnce, isIdentifier, spans.1, spans.2, if_true]
    cases found : scope.lookup? (character :: tail) with
    | none => rfl
    | some definition =>
        have empty := parameterless definition (lookup?_eq_some_iff.mp found).1
        simp [empty]

/-- A pass replaces the names of macros by their bodies, and notes whether there was one. -/
theorem expandOnce_spec (text : List Char) :
    (scope.expandOnce text).text = mapRuns scope.bodyOf text ∧
      (scope.expandOnce text).unclosed = false ∧
        ((scope.expandOnce text).expanded = none ↔ ¬scope.NamesMacro text) := by
  rw [namesMacro_iff_lookup?]
  induction text using run_induction with
  | nil => simp [expandOnce_nil, ExpansionPass.nothing, mapRuns_nil, names_nil]
  | other character rest other ih =>
      simpa [expandOnce_other other, ExpansionPass.keep, mapRuns_other other, names_other other]
        using ih
  | identifier run rest isRun apart ih =>
      rw [expandOnce_run parameterless isRun apart, mapRuns_run isRun apart, names_run isRun apart]
      cases found : scope.lookup? run with
      | none => simpa [ExpansionPass.keep, bodyOf, found] using ih
      | some definition => simp [ExpansionPass.insertExpansion, bodyOf, found, ih.1, ih.2.1]

end Parameterless

/-- After a pass, the identifiers of a body that was put in stand in the text. -/
theorem mem_names_pass_of_body {definition : MacroDefinition}
    (isDefinition : definition ∈ scope.definitions)
    (isName : definition.name.toList ∈ names text) (isNamed : run ∈ names definition.body.toList) :
    run ∈ names (mapRuns scope.bodyOf text) := by
  rw [names_mapRuns, List.mem_flatMap]
  refine ⟨definition.name.toList, isName, ?_⟩
  rwa [bodyOf_definition isDefinition]

/-- Identifiers that name no macro stay. -/
theorem mem_names_pass_of_other
    (other : ∀ definition ∈ scope.definitions, definition.name.toList ≠ run)
    (isName : run ∈ names text) : run ∈ names (mapRuns scope.bodyOf text) := by
  rw [names_mapRuns, List.mem_flatMap]
  refine ⟨run, isName, ?_⟩
  simp [bodyOf_other other, names_isRun (isRun_of_mem_names isName)]

/-- After a pass, a text names the macros that are named in the bodies put in. -/
theorem exists_macro_of_mem_names_pass {definition : MacroDefinition}
    (isDefinition : definition ∈ scope.definitions)
    (isName : definition.name.toList ∈ names (mapRuns scope.bodyOf text)) :
    ∃ first ∈ scope.definitions, first.name.toList ∈ names text ∧
      definition.name.toList ∈ names first.body.toList := by
  rw [names_mapRuns, List.mem_flatMap] at isName
  rcases isName with ⟨run, isRunName, isNamed⟩
  cases found : scope.lookup? run with
  | none =>
      have other := lookup?_eq_none_iff.mp found
      rw [bodyOf_other other, names_isRun (isRun_of_mem_names isRunName),
        List.mem_singleton] at isNamed
      exact absurd isNamed (other definition isDefinition)
  | some first =>
      rcases lookup?_eq_some_iff.mp found with ⟨isFirst, rfl⟩
      rw [bodyOf_definition isFirst] at isNamed
      exact ⟨first, isFirst, isRunName, isNamed⟩

/-! ### Walks -/

/-- Whether there is a walk of a length. -/
def HasWalk (scope : MacroScope) (length : Nat) (text : List Char) : Prop :=
  ∃ walk, walk.length = length ∧ scope.IsWalk text walk

theorem hasWalk_zero : scope.HasWalk 0 text :=
  ⟨[], rfl, trivial⟩

theorem HasWalk.namesMacro {length : Nat} (hasWalk : scope.HasWalk (length + 1) text) :
    scope.NamesMacro text := by
  rcases hasWalk with ⟨_ | ⟨definition, others⟩, size, isWalk⟩
  · contradiction
  · exact ⟨definition, isWalk.1, occursIn_iff.mp isWalk.2.1⟩

/-- A pass takes the first step of every walk. The names behind the pass are those in the bodies of
the macros that it has replaced, so a walk there goes on from one of these. -/
theorem hasWalk_succ_iff {length : Nat} :
    scope.HasWalk (length + 1) text ↔
      scope.NamesMacro text ∧ scope.HasWalk length (mapRuns scope.bodyOf text) := by
  constructor
  · intro hasWalk
    refine ⟨hasWalk.namesMacro, ?_⟩
    rcases hasWalk with ⟨_ | ⟨first, others⟩, size, isFirst, occurs, isWalk⟩
    · contradiction
    · refine ⟨others, Nat.succ.inj size, ?_⟩
      cases others with
      | nil => trivial
      | cons definition others =>
          refine ⟨isWalk.1, occursIn_iff.mpr ?_, isWalk.2.2⟩
          exact mem_names_pass_of_body isFirst (occursIn_iff.mp occurs)
            (occursIn_iff.mp isWalk.2.1)
  · rintro ⟨⟨named, isNamed, isName⟩, others, rfl, isWalk⟩
    cases others with
    | nil => exact ⟨[named], rfl, isNamed, occursIn_iff.mpr isName, trivial⟩
    | cons definition others =>
        rcases isWalk with ⟨isDefinition, occurs, isWalk⟩
        rcases exists_macro_of_mem_names_pass isDefinition (occursIn_iff.mp occurs)
          with ⟨first, isFirst, isName, isNext⟩
        exact ⟨first :: definition :: others, rfl, isFirst, occursIn_iff.mpr isName, isDefinition,
          occursIn_iff.mpr isNext, isWalk⟩

/-! ### Unfolding -/

theorem unfolds_of_not_namesMacro (rests : ¬scope.NamesMacro text) : scope.Unfolds text text := by
  have unfolded : scope.Unfolds text (mapRuns id text) :=
    .intro id
      (fun definition isDefinition isName => absurd ⟨definition, isDefinition, isName⟩ rests)
      (fun run _ _ => rfl)
  rwa [mapRuns_id] at unfolded

/-- What a pass leaves to unfold is what there was to unfold before it. The pass has put in the
bodies, and each of them unfolds as it does where its macro is named. -/
theorem Unfolds.of_pass {result : List Char}
    (unfolds : scope.Unfolds (mapRuns scope.bodyOf text) result) : scope.Unfolds text result := by
  cases unfolds with
  | intro unfolded macros others =>
      rw [mapRuns_mapRuns]
      apply Unfolds.intro
      · intro definition isDefinition isName
        rw [bodyOf_definition isDefinition]
        apply Unfolds.intro
        · intro next isNext isNamed
          exact macros next isNext (mem_names_pass_of_body isDefinition isName isNamed)
        · intro run isNamed other
          exact others run (mem_names_pass_of_body isDefinition isName isNamed) other
      · intro run isName other
        rw [bodyOf_other other, mapRuns_isRun (isRun_of_mem_names isName)]
        exact others run (mem_names_pass_of_other other isName) other

/-- A text unfolds in one way at most. The induction is on one of the two unfoldings: what each name
comes to is settled by its macro. -/
theorem Unfolds.unique {left right : List Char} (isLeft : scope.Unfolds text left)
    (isRight : scope.Unfolds text right) : left = right := by
  induction isLeft generalizing right with
  | @intro text unfolded macros others ih =>
      cases isRight with
      | intro unfoldedRight macrosRight othersRight =>
          apply mapRuns_congr
          intro run isName
          cases found : scope.lookup? run with
          | none =>
              have other := lookup?_eq_none_iff.mp found
              rw [others run isName other, othersRight run isName other]
          | some definition =>
              rcases lookup?_eq_some_iff.mp found with ⟨isDefinition, rfl⟩
              exact ih definition isDefinition isName (macrosRight definition isDefinition isName)

/-! ### Passes until the text rests -/

section Parameterless

variable (parameterless : ∀ definition ∈ scope.definitions, definition.parameters = [])

include parameterless

/-- The passes do not come to an end if there is a walk as long as there are passes, and else they
unfold the text. The induction is on the number of passes. Each pass takes the first step of every
walk and leaves the same to unfold. -/
theorem settle_spec (passes : Nat) (last : String) (text : List Char) :
    (scope.HasWalk passes text →
      ∃ name, scope.settle passes last text = .error (.endlessExpansion name)) ∧
    (¬scope.HasWalk passes text →
      ∃ result, scope.settle passes last text = .ok result ∧ scope.Unfolds text result) := by
  induction passes generalizing last text with
  | zero => exact ⟨fun _ => ⟨last, rfl⟩, fun noWalk => absurd hasWalk_zero noWalk⟩
  | succ passes ih =>
      have pass := expandOnce_spec parameterless text
      rw [hasWalk_succ_iff]
      cases expanded : (scope.expandOnce text).expanded with
      | none =>
          have rests := pass.2.2.mp expanded
          refine ⟨fun hasWalk => absurd hasWalk.1 rests, fun _ => ⟨text, ?_, ?_⟩⟩
          · simp [settle, expanded]
          · exact unfolds_of_not_namesMacro rests
      | some name =>
          have names : scope.NamesMacro text := by
            by_contra rests
            simp [pass.2.2.mpr rests] at expanded
          have settled : scope.settle (passes + 1) last text =
              scope.settle passes name (mapRuns scope.bodyOf text) := by
            simp [settle, expanded, pass.1]
          rw [settled]
          rcases ih name (mapRuns scope.bodyOf text) with ⟨endless, rests⟩
          refine ⟨fun hasWalk => endless hasWalk.2, fun noWalk => ?_⟩
          rcases rests (fun hasWalk => noWalk ⟨names, hasWalk⟩) with ⟨result, ended, unfolds⟩
          exact ⟨result, ended, unfolds.of_pass⟩

end Parameterless

/-- Where no macro has parameters, a line cannot be expanded if there is a walk of 64 macros from
it. From every other line both ways of expanding it make the text to which it unfolds. Nothing has
to wait for a next line, for no macro reads an argument list. -/
theorem expand_of_parameterless
    (parameterless : ∀ definition ∈ scope.definitions, definition.parameters = [])
    (line : List Char) :
    ((∃ walk, walk.length = 64 ∧ scope.IsWalk line walk) →
      ∃ name, scope.expandLine line = .error (.endlessExpansion name) ∧
        scope.expandAvailable line = .error (.endlessExpansion name)) ∧
    ((¬∃ walk, walk.length = 64 ∧ scope.IsWalk line walk) →
      ∃ text, (∀ other, scope.Unfolds line other ↔ other = text) ∧
        scope.expandLine line = .ok (.complete text) ∧ scope.expandAvailable line = .ok text) := by
  have closed := (expandOnce_spec parameterless line).2.1
  have settles := settle_spec parameterless expansionLimit "" line
  constructor
  · intro hasWalk
    rcases settles.1 hasWalk with ⟨name, endless⟩
    refine ⟨name, ?_, endless⟩
    simp [expandLine, closed, expandAvailable, endless, Except.map]
  · intro noWalk
    rcases settles.2 noWalk with ⟨text, ended, unfolds⟩
    refine ⟨text, fun other => ⟨fun isOther => isOther.unique unfolds, ?_⟩, ?_, ended⟩
    · rintro rfl
      exact unfolds
    · simp [expandLine, closed, expandAvailable, ended, Except.map]

/-- A macro that names itself leads to walks of every length. -/
theorem isWalk_replicate {definition : MacroDefinition}
    (isDefinition : definition ∈ scope.definitions)
    (named : occursIn definition.name definition.body.toList = true)
    (isName : occursIn definition.name text = true) (length : Nat) :
    scope.IsWalk text (List.replicate length definition) := by
  induction length generalizing text with
  | zero => trivial
  | succ length ih => exact ⟨isDefinition, isName, ih named⟩

/-- A scope in which one macro names itself and another one does not. -/
def countingMacros : MacroScope where
  definitions := [⟨"LOOP", [], "LOOP + 1"⟩, ⟨"TWO", [], "ONE + ONE"⟩, ⟨"ONE", [], "1"⟩]
  distinct := by decide

/-- The macro that names itself leads to walks of every length, so the line with its name is not
expanded. The other line unfolds. -/
theorem expand_countingMacros :
    (∀ definition ∈ countingMacros.definitions, definition.parameters = []) ∧
    (∃ name, countingMacros.expandLine "x = LOOP".toList = .error (.endlessExpansion name) ∧
      countingMacros.expandAvailable "x = LOOP".toList = .error (.endlessExpansion name)) ∧
    ∃ text, (∀ other, countingMacros.Unfolds "x = TWO".toList other ↔ other = text) ∧
      countingMacros.expandLine "x = TWO".toList = .ok (.complete text) ∧
        countingMacros.expandAvailable "x = TWO".toList = .ok text := by
  have parameterless : ∀ definition ∈ countingMacros.definitions, definition.parameters = [] := by
    decide
  refine ⟨parameterless, ?_, ?_⟩
  · apply (expand_of_parameterless parameterless "x = LOOP".toList).1
    refine ⟨List.replicate 64 ⟨"LOOP", [], "LOOP + 1"⟩, by simp, ?_⟩
    exact isWalk_replicate (by decide) (by decide +kernel) (by decide +kernel) 64
  · apply (expand_of_parameterless parameterless "x = TWO".toList).2
    intro hasWalk
    rcases (expand_of_parameterless parameterless "x = TWO".toList).1 hasWalk with
      ⟨name, endless, _⟩
    have expanded : countingMacros.expandLine "x = TWO".toList =
        .ok (.complete "x = 1 + 1".toList) := by decide +kernel
    rw [expanded] at endless
    contradiction

end TadsReference.MacroScope
