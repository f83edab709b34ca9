import TadsReference.Proofs.Macro.NormalForms
import TadsReference.Proofs.Reader.Attempts

/-!
# Fronts of lines

Where the front of a line invokes no macro, expansion keeps the front as it is and does with the
rest what it would do with the rest alone: `expandAvailable_front`. It does not matter how often
passes are repeated, since the rest goes on beginning as it began, and it does not matter which
lines are joined to the line, since these come behind the rest: `exists_of_expandRaw`.
-/

namespace TadsReference

open Identifier Macro

variable {front rest more run : List Char} {character : Char}

namespace Identifier

/-- A text that begins like one that continues no identifier, or with a space, continues none. -/
theorem Apart.of_head? (apart : Apart rest)
    (begins : ∀ character ∈ more.head?, rest.head? = some character ∨ character = ' ') :
    Apart more := by
  intro character isHead
  rcases begins character isHead with same | rfl
  · exact apart character same
  · rfl

theorem Apart.of_head?_eq (apart : Apart rest) (same : more.head? = rest.head?) : Apart more :=
  fun character isHead => apart character (same ▸ isHead)

end Identifier

namespace MacroScope

variable {scope : MacroScope}

/-- No macro is invoked by an identifier: if it names one, this has parameters, and no list of
arguments begins behind the name. -/
def Spares (scope : MacroScope) (run after : List Char) : Prop :=
  ∀ definition ∈ scope.definitions, definition.name.toList = run →
    definition.parameters ≠ [] ∧ after.head? ≠ some '('

/-- The front of a text in which no macro is invoked, with the rest of the text. -/
inductive Front (scope : MacroScope) : (front rest : List Char) → Prop
  | empty (rest : List Char) : scope.Front [] rest
  | other {character : Char} {front rest : List Char}
      (isOther : isIdentifierCharacter character = false) (further : scope.Front front rest) :
      scope.Front (character :: front) rest
  | name {run front rest : List Char} (isRun : IsRun run) (apart : Apart (front ++ rest))
      (spares : scope.Spares run (front ++ rest)) (further : scope.Front front rest) :
      scope.Front (run ++ front) rest

/-! ### Making fronts -/

/-- Two fronts one behind the other are a front, as the identifiers of the first one are followed by
what they are followed by in both. -/
theorem Front.append (first : scope.Front front (more ++ rest)) (second : scope.Front more rest) :
    scope.Front (front ++ more) rest := by
  generalize shape : more ++ rest = behind at first
  induction first with
  | empty => exact second
  | other isOther _ ih => exact .other isOther (ih shape)
  | name isRun apart spares _ ih =>
      subst shape
      rw [List.append_assoc]
      rw [← List.append_assoc] at apart spares
      exact .name isRun apart spares (ih rfl)

theorem front_of_others (others : ∀ character ∈ front, isIdentifierCharacter character = false)
    (rest : List Char) : scope.Front front rest := by
  induction front with
  | nil => exact .empty rest
  | cons character front ih =>
      obtain ⟨isOther, others⟩ := List.forall_mem_cons.mp others
      exact .other isOther (ih others)

theorem front_of_run (isRun : IsRun run) (apart : Apart rest) (spares : scope.Spares run rest) :
    scope.Front run rest := by
  have front : scope.Front (run ++ []) rest := .name isRun apart spares (.empty rest)
  rwa [List.append_nil] at front

/-- The rest may go on differently, as long as it begins alike or with a space. A space can neither
continue a name nor open an argument list, so it only makes less of what follows. -/
theorem Front.of_head? (isFront : scope.Front front rest)
    (begins : ∀ character ∈ more.head?, rest.head? = some character ∨ character = ' ') :
    scope.Front front more := by
  induction isFront with
  | empty => exact .empty more
  | other isOther _ ih => exact .other isOther (ih begins)
  | @name run front rest isRun apart spares _ ih =>
      have alike : ∀ character ∈ (front ++ more).head?,
          (front ++ rest).head? = some character ∨ character = ' ' := by
        cases front with
        | nil => exact begins
        | cons first _ => exact fun character isHead => .inl isHead
      refine .name isRun (apart.of_head? alike) ?_ (ih begins)
      intro definition isDefinition named
      refine ⟨(spares definition isDefinition named).1, ?_⟩
      intro opens
      rcases alike '(' opens with same | isSpace
      · exact (spares definition isDefinition named).2 same
      · exact absurd isSpace (by decide)

/-! ### Expanding -/

theorem expandOnce_spared (isRun : IsRun run) (apart : Apart rest)
    (spares : scope.Spares run rest) :
    scope.expandOnce (run ++ rest) = (scope.expandOnce rest).keep run := by
  cases found : scope.lookup? run with
  | none => exact expandOnce_unknown isRun apart found
  | some definition =>
      obtain ⟨isDefinition, named⟩ := lookup?_eq_some_iff.mp found
      obtain ⟨takes, opensNothing⟩ := spares definition isDefinition named
      rw [expandOnce_known isRun apart found, read_eq_absent_iff.mpr opensNothing]
      simp [takes]

/-- A pass keeps the front and goes over the rest. The induction goes along the front, identifier by
identifier. -/
theorem expandOnce_front (isFront : scope.Front front rest) :
    scope.expandOnce (front ++ rest) = (scope.expandOnce rest).keep front := by
  induction isFront with
  | empty => rfl
  | other isOther _ ih =>
      rw [List.cons_append, expandOnce_other isOther, ih]
      rfl
  | name isRun apart spares _ ih =>
      rw [List.append_assoc, expandOnce_spared isRun apart spares, ih]
      simp [ExpansionPass.keep]

/-- A text that no identifier begins goes on beginning as it does. -/
theorem head?_expandOnce (apart : Apart rest) :
    (scope.expandOnce rest).text.head? = rest.head? := by
  cases rest with
  | nil =>
      rw [expandOnce_nil]
      rfl
  | cons character rest =>
      rw [expandOnce_other (apart character rfl)]
      rfl

theorem Front.of_head?_eq (isFront : scope.Front front rest) (same : more.head? = rest.head?) :
    scope.Front front more :=
  isFront.of_head? fun _ isHead => .inl (same ▸ isHead)

/-- As the rest goes on beginning as it does, each pass finds the same front again. So all passes
are those over the rest. -/
theorem settle_front (isFront : scope.Front front rest) (apart : Apart rest) (passes : Nat)
    (last : String) :
    scope.settle passes last (front ++ rest) =
      (scope.settle passes last rest).map (front ++ ·) := by
  induction passes generalizing last rest with
  | zero => rfl
  | succ passes ih =>
      have begins : (scope.expandOnce rest).text.head? = rest.head? := head?_expandOnce apart
      simp only [settle, expandOnce_front isFront, ExpansionPass.keep]
      cases (scope.expandOnce rest).expanded with
      | none => rfl
      | some name => exact ih (isFront.of_head?_eq begins) (apart.of_head?_eq begins) name

/-- A text that no identifier begins goes on beginning as it does, over all passes. -/
theorem head?_of_settle {passes : Nat} {last : String} {result : List Char} (apart : Apart rest)
    (settles : scope.settle passes last rest = .ok result) : result.head? = rest.head? := by
  induction passes generalizing last rest with
  | zero => contradiction
  | succ passes ih =>
      have begins : (scope.expandOnce rest).text.head? = rest.head? := head?_expandOnce apart
      simp only [settle] at settles
      split at settles
      · cases settles
        rfl
      · exact (ih (apart.of_head?_eq begins) settles).trans begins

/-- The front of a text is kept, and the rest is expanded as it would be alone. -/
theorem expandAvailable_front (isFront : scope.Front front rest) (apart : Apart rest) :
    scope.expandAvailable (front ++ rest) = (scope.expandAvailable rest).map (front ++ ·) :=
  settle_front isFront apart _ _

/-- A line with a front that invokes no macro is expanded to the front with something behind it that
does not lengthen it. -/
theorem exists_of_expandAvailable (isFront : scope.Front front rest) (apart : Apart rest)
    {text : List Char} (expands : scope.expandAvailable (front ++ rest) = .ok text) :
    ∃ expanded, text = front ++ expanded ∧ Apart expanded := by
  rw [expandAvailable_front isFront apart] at expands
  cases alone : scope.expandAvailable rest with
  | error cause => simp [alone, Except.map] at expands
  | ok expanded =>
      refine ⟨expanded, ?_, apart.of_head?_eq (head?_of_settle apart alone)⟩
      simpa [alone, Except.map] using expands.symm

theorem expandAvailable_of_complete {line text : List Char}
    (complete : scope.expandLine line = .ok (.complete text)) :
    scope.expandAvailable line = .ok text := by
  rw [expandLine_eq_map (by simp [complete])] at complete
  cases available : scope.expandAvailable line with
  | error cause => simp [available, Except.map] at complete
  | ok other => simpa [available, Except.map] using complete

end MacroScope

namespace Reader

variable {scope : MacroScope} {raw : RawLine} {source : LineSource}

/-- The text of a line is the expansion of the raw line and of what is joined to it. -/
theorem exists_joined_of_expandRaw (number : source.number = raw.number) {text : List Char}
    (expands : (expandRaw (some scope) raw source).1 = .ok text) :
    ∃ joined, scope.expandAvailable (joinedText raw joined) = .ok text := by
  rcases attempt_expandRaw (some scope) raw source number with ⟨joined, _, attempt⟩
  generalize (expandRaw (some scope) raw source).1 = outcome at expands attempt
  cases attempt with
  | failed => contradiction
  | expanded _ complete =>
      cases expands
      exact ⟨joined, MacroScope.expandAvailable_of_complete complete⟩
  | alone _ =>
      have whole : joinedText raw [] = raw.text := List.append_nil _
      exact ⟨[], whole ▸ expands⟩

/-- What is joined to a line comes behind a space. -/
theorem head?_joined (rest : List Char) (joined : List RawLine) :
    ∀ character ∈ (rest ++ joined.flatMap fun line => ' ' :: Text.trim line.text).head?,
      rest.head? = some character ∨ character = ' ' := by
  intro character isHead
  cases rest with
  | cons first _ => exact .inl isHead
  | nil =>
      cases joined with
      | nil => contradiction
      | cons line _ => exact .inr (Option.some.inj isHead).symm

/-- What becomes of a raw line begins with its front, whatever lines are joined to it. What is
joined comes behind a space, so it does not lengthen the front either. -/
theorem exists_of_expandRaw (number : source.number = raw.number)
    (shape : raw.text = front ++ rest) (isFront : scope.Front front rest) (apart : Apart rest)
    {text : List Char} (expands : (expandRaw (some scope) raw source).1 = .ok text) :
    ∃ expanded, text = front ++ expanded ∧ Apart expanded := by
  obtain ⟨joined, expands⟩ := exists_joined_of_expandRaw number expands
  have begins := head?_joined rest joined
  rw [joinedText, shape, List.append_assoc] at expands
  exact MacroScope.exists_of_expandAvailable (isFront.of_head? begins) (apart.of_head? begins)
    expands

end Reader

end TadsReference
