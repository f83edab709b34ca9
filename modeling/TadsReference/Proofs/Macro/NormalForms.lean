import TadsReference.Proofs.Macro.ArgumentLists
import TadsReference.Proofs.Macro.Unused

/-!
# Expanded texts

Expansion ends with a text in which nothing is left to expand: no macro without parameters is named
in it, and no argument list that closes stands behind the name of a macro with parameters. Whether a
line has to wait for the next one is decided by its first pass, which goes over the argument lists
of closed invocations. A list that stays open never stands within one that closes, so nothing is
missed by going over these (`expandsToNormal`).
-/

namespace TadsReference.MacroScope

open Identifier Macro

variable {scope : MacroScope} {text run rest inner after : List Char}
  {definition : MacroDefinition}

/-- An identifier is not expanded: if it names a macro, this has parameters, and no argument list
that closes stands behind the name. -/
def Stays (scope : MacroScope) (run after : List Char) : Prop :=
  ∀ definition ∈ scope.definitions, definition.name.toList = run →
    definition.parameters ≠ [] ∧ ¬Closes after

/-- Nothing is left to expand in a text. -/
def IsNormal (scope : MacroScope) (text : List Char) : Prop :=
  Everywhere scope.Stays text

/-- A macro with parameters is named, and an argument list is opened behind the name and never
closed. -/
def Awaits (scope : MacroScope) (run after : List Char) : Prop :=
  (∃ definition ∈ scope.definitions, definition.name.toList = run ∧ definition.parameters ≠ []) ∧
    NeverCloses after

/-- Where the first pass over a text looks for macros: everywhere from left to right, but not in the
argument lists of the invocations that it closes. -/
inductive LooksAt (scope : MacroScope) : (text rest : List Char) → Prop
  | start {text : List Char} : scope.LooksAt text text
  | character {character : Char} {tail rest : List Char}
      (other : isIdentifierCharacter character = false) (further : scope.LooksAt tail rest) :
      scope.LooksAt (character :: tail) rest
  | name {run tail rest : List Char} (isRun : IsRun run) (apart : Apart tail)
      (notClosed : ∀ definition ∈ scope.definitions, definition.name.toList = run →
        definition.parameters = [] ∨ ¬Closes tail) (further : scope.LooksAt tail rest) :
      scope.LooksAt (run ++ tail) rest
  | invocation {definition : MacroDefinition} {inner tail rest : List Char}
      (isDefinition : definition ∈ scope.definitions) (takes : definition.parameters ≠ [])
      (isRun : IsRun definition.name.toList) (matched : Matched inner)
      (further : scope.LooksAt tail rest) :
      scope.LooksAt (definition.name.toList ++ ('(' :: inner ++ ')' :: tail)) rest

theorem stays_of_unknown (unknown : scope.lookup? run = none) : scope.Stays run after :=
  fun definition isDefinition named =>
    absurd named (lookup?_eq_none_iff.mp unknown definition isDefinition)

/-- Of a macro's own name it can be said more simply: it stays if the macro has parameters and no
list behind the name closes. -/
theorem stays_iff (isDefinition : definition ∈ scope.definitions) :
    scope.Stays definition.name.toList after ↔ definition.parameters ≠ [] ∧ ¬Closes after := by
  have found := lookup?_eq_some_iff.mpr ⟨isDefinition, rfl⟩
  constructor
  · exact fun stays => stays definition isDefinition rfl
  · intro unexpanded other isOther named
    rw [lookup?_eq_some_iff.mpr ⟨isOther, named⟩] at found
    rwa [Option.some.inj found]

/-! ### One pass -/

/-- What a pass does at the name of a macro: it puts the expansion in, past the argument list if the
macro has parameters. Where the list is left open or is missing, the name is kept. -/
theorem expandOnce_known (isRun : IsRun run) (apart : Apart rest)
    (found : scope.lookup? run = some definition) :
    scope.expandOnce (run ++ rest) =
      if definition.parameters.isEmpty then
        (scope.expandOnce rest).insertExpansion definition.name definition.body.toList
      else
        match Invocation.read rest with
        | .closed arguments remaining =>
            (scope.expandOnce remaining).insertExpansion definition.name
              (definition.expand arguments)
        | .unclosed => { (scope.expandOnce rest).keep run with unclosed := true }
        | .absent => (scope.expandOnce rest).keep run := by
  rcases run with _ | ⟨character, tail⟩
  · exact absurd rfl isRun.nonempty
  · have isIdentifier := isRun.all character List.mem_cons_self
    have spans := takeWhile_append_of_apart
      (fun symbol isSymbol => isRun.all symbol (List.mem_cons_of_mem _ isSymbol)) apart
    simp only [List.cons_append, expandOnce, isIdentifier, spans.1, spans.2, if_true, found]
    split
    · rfl
    · split
      all_goals
        next read =>
          rw [spans.2] at read
          simp only [read]

/-- A macro without parameters is replaced by its body. -/
theorem expandOnce_bare (isRun : IsRun definition.name.toList) (apart : Apart rest)
    (isDefinition : definition ∈ scope.definitions) (bare : definition.parameters = []) :
    scope.expandOnce (definition.name.toList ++ rest) =
      (scope.expandOnce rest).insertExpansion definition.name definition.body.toList := by
  rw [expandOnce_known isRun apart (lookup?_eq_some_iff.mpr ⟨isDefinition, rfl⟩), bare]
  rfl

theorem exists_expandOnce_closed (isRun : IsRun definition.name.toList)
    (isDefinition : definition ∈ scope.definitions) (takes : definition.parameters ≠ [])
    (matched : Matched inner) :
    ∃ expansion, scope.expandOnce (definition.name.toList ++ ('(' :: inner ++ ')' :: rest)) =
      (scope.expandOnce rest).insertExpansion definition.name expansion := by
  have apart : Apart ('(' :: inner ++ ')' :: rest) := apart_cons (by decide)
  rcases exists_read_eq_closed_iff.mpr ⟨inner, matched, rfl⟩ with ⟨arguments, read⟩
  refine ⟨definition.expand arguments, ?_⟩
  rw [expandOnce_known isRun apart (lookup?_eq_some_iff.mpr ⟨isDefinition, rfl⟩), read]
  simp [takes]

/-- The name of a macro with parameters stays if no argument list that closes stands behind it. -/
theorem expandOnce_pending (isRun : IsRun definition.name.toList) (apart : Apart rest)
    (isDefinition : definition ∈ scope.definitions) (takes : definition.parameters ≠ [])
    (notClosed : ¬Closes rest) :
    (scope.expandOnce (definition.name.toList ++ rest)).expanded =
        (scope.expandOnce rest).expanded ∧
      ((scope.expandOnce (definition.name.toList ++ rest)).unclosed = true ↔
        rest.head? = some '(' ∨ (scope.expandOnce rest).unclosed = true) := by
  rw [expandOnce_known isRun apart (lookup?_eq_some_iff.mpr ⟨isDefinition, rfl⟩)]
  by_cases opening : rest.head? = some '('
  · rw [read_eq_unclosed_iff.mpr ⟨opening, notClosed⟩]
    simp [takes, opening, ExpansionPass.keep]
  · rw [read_eq_absent_iff.mpr opening]
    simp [takes, opening, ExpansionPass.keep]

/-- A text is gone through name by name and, where an invocation closes, past its argument list.
This is how one pass goes through it, so what is shown of all texts in this way is shown along a
pass. -/
theorem pass_induction {motive : List Char → Prop} (scope : MacroScope) (nil : motive [])
    (other : ∀ character rest, isIdentifierCharacter character = false → motive rest →
      motive (character :: rest))
    (name : ∀ run rest, IsRun run → Apart rest →
      (∀ definition ∈ scope.definitions, definition.name.toList = run →
        definition.parameters = [] ∨ ¬Closes rest) → motive rest → motive (run ++ rest))
    (invocation : ∀ definition inner rest, definition ∈ scope.definitions →
      definition.parameters ≠ [] → IsRun definition.name.toList → Matched inner → motive rest →
      motive (definition.name.toList ++ ('(' :: inner ++ ')' :: rest)))
    (text : List Char) : motive text := by
  induction length : text.length using Nat.strongRecOn generalizing text with
  | ind size ih =>
      subst length
      cases text using run_cases with
      | nil => exact nil
      | other character rest isOther => exact other character rest isOther (ih _ (by simp) rest rfl)
      | identifier run rest isRun apart =>
          have positive := List.length_pos_iff.mpr isRun.nonempty
          by_cases invoked : ∃ definition ∈ scope.definitions, definition.name.toList = run ∧
              definition.parameters ≠ [] ∧ Closes rest
          · rcases invoked with ⟨definition, isDefinition, rfl, takes, inner, rest, matched, rfl⟩
            apply invocation definition inner rest isDefinition takes isRun matched
            apply ih _ _ rest rfl
            simp only [List.length_append, List.length_cons]
            omega
          · apply name run rest isRun apart
            · intro definition isDefinition isNamed
              by_cases bare : definition.parameters = []
              · exact .inl bare
              · exact .inr fun closes =>
                  invoked ⟨definition, isDefinition, isNamed, bare, closes⟩
            · apply ih _ _ rest rfl
              simp only [List.length_append]
              omega

/-- A pass replaces something unless nothing is left to expand. The induction goes along the text as
the pass does, past the argument lists that close. -/
theorem expanded_eq_none_iff : (scope.expandOnce text).expanded = none ↔ scope.IsNormal text := by
  induction text using run_induction with
  | nil => simp [expandOnce_nil, ExpansionPass.nothing, IsNormal, everywhere_nil]
  | other character rest other ih =>
      rw [expandOnce_other other, IsNormal, everywhere_other other]
      exact ih
  | identifier run rest isRun apart ih =>
      rw [IsNormal, everywhere_run isRun apart]
      cases found : scope.lookup? run with
      | none =>
          rw [expandOnce_unknown isRun apart found]
          exact ih.trans (and_iff_right (stays_of_unknown found)).symm
      | some definition =>
          rcases lookup?_eq_some_iff.mp found with ⟨isDefinition, rfl⟩
          rw [stays_iff isDefinition]
          by_cases bare : definition.parameters = []
          · refine iff_of_false ?_ fun normal => normal.1.1 bare
            simp [expandOnce_bare isRun apart isDefinition bare, ExpansionPass.insertExpansion]
          · by_cases closes : Closes rest
            · refine iff_of_false ?_ fun normal => normal.1.2 closes
              rcases closes with ⟨inner, behind, matched, rfl⟩
              rcases exists_expandOnce_closed isRun isDefinition bare matched with ⟨_, pass⟩
              rw [pass]
              simp [ExpansionPass.insertExpansion]
            · rw [(expandOnce_pending isRun apart isDefinition bare closes).1]
              exact ih.trans (and_iff_right ⟨bare, closes⟩).symm

/-! ### Waiting for the next line -/

/-- A name at which the pass does not close an argument list makes the line wait, or what stands
behind it does. -/
theorem unclosed_run_iff (isRun : IsRun run) (apart : Apart rest)
    (notClosed : ∀ definition ∈ scope.definitions, definition.name.toList = run →
      definition.parameters = [] ∨ ¬Closes rest) :
    (scope.expandOnce (run ++ rest)).unclosed = true ↔
      scope.Awaits run rest ∨ (scope.expandOnce rest).unclosed = true := by
  cases found : scope.lookup? run with
  | none =>
      have unknown : ¬scope.Awaits run rest := by
        rintro ⟨⟨definition, isDefinition, named, _⟩, _⟩
        exact lookup?_eq_none_iff.mp found definition isDefinition named
      rw [expandOnce_unknown isRun apart found, or_iff_right unknown]
      rfl
  | some definition =>
      rcases lookup?_eq_some_iff.mp found with ⟨isDefinition, rfl⟩
      by_cases bare : definition.parameters = []
      · have complete : ¬scope.Awaits definition.name.toList rest := by
          rintro ⟨⟨other, isOther, named, takes⟩, _⟩
          rw [lookup?_eq_some_iff.mpr ⟨isOther, named⟩] at found
          exact takes (Option.some.inj found ▸ bare)
        rw [expandOnce_bare isRun apart isDefinition bare, or_iff_right complete]
        rfl
      · have pending := (notClosed definition isDefinition rfl).resolve_left bare
        have awaits : scope.Awaits definition.name.toList rest ↔ rest.head? = some '(' :=
          ⟨fun awaits => awaits.2.1,
            fun opening => ⟨⟨definition, isDefinition, rfl, bare⟩, opening, pending⟩⟩
        rw [awaits]
        exact (expandOnce_pending isRun apart isDefinition bare pending).2

/-- A pass notes every open argument list that it looks at. The induction is on how the pass came to
look at that place. -/
theorem unclosed_of_looksAt (looksAt : scope.LooksAt text (run ++ after)) (isRun : IsRun run)
    (apart : Apart after) (awaits : scope.Awaits run after) :
    (scope.expandOnce text).unclosed = true := by
  generalize place : run ++ after = rest at looksAt
  induction looksAt with
  | start =>
      subst place
      exact (unclosed_run_iff isRun apart fun _ _ _ => .inr awaits.2.2).mpr (.inl awaits)
  | character other _ ih =>
      rw [expandOnce_other other]
      exact ih place
  | name isRun apart notClosed _ ih =>
      exact (unclosed_run_iff isRun apart notClosed).mpr (.inr (ih place))
  | invocation isDefinition takes isRun matched _ ih =>
      rcases exists_expandOnce_closed isRun isDefinition takes matched with ⟨_, pass⟩
      rw [pass]
      exact ih place

/-- Every argument list that a text leaves open behind the name of a macro is looked at. What is
opened within a list that the pass goes over is closed there, so an open one does not stand in such
a list. -/
theorem looksAt_of_awaits (text : List Char) :
    Everywhere (fun run after => scope.Awaits run after → scope.LooksAt text (run ++ after))
      text := by
  induction text using scope.pass_induction with
  | nil => exact everywhere_nil
  | other character rest other ih =>
      rw [everywhere_other other]
      intro before run after shape whole awaits
      exact .character other (ih before run after shape whole awaits)
  | name run rest isRun apart notClosed ih =>
      rw [everywhere_run isRun apart]
      refine ⟨fun _ => .start, ?_⟩
      intro before other after shape whole awaits
      exact .name isRun apart notClosed (ih before other after shape whole awaits)
  | invocation definition inner rest isDefinition takes isRun matched ih =>
      have apart : Apart ('(' :: inner ++ ')' :: rest) := apart_cons (by decide)
      rw [everywhere_run isRun apart]
      refine ⟨fun awaits => absurd ⟨inner, rest, matched, rfl⟩ awaits.2.2, ?_⟩
      rw [List.cons_append, everywhere_other (by decide), everywhere_append_cons (by decide)]
      constructor
      · rintro before other after rfl _ ⟨_, opening, notClosed⟩
        cases after with
        | nil => simp at opening
        | cons character after =>
            obtain rfl : character = '(' := by simpa using opening
            exact absurd ((closes_of_matched matched rfl).append _) notClosed
      · intro before other after shape whole awaits
        have further := ih before other after shape whole awaits
        exact .invocation isDefinition takes isRun matched further

/-- A pass that meets no open list notes none. All lists that it could meet stand somewhere in the
text. -/
theorem unclosed_eq_false (none : Everywhere (fun run after => ¬scope.Awaits run after) text) :
    (scope.expandOnce text).unclosed = false := by
  induction text using scope.pass_induction with
  | nil =>
      rw [expandOnce_nil]
      rfl
  | other character rest other ih =>
      rw [expandOnce_other other]
      exact ih ((everywhere_other other).mp none)
  | name run rest isRun apart notClosed ih =>
      rcases (everywhere_run isRun apart).mp none with ⟨here, behind⟩
      have closed := ih behind
      rw [Bool.eq_false_iff, ne_eq, unclosed_run_iff isRun apart notClosed, closed]
      simpa using here
  | invocation definition inner rest isDefinition takes isRun matched ih =>
      have apart : Apart ('(' :: inner ++ ')' :: rest) := apart_cons (by decide)
      have behind := ((everywhere_run isRun apart).mp none).2
      rw [List.cons_append, everywhere_other (by decide), everywhere_append_cons (by decide)]
        at behind
      rcases exists_expandOnce_closed isRun isDefinition takes matched with ⟨_, pass⟩
      rw [pass]
      exact ih behind.2

/-! ### Passes until the text rests -/

/-- The last pass has replaced nothing, so nothing is left to expand in the text that it went
over. -/
theorem isNormal_of_settle {passes : Nat} {last : String} {result : List Char}
    (settles : scope.settle passes last text = .ok result) : scope.IsNormal result := by
  induction passes generalizing last text with
  | zero => contradiction
  | succ passes ih =>
      rw [settle] at settles
      cases expanded : (scope.expandOnce text).expanded with
      | none =>
          simp only [expanded, Except.ok.injEq] at settles
          rw [← settles]
          exact expanded_eq_none_iff.mp expanded
      | some name =>
          simp only [expanded] at settles
          exact ih settles

theorem expandAvailable_of_isNormal (normal : scope.IsNormal text) :
    scope.expandAvailable text = .ok text := by
  simp [expandAvailable, expansionLimit, settle, expanded_eq_none_iff.mpr normal]

theorem isNormal_of_expandAvailable {result : List Char}
    (expands : scope.expandAvailable text = .ok result) : scope.IsNormal result :=
  isNormal_of_settle expands

/-- A line has to wait just when its first pass has noted an open list, since only the first pass is
asked. -/
theorem expandLine_eq_incomplete_iff :
    scope.expandLine text = .ok .incomplete ↔ (scope.expandOnce text).unclosed = true := by
  unfold expandLine
  cases (scope.expandOnce text).unclosed with
  | true => simp
  | false => cases scope.expandAvailable text <;> simp [Except.map]

theorem expandLine_eq_map (complete : scope.expandLine text ≠ .ok .incomplete) :
    scope.expandLine text = (scope.expandAvailable text).map .complete := by
  have closed := mt expandLine_eq_incomplete_iff.mpr complete
  rw [expandLine, if_neg closed]

/-- What the expansion of a line leaves, and when the line has to wait for the next one. -/
structure ExpandsToNormal (scope : MacroScope) (line : List Char) : Prop where
  /-- Nothing is left to expand in a result, so that it expands to itself. -/
  normal : ∀ text,
    scope.expandLine line = .ok (.complete text) ∨ scope.expandAvailable line = .ok text →
      scope.IsNormal text ∧ scope.expandAvailable text = .ok text
  kept : scope.IsNormal line → scope.expandAvailable line = .ok line
  waits : scope.expandLine line = .ok .incomplete ↔
    ∃ before run after, line = before ++ run ++ after ∧ Whole before run after ∧
      scope.LooksAt line (run ++ after) ∧ scope.Awaits run after
  /-- There is no open argument list that the first pass does not look at. -/
  overlooksNone : ∀ before run after, line = before ++ run ++ after → Whole before run after →
    scope.Awaits run after → scope.LooksAt line (run ++ after)
  agree : scope.expandLine line ≠ .ok .incomplete →
    scope.expandLine line = (scope.expandAvailable line).map .complete

/-- Whatever the macros and the line are, expansion ends with a text in which nothing is left to
expand, and a line has to wait exactly if an argument list stays open in it. -/
theorem expandsToNormal (scope : MacroScope) (line : List Char) : scope.ExpandsToNormal line := by
  constructor
  · intro text expands
    have normal : scope.IsNormal text := by
      rcases expands with complete | available
      · rw [expandLine_eq_map (by simp [complete])] at complete
        cases available : scope.expandAvailable line with
        | error cause => simp [available, Except.map] at complete
        | ok other =>
            obtain rfl : other = text := by simpa [available, Except.map] using complete
            exact isNormal_of_expandAvailable available
      · exact isNormal_of_expandAvailable available
    exact ⟨normal, expandAvailable_of_isNormal normal⟩
  · exact expandAvailable_of_isNormal
  · rw [expandLine_eq_incomplete_iff]
    constructor
    · intro unclosed
      by_contra none
      rw [unclosed_eq_false] at unclosed
      · contradiction
      · intro before run after shape whole awaits
        exact none ⟨before, run, after, shape, whole,
          looksAt_of_awaits line before run after shape whole awaits, awaits⟩
    · rintro ⟨before, run, after, _, whole, looksAt, awaits⟩
      exact unclosed_of_looksAt looksAt whole.isRun whole.apart awaits
  · exact looksAt_of_awaits line
  · exact expandLine_eq_map

end TadsReference.MacroScope
