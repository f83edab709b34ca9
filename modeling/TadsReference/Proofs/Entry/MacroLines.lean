import TadsReference.Proofs.Entry.InStep
import TadsReference.Proofs.Entry.Kinds
import TadsReference.Proofs.Entry.Survival
import TadsReference.Proofs.Macro.NormalForms
import TadsReference.Proofs.Text.Tokens

/-!
# Lines that define macros

In a header, a line `#define NAME …` is read on as the definition of a macro. If the definition is
complete, it is recorded under the name that is written there, and the name stands for it in the
lines that follow, whatever it stood for before: `recordsMacro_of_writesMacro`.
-/

namespace TadsReference

open Identifier Macro

/-! ### Lines as they are written -/

/-- Blanks within a line. -/
def Text.IsGap (gap : List Char) : Prop :=
  ∀ character ∈ gap, isBlank character = true ∧ character ≠ '\n'

/-- What stands in a line before the name of the macro that the line defines. -/
inductive IsDirective : List Char → Prop
  | intro {margin gap between : List Char} (isMargin : Text.IsGap margin) (isGap : Text.IsGap gap)
      (isBetween : Text.IsGap between) (nonempty : between ≠ []) :
      IsDirective (margin ++ '#' :: (gap ++ ("define".toList ++ between)))

/-- A line is written as the definition of a macro. Behind the name stand the parameters and the
body. -/
structure WritesMacro (name : String) (tail text : List Char) : Prop where
  isRun : IsRun name.toList
  apart : Apart tail
  shape : ∃ directive, IsDirective directive ∧ text = directive ++ (name.toList ++ tail)

variable {name : String} {tail text directive run left right : List Char}

theorem Text.IsGap.isOther {gap : List Char} (isGap : Text.IsGap gap) :
    ∀ character ∈ gap, isIdentifierCharacter character = false :=
  fun character isBlank => Text.isIdentifierCharacter_of_isBlank (isGap character isBlank).1

theorem Text.IsGap.isBlank {gap : List Char} (isGap : Text.IsGap gap) :
    ∀ character ∈ gap, Text.isBlank character = true :=
  fun character isBlank => (isGap character isBlank).1

/-- The name is apart from the directive. -/
theorem IsDirective.apart_between {between rest : List Char} (isBetween : Text.IsGap between)
    (nonempty : between ≠ []) : Apart (between ++ rest) := by
  cases between with
  | nil => contradiction
  | cons character between => exact apart_cons (isBetween.isOther character List.mem_cons_self)

theorem Identifier.Apart.of_prefix (apart : Apart right) (isPrefix : left <+: right) :
    Apart left := by
  obtain ⟨rest, rfl⟩ := isPrefix
  intro character isHead
  apply apart
  cases left with
  | nil => contradiction
  | cons first others => exact isHead

namespace LineShape

theorem ofFirst_hash (isHeader : Bool) (indent : Nat) (transient : Bool) (rest : List Char) :
    ofFirst isHeader indent transient "#" rest =
      if isHeader && (Token.next rest).1 == "define" then
        ⟨false, .macroDefinition (Token.next rest).2⟩
      else ofName isHeader indent transient (Token.next rest).1 (Token.next rest).2 :=
  rfl

end LineShape

namespace WritesMacro

/-- A line whose end is cut off still writes the definition. -/
theorem dropEndWhile {drops : Char → Bool} (written : WritesMacro name tail text)
    (stays : ∀ character, isIdentifierCharacter character = true → drops character = false) :
    WritesMacro name (Text.dropEndWhile drops tail) (Text.dropEndWhile drops text) := by
  obtain ⟨directive, isDirective, rfl⟩ := written.shape
  obtain ⟨dropped, divided, _⟩ := Text.exists_dropEndWhile_append drops tail
  exact ⟨written.isRun, written.apart.of_prefix ⟨dropped, divided.symm⟩, directive, isDirective,
    Text.dropEndWhile_run written.isRun stays⟩

/-- The indentation of a line lies before the directive. -/
theorem dropMargin (written : WritesMacro name tail text) :
    WritesMacro name tail (text.dropWhile (· == ' ')) := by
  obtain ⟨_, @⟨margin, gap, between, isMargin, isGap, isBetween, nonempty⟩, rfl⟩ := written.shape
  refine ⟨written.isRun, written.apart, _,
    @IsDirective.intro (margin.dropWhile (· == ' ')) gap between ?_ isGap isBetween nonempty, ?_⟩
  · exact fun character isLeft => isMargin character ((List.dropWhile_sublist _).subset isLeft)
  · rw [List.append_assoc, List.dropWhile_append]
    split
    · next all => simp [List.isEmpty_iff.mp all]
    · simp

/-- What the line is recognised by writes the definition as well. -/
theorem body {line : SourceLine} (written : WritesMacro name tail line.shown) :
    WritesMacro name (Text.trimEnd tail) line.body :=
  (written.dropEndWhile fun _ => Text.isBlank_of_isIdentifierCharacter).dropMargin

theorem ne_nil (written : WritesMacro name tail text) : text ≠ [] := by
  obtain ⟨directive, _, rfl⟩ := written.shape
  simp [written.isRun.nonempty]

/-- In a header, the line has the form of a definition. -/
theorem form (written : WritesMacro name tail text) (indent : Nat) :
    ∃ rest, LineShape.ofLine true indent text = ⟨false, .macroDefinition rest⟩ ∧
      Token.next? rest = some (name, tail) := by
  obtain ⟨_, @⟨margin, gap, between, isMargin, isGap, isBetween, nonempty⟩, rfl⟩ := written.shape
  let behind := gap ++ ("define".toList ++ (between ++ (name.toList ++ tail)))
  have single : behind.head? ≠ some '#' := by
    intro isHash
    cases gap with
    | nil => simp [behind] at isHash
    | cons first gap =>
        obtain rfl : first = '#' := Option.some.inj isHash
        exact absurd (isGap.isBlank '#' List.mem_cons_self) (by decide)
  have hash : Token.next? (margin ++ '#' :: (gap ++ ("define".toList ++ between)) ++
      (name.toList ++ tail)) = some ("#", behind) := by
    have whole : margin ++ '#' :: (gap ++ ("define".toList ++ between)) ++ (name.toList ++ tail) =
        margin ++ '#' :: behind := by
      simp [behind]
    rw [whole, Token.next?_append isMargin.isBlank, Token.next?_hash single]
  have directive : Token.next? behind = some ("define", between ++ (name.toList ++ tail)) := by
    rw [Token.next?_append isGap.isBlank,
      Token.next?_word (by decide) (IsDirective.apart_between isBetween nonempty)]
    rfl
  refine ⟨between ++ (name.toList ++ tail), ?_, ?_⟩
  · rw [LineShape.ofLine_of_next? true indent hash (by decide), LineShape.ofFirst_hash, Token.next,
      directive]
    rfl
  · rw [Token.next?_append isBetween.isBlank, Token.next?_word written.isRun written.apart,
      String.ofList_toList]

end WritesMacro

/-- A header's line that writes a definition is read on as one. -/
theorem LineOutcome.ofLine_of_writesMacro {line : SourceLine}
    (written : WritesMacro name tail line.shown) (languageSeen : Bool) (context : Context)
    (reader : Reader) :
    ofLine true languageSeen context line reader =
      match MacroBody.read (Text.trimEnd tail) reader >>=
          Recognised.finishMacro context line.number name with
      | .ok found => ⟨found.entry.toList, languageSeen, .ok (found.context, found.reader)⟩
      | .error cause => ⟨[], languageSeen, .error cause⟩ := by
  obtain ⟨rest, form, first⟩ := written.body.form line.indent
  rw [ofLine_of_filled written.body.ne_nil true languageSeen context nofun]
  cases outcome : MacroBody.read (Text.trimEnd tail) reader >>=
    Recognised.finishMacro context line.number name <;>
    simp only [ofBody, form, Bool.false_eq_true, if_false, LineForm.declaresLanguage,
      Bool.false_and, Bool.or_false, Context.recognise, Recognised.definedMacro_eq_bind, first,
      outcome]

/-! ### The macros of a reader -/

namespace Reader

variable {reader behind later : Reader} {raw : RawLine} {following : LineSource} {line : SourceLine}

/-- Handing out a line defines no macro. -/
theorem macros_of_nextLine {outcome : Except Failure (Option SourceLine)}
    (next : reader.nextLine = (outcome, behind)) : behind.macros = reader.macros := by
  unfold nextLine at next
  split at next
  · cases next
    rfl
  · split at next
    · cases next
      rfl
    · split at next
      all_goals
        cases next
        rfl

theorem macros_of_requireLine {outcome : Except Failure (List Char)}
    (read : reader.requireLine = (outcome, behind)) : behind.macros = reader.macros := by
  unfold requireLine at read
  split at read
  all_goals
    next found =>
      cases read
      exact macros_of_nextLine found

/-- Reading lines defines no macro. -/
theorem macros_gather {macros : Option MacroScope} {State Value : Type}
    (same : reader.macros = macros) (step : State → List Char → Progress State Value)
    (progress : Progress State Value) :
    Ends (·.macros = macros) (fun _ => True) Prod.snd (reader.gather step progress) := by
  fun_induction gather step progress reader with
  | case1 => exact same
  | case2 => trivial
  | case3 reader state line behind read ih => exact ih ((macros_of_requireLine read).trans same)

end Reader

/-- Whether the body of a macro is complete or fails, the reader has the macros it had before. -/
theorem MacroBody.macros_read (rest : List Char) (reader : Reader) :
    Ends (·.macros = reader.macros) (fun _ => True) Prod.snd (read rest reader) := by
  unfold read
  split
  · apply (Reader.macros_gather rfl _ _).bind
    rintro ⟨list, later⟩ same
    cases list with
    | none => exact same
    | some found =>
        apply (Reader.macros_gather same _ _).bind
        exact fun _ last => last
  · apply (Reader.macros_gather rfl _ _).bind
    exact fun _ same => same

/-- A line defines no macro but one that it records. The forms that record none leave the macros of
the reader alone, and the form of a definition adds what it records. -/
theorem Recogniser.macros_of_ok {run : Reader → Except Failure Recognised} {reader : Reader}
    {found : Recognised} (recogniser : Recogniser run) (recognised : run reader = .ok found) :
    found.reader.macros = reader.macros ∨
      ∃ definition ∈ found.entry.bind Entry.macroDefinition?,
        found.reader.macros = reader.macros.map (·.define definition) := by
  cases recogniser with
  | ofLine outcome =>
      cases recognised
      exact .inl rfl
  | gathered step progress finish =>
      unfold Recognised.gathered at recognised
      split at recognised
      · next gathered =>
          cases recognised
          exact .inl ((Reader.macros_gather rfl step progress).of_ok gathered)
      · contradiction
  | definedMacro context line rest =>
      unfold Recognised.definedMacro at recognised
      split at recognised
      · cases recognised
        exact .inl rfl
      · split at recognised
        · next parameters body later read =>
            have same : later.macros = reader.macros := (MacroBody.macros_read _ reader).of_ok read
            cases recognised
            exact .inr ⟨_, rfl, congrArg (Option.map _) same⟩
        · next read =>
            cases recognised
            exact .inl ((MacroBody.macros_read _ reader).of_ok read)
        · contradiction

/-! ### Definitions that are recorded -/

variable {scope : MacroScope} {definition : MacroDefinition}

namespace MacroScope

/-- A macro's name stands for a definition: a pass puts its body or its expansion in the place of
the name. -/
structure ExpandsBy (scope : MacroScope) (definition : MacroDefinition) : Prop where
  bare : definition.parameters = [] → ∀ rest, Apart rest →
    scope.expandOnce (definition.name.toList ++ rest) =
      (scope.expandOnce rest).insertExpansion definition.name definition.body.toList
  invoked : definition.parameters ≠ [] → ∀ rest arguments remaining,
    Invocation.read rest = .closed arguments remaining →
      scope.expandOnce (definition.name.toList ++ rest) =
        (scope.expandOnce remaining).insertExpansion definition.name
          (definition.expand arguments)

/-- A macro that has just been defined comes before all others of its name, so a pass finds it
first. -/
theorem expandsBy_define (isRun : IsRun definition.name.toList) :
    (scope.define definition).ExpandsBy definition := by
  have isDefinition : definition ∈ (scope.define definition).definitions := List.mem_cons_self
  constructor
  · exact fun bare rest apart => expandOnce_bare isRun apart isDefinition bare
  · intro takes rest arguments remaining closed
    have apart : Apart rest := by
      intro character isHead
      by_contra isIdentifier
      have absent : rest.head? ≠ some '(' := by
        rw [isHead]
        rintro ⟨⟩
        exact isIdentifier rfl
      rw [read_eq_absent_iff.mpr absent] at closed
      contradiction
    rw [expandOnce_known isRun apart (lookup?_eq_some_iff.mpr ⟨isDefinition, rfl⟩), closed]
    simp [takes]

end MacroScope

/-- What a line leaves behind that shows the definition of a macro. -/
structure RecordsMacro (scope : MacroScope) (context : Context) (line : SourceLine)
    (reader : Reader) (name : String) (tail : List Char) : Prop where
  /-- A complete definition is the entry of the line, and the name stands for it from then on. -/
  complete : ∀ parameters body later,
    MacroBody.read (Text.trimEnd tail) reader = .ok (some (parameters, body), later) →
      (∀ languageSeen, LineOutcome.ofLine true languageSeen context line reader =
        ⟨[.declaration name context.comment line.number (.macroDefinition parameters body)],
          languageSeen,
          .ok ({ context with comment := "" }, later.define ⟨name, parameters, body⟩)⟩) ∧
      (later.define ⟨name, parameters, body⟩).macros =
        some (scope.define ⟨name, parameters, body⟩) ∧
      (scope.define ⟨name, parameters, body⟩).ExpandsBy ⟨name, parameters, body⟩
  /-- A definition is broken off by a blank line among the parameters, or by the end of the file. -/
  brokenOff : (∀ found later, MacroBody.read (Text.trimEnd tail) reader ≠ .ok (some found, later)) →
    ∀ languageSeen, (LineOutcome.ofLine true languageSeen context line reader).entries = []
  /-- Without parameters, a definition that ends with the line is complete. -/
  ends : tail.head? ≠ some '(' → (Text.trim (Text.trimEnd tail)).getLast? ≠ some '\\' →
    ∃ body, MacroBody.read (Text.trimEnd tail) reader = .ok (some ([], body), reader)
  /-- With parameters, too, if their list ends with the line. -/
  endsBehindList : ∀ arguments parameters remaining, Text.trimEnd tail = '(' :: arguments →
    ParameterList.scan [] arguments = .complete (some (parameters, remaining)) →
    (Text.trim remaining).getLast? ≠ some '\\' →
      ∃ body, MacroBody.read (Text.trimEnd tail) reader = .ok (some (parameters, body), reader)

namespace MacroBody

variable {reader : Reader} {body : String}

theorem exists_complete (ends : (Text.trim tail).getLast? ≠ some '\\') :
    ∃ body, continueOn [] tail = .complete body := by
  simp [continueOn, ends]

theorem read_of_complete (noList : tail.head? ≠ some '(')
    (complete : continueOn [] tail = .complete body) :
    read tail reader = .ok (some ([], body), reader) := by
  unfold read
  split
  · contradiction
  · rw [complete, Reader.gather]
    rfl

theorem read_of_list {parameters : List String} {remaining : List Char}
    (list : ParameterList.scan [] tail = .complete (some (parameters, remaining)))
    (complete : continueOn [] remaining = .complete body) :
    read ('(' :: tail) reader = .ok (some (parameters, body), reader) := by
  simp only [read, ParameterList.read, list, Reader.gather, complete, bind, Except.bind, pure,
    Except.pure]

end MacroBody

/-- A header's line that writes a definition leaves it behind, recorded and visible, if the
definition is complete. Nothing is left behind but the lines that were read for it if it is not. -/
theorem recordsMacro_of_writesMacro {line : SourceLine} {context : Context} {reader : Reader}
    (written : WritesMacro name tail line.shown) (macros : reader.macros = some scope) :
    RecordsMacro scope context line reader name tail where
  complete parameters body later read := by
    have same : later.macros = reader.macros := (MacroBody.macros_read _ reader).of_ok read
    refine ⟨?_, ?_, MacroScope.expandsBy_define written.isRun⟩
    · intro languageSeen
      rw [LineOutcome.ofLine_of_writesMacro written, read]
      rfl
    · rw [Reader.define, same, macros]
      rfl
  brokenOff broken languageSeen := by
    rw [LineOutcome.ofLine_of_writesMacro written]
    cases read : MacroBody.read (Text.trimEnd tail) reader with
    | error cause => rfl
    | ok result =>
        rcases result with ⟨_ | found, later⟩
        · rfl
        · exact absurd read (broken found later)
  ends noList lastLine := by
    obtain ⟨body, complete⟩ := MacroBody.exists_complete lastLine
    refine ⟨body, MacroBody.read_of_complete ?_ complete⟩
    obtain ⟨blanks, divided⟩ := Text.trimEnd_prefix tail
    intro opens
    apply noList
    rw [← divided, List.head?_append, opens]
    rfl
  endsBehindList arguments parameters remaining opens list lastLine := by
    obtain ⟨body, complete⟩ := MacroBody.exists_complete lastLine
    rw [opens]
    exact ⟨body, MacroBody.read_of_list list complete⟩

end TadsReference
