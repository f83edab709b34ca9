import TadsReference.Proofs.Entry.CutShort

/-!
# Readers in step

Classification sees nothing of a reader but the lines that it hands out and the place that it has
reached. Two readers that hand out the same lines at the same places therefore lead to the same
outcome, until a line defines a macro: `alike_ofLine`.
-/

namespace TadsReference

/-- Whether two results are the same, but for the readers behind them. How these are related may
depend on the value. `build` puts a value and the reader behind it together. -/
inductive Alike {Value Outcome : Type} (build : Value → Reader → Outcome)
    (related : Value → Reader → Reader → Prop) :
    Except Failure Outcome → Except Failure Outcome → Prop
  | ok {left right : Reader} (value : Value) (together : related value left right) :
      Alike build related (.ok (build value left)) (.ok (build value right))
  | error (cause : Failure) : Alike build related (.error cause) (.error cause)

theorem Alike.bind {First Value Outcome : Type} {build : Value → Reader → Outcome}
    {related : Reader → Reader → Prop} {relatedNext : Value → Reader → Reader → Prop}
    {left right : Except Failure (First × Reader)} {next : First × Reader → Except Failure Outcome}
    (alike : Alike Prod.mk (fun _ => related) left right)
    (follows : ∀ value left right, related left right →
      Alike build relatedNext (next (value, left)) (next (value, right))) :
    Alike build relatedNext (left >>= next) (right >>= next) := by
  cases alike with
  | ok value together => exact follows value _ _ together
  | error cause => exact .error cause

theorem Alike.mono {Value Outcome : Type} {build : Value → Reader → Outcome}
    {related wider : Value → Reader → Reader → Prop} {left right : Except Failure Outcome}
    (alike : Alike build related left right)
    (widens : ∀ value {left right : Reader}, related value left right → wider value left right) :
    Alike build wider left right := by
  cases alike with
  | ok value together => exact .ok value (widens value together)
  | error cause => exact .error cause

theorem Alike.of_error {Value Outcome : Type} {build : Value → Reader → Outcome}
    {related : Value → Reader → Reader → Prop} {left right : Except Failure Outcome}
    {cause : Failure}
    (alike : Alike build related left right) (failed : right = .error cause) :
    left = .error cause := by
  cases alike with
  | ok => contradiction
  | error => exact failed

/-- The macro that an entry defines. -/
def Entry.macroDefinition? : Entry → Option MacroDefinition
  | .declaration name _ _ (.macroDefinition parameters body) => some ⟨name, parameters, body⟩
  | _ => none

namespace Reader

/-- A relation that two readers keep as they hand out the same lines. -/
structure InStep (related : Reader → Reader → Prop) : Prop where
  place : ∀ left right, related left right → left.file = right.file ∧ left.number = right.number
  nextLine : ∀ left right, related left right → ∃ line leftBehind rightBehind,
    left.nextLine = (.ok line, leftBehind) ∧ right.nextLine = (.ok line, rightBehind) ∧
      related leftBehind rightBehind

/-- How readers are related behind a line with some entries. A macro that the line defines has
become visible to both. -/
inductive RelatedBehind (related : Reader → Reader → Prop) (entries : List Entry) :
    Reader → Reader → Prop
  | still {left right : Reader} (together : related left right) :
      RelatedBehind related entries left right
  | defined {left right : Reader} {definition : MacroDefinition} (together : related left right)
      (isDefined : definition ∈ entries.filterMap Entry.macroDefinition?) :
      RelatedBehind related entries (left.define definition) (right.define definition)

variable {related : Reader → Reader → Prop} {left right : Reader}

theorem RelatedBehind.mono {entries more : List Entry} (subset : entries ⊆ more)
    (behind : RelatedBehind related entries left right) :
    RelatedBehind related more left right := by
  cases behind with
  | still together => exact .still together
  | defined together isDefined =>
      rcases List.mem_filterMap.mp isDefined with ⟨entry, isEntry, defines⟩
      exact .defined together (List.mem_filterMap.mpr ⟨entry, subset isEntry, defines⟩)

/-- Both readers hand out the same line where one is required, or both fail for the same reason. -/
theorem InStep.requireLine (inStep : InStep related) (together : related left right) :
    (∃ text leftBehind rightBehind, left.requireLine = (.ok text, leftBehind) ∧
      right.requireLine = (.ok text, rightBehind) ∧ related leftBehind rightBehind) ∨
    ∃ cause leftBehind rightBehind, left.requireLine = (.error cause, leftBehind) ∧
      right.requireLine = (.error cause, rightBehind) := by
  rcases inStep.nextLine left right together with
    ⟨line, leftBehind, rightBehind, isLeft, isRight, behind⟩
  simp only [Reader.requireLine, isLeft, isRight]
  cases line with
  | some line => exact .inl ⟨line.text, leftBehind, rightBehind, rfl, rfl, behind⟩
  | none =>
      rcases inStep.place _ _ behind with ⟨file, number⟩
      exact .inr ⟨_, leftBehind, rightBehind, rfl, by rw [file, number]⟩

/-- A construct that is gathered from both readers is the same. The induction is on what is left to
the one reader, and the other one follows line by line. -/
theorem InStep.alike_gather {State Value : Type} {step : State → List Char → Progress State Value}
    {progress : Progress State Value} (inStep : InStep related) (together : related left right) :
    Alike Prod.mk (fun _ => related) (left.gather step progress) (right.gather step progress) := by
  fun_induction gather step progress left generalizing right with
  | case1 left value =>
      rw [gather]
      exact .ok value together
  | case2 left state cause behind read =>
      rcases inStep.requireLine together with
        ⟨_, _, _, isLeft, _⟩ | ⟨cause, _, rightBehind, isLeft, isRight⟩
      · simp [isLeft] at read
      · rw [isLeft] at read
        cases read
        rw [gather_of_end isRight]
        exact .error cause
  | case3 left state text behind read ih =>
      rcases inStep.requireLine together with
        ⟨text, _, rightBehind, isLeft, isRight, related⟩ | ⟨_, _, _, isLeft, _⟩
      · rw [isLeft] at read
        cases read
        rw [gather_of_requireLine isRight]
        exact ih related
      · simp [isLeft] at read

end Reader

/-! ### Plain readers -/

/-- The line that a plain reader hands out for a raw line. -/
def RawLine.plain (raw : RawLine) : SourceLine where
  number := raw.number
  text := Text.dropEndWhile (· == '\r') raw.text
  mirror := raw.mirror

namespace Reader

/-- A plain reader to which only raw lines of one kind are left. -/
structure Foresees (expected : RawLine → Prop) (reader : Reader) : Prop where
  plain : reader.Plain
  lines : ∀ raw ∈ reader.source.ahead, expected raw

variable {expected : RawLine → Prop} {reader : Reader}

theorem foresees_ofContent {file : String} {content : List UInt8} {mirror : Option (List UInt8)}
    (lines : ∀ raw ∈ RawLine.ofContent content mirror, expected raw) :
    (ofContent file content mirror none).Foresees expected :=
  ⟨plain_ofContent file content mirror, lines⟩

theorem Foresees.of_relatedBehind {entries : List Entry} {other : Reader}
    (behind : RelatedBehind (fun left right => left = right ∧ right.Foresees expected) entries other
      reader) : reader.Foresees expected := by
  cases behind with
  | still together => exact together.2
  | defined together _ =>
      rw [define_of_plain together.2.plain]
      exact together.2

/-- A plain reader hands out the next raw line, if there is one. -/
theorem Foresees.nextLine (foresees : reader.Foresees expected) :
    (reader.source.read? = none ∧ reader.nextLine = (.ok none, reader)) ∨
    ∃ raw following, reader.source.read? = some (raw, following) ∧ expected raw ∧
      Foresees expected { reader with source := following } ∧
        reader.nextLine = (.ok (some raw.plain), { reader with source := following }) := by
  cases read : reader.source.read? with
  | none =>
      refine .inl ⟨rfl, ?_⟩
      rw [nextLine_of_plain foresees.plain, read]
  | some found =>
      rcases found with ⟨raw, following⟩
      have lines := foresees.lines
      rw [LineSource.ahead_of_read? read, List.forall_mem_cons] at lines
      have source := (foresees.plain.source.of_read? read).1
      refine .inr ⟨raw, following, rfl, lines.1,
        ⟨⟨foresees.plain.macros, foresees.plain.pending, source⟩, lines.2⟩, ?_⟩
      simp only [nextLine_of_plain foresees.plain, read, LineSource.number_of_read? read]
      rfl

theorem Foresees.of_nextLine (foresees : reader.Foresees expected) {line : SourceLine}
    {behind : Reader} (read : reader.nextLine = (.ok (some line), behind)) :
    ∃ raw : RawLine, line = raw.plain ∧ expected raw ∧ behind.Foresees expected := by
  rcases foresees.nextLine with ⟨_, ended⟩ | ⟨raw, following, _, isExpected, foreseesBehind, next⟩
  · rw [ended] at read
    cases read
  · rw [next] at read
    cases read
    exact ⟨raw, rfl, isExpected, foreseesBehind⟩

/-- A plain reader is in step with itself, and keeps to the lines that are left to it. -/
theorem inStep_foresees (expected : RawLine → Prop) :
    InStep fun left right => left = right ∧ right.Foresees expected where
  place := by
    rintro _ _ ⟨rfl, _⟩
    exact ⟨rfl, rfl⟩
  nextLine := by
    rintro reader _ ⟨rfl, foresees⟩
    rcases foresees.nextLine with ⟨_, ended⟩ | ⟨raw, following, _, _, behind, next⟩
    · exact ⟨none, reader, reader, ended, ended, rfl, foresees⟩
    · exact ⟨_, _, _, next, next, rfl, behind⟩

end Reader

/-! ### Lines -/

open Reader (InStep RelatedBehind)

variable {related : Reader → Reader → Prop} {left right : Reader}

namespace Recognised

theorem alike_ofLine (outcome : Option Entry × Context) (together : related left right) :
    Alike ofParts (fun outcome => RelatedBehind related outcome.1.toList) (ofLine outcome left)
      (ofLine outcome right) :=
  .ok outcome (.still together)

theorem alike_gathered {State Value : Type} {step : State → List Char → Progress State Value}
    {progress : Progress State Value} {finish : Value → Option Entry × Context}
    (inStep : InStep related) (together : related left right) :
    Alike ofParts (fun outcome => RelatedBehind related outcome.1.toList)
      (gathered step progress finish left) (gathered step progress finish right) := by
  rw [gathered_eq_bind, gathered_eq_bind]
  apply Alike.bind (inStep.alike_gather together)
  exact fun value _ _ together => alike_ofLine (finish value) together

end Recognised

/-- The body of a macro is read line by line from both readers. -/
theorem MacroBody.alike_read (inStep : InStep related) (rest : List Char)
    (together : related left right) :
    Alike Prod.mk (fun _ => related) (read rest left) (read rest right) := by
  unfold read
  split
  · next arguments =>
      apply Alike.bind (inStep.alike_gather together)
      intro list left right together
      cases list with
      | none => exact .ok none together
      | some found =>
          apply Alike.bind (inStep.alike_gather together)
          exact fun body _ _ together => .ok (some (found.1, body)) together
  · apply Alike.bind (inStep.alike_gather together)
    exact fun body _ _ together => .ok (some ([], body)) together

namespace Recognised

/-- A definition becomes visible to both readers, which may end their being in step. -/
theorem alike_definedMacro (inStep : InStep related) (context : Context) (line : Nat)
    (rest : List Char) (together : related left right) :
    Alike ofParts (fun outcome => RelatedBehind related outcome.1.toList)
      (definedMacro context line rest left) (definedMacro context line rest right) := by
  rw [definedMacro_eq_bind, definedMacro_eq_bind]
  split
  · exact alike_ofLine _ together
  · next name rest _ =>
      apply Alike.bind (MacroBody.alike_read inStep rest together)
      rintro (_ | ⟨parameters, body⟩) left right together
      · exact alike_ofLine _ together
      · apply Alike.ok (context.record line (some (name, .macroDefinition parameters body)))
        apply RelatedBehind.defined together
        simp [Context.record, Entry.macroDefinition?]

end Recognised

/-- Every way to recognise a line has the same outcome with both readers, because each of them
gathers lines or reads none. -/
theorem Recogniser.alike {run : Reader → Except Failure Recognised} (recogniser : Recogniser run)
    (inStep : InStep related) (together : related left right) :
    Alike Recognised.ofParts (fun outcome => RelatedBehind related outcome.1.toList) (run left)
      (run right) := by
  cases recogniser with
  | ofLine outcome => exact Recognised.alike_ofLine outcome together
  | gathered step progress finish => exact Recognised.alike_gathered inStep together
  | definedMacro context line rest =>
      exact Recognised.alike_definedMacro inStep context line rest together

/-- A message is read in the same way from both readers. -/
theorem MessageCall.alike_read (inStep : InStep related) (line : List Char) (number : Nat)
    (together : related left right) :
    Alike Prod.mk (fun _ => related) (read line number left) (read line number right) := by
  rw [read_eq_bind, read_eq_bind]
  split
  · exact .ok none together
  · next kind rest _ =>
      split
      · exact .ok none together
      · exact .ok none together
      · next tokens rest _ _ =>
          apply Alike.bind (inStep.alike_gather together)
          exact fun text _ _ together => .ok (some (message kind tokens number text)) together

namespace LineOutcome

/-- Whether two lines have the same outcome, but for the readers behind them. -/
structure AlikeAfter (related : Reader → Reader → Prop) (left right : LineOutcome) : Prop where
  entries : left.entries = right.entries
  languageSeen : left.languageSeen = right.languageSeen
  after : Alike Prod.mk (fun _ => RelatedBehind related right.entries) left.after right.after

/-- The form of a line does not depend on the reader, and what it amounts to depends only on the
lines that are read for it. -/
theorem alike_ofBody (inStep : InStep related) (isHeader languageSeen : Bool) (context : Context)
    (indent : Nat) (body : List Char) (line : SourceLine) (together : related left right) :
    AlikeAfter related (ofBody isHeader languageSeen context indent body line left)
      (ofBody isHeader languageSeen context indent body line right) := by
  simp only [ofBody]
  split
  · exact ⟨rfl, rfl, .ok _ (RelatedBehind.still together)⟩
  · have recognises := (Context.recogniser_recognise
      (if (LineShape.ofLine isHeader indent body).closesBody then context.leaveBody else context)
      indent line.number line.text
        (LineShape.ofLine isHeader indent body).form).alike inStep together
    revert recognises
    generalize Context.recognise _ _ _ _ left _ = leftFound,
      Context.recognise _ _ _ _ right _ = rightFound
    rintro (⟨outcome, behind⟩ | cause)
    · exact ⟨rfl, rfl, .ok outcome.2 behind⟩
    · exact ⟨rfl, rfl, .error cause⟩

/-- A line with a message and a form has the same outcome with both readers. If it defines a macro,
the definition is visible to both behind it. -/
theorem alike_ofLine (inStep : InStep related) (isHeader languageSeen : Bool) (context : Context)
    (line : SourceLine) (together : related left right) :
    AlikeAfter related (ofLine isHeader languageSeen context line left)
      (ofLine isHeader languageSeen context line right) := by
  let text := Text.trimEnd line.shown
  let body := text.dropWhile (· == ' ')
  have ofBody {left right : Reader} (together : related left right) :=
    alike_ofBody inStep isHeader languageSeen context (text.length - body.length) body line together
  simp only [ofLine]
  split
  · exact ⟨rfl, rfl, .ok _ (RelatedBehind.still together)⟩
  · split
    · exact ofBody together
    · have reads : Alike Prod.mk (fun _ => related) (MessageCall.read body line.number left)
          (MessageCall.read body line.number right) :=
        MessageCall.alike_read inStep body line.number together
      revert reads
      generalize MessageCall.read body line.number left = leftFound,
        MessageCall.read body line.number right = rightFound
      rintro (⟨message, together⟩ | cause)
      · rcases ofBody together with ⟨entries, languageSeen, after⟩
        refine ⟨congrArg (message.toList ++ ·) entries, languageSeen, ?_⟩
        exact after.mono fun _ => RelatedBehind.mono (List.subset_append_right _ _)
      · exact ⟨rfl, rfl, .error cause⟩

/-- A plain reader keeps to the lines that are left to it, whatever is taken for a line. -/
theorem foresees_of_ofLine {expected : RawLine → Prop} {isHeader languageSeen : Bool}
    {context next : Context} {line : SourceLine} {reader later : Reader}
    (foresees : reader.Foresees expected)
    (complete : (ofLine isHeader languageSeen context line reader).after = .ok (next, later)) :
    later.Foresees expected := by
  have after := (alike_ofLine (Reader.inStep_foresees expected) isHeader languageSeen context line
    ⟨rfl, foresees⟩).after
  rw [complete] at after
  cases after with
  | ok _ behind => exact .of_relatedBehind behind

end LineOutcome

end TadsReference
