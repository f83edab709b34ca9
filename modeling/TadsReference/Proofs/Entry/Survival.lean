import TadsReference.Entry.OfFile
import TadsReference.Proofs.Entry.Recognisers

/-!
# What survives classification

All that classification does with a reader is to require further lines of it and to define macros in
it. So a property of readers that survives both survives every line, and nothing but a line that is
refused breaks classification off: `Survives.ofLine`.
-/

namespace TadsReference

/-- Whether a reading is followed by a reader with a property or is broken off by a failure of one
kind. -/
def Ends {Outcome : Type} (holds : Reader → Prop) (fails : Failure → Prop)
    (readerOf : Outcome → Reader) : Except Failure Outcome → Prop
  | .ok outcome => holds (readerOf outcome)
  | .error cause => fails cause

namespace Ends

variable {holds : Reader → Prop} {fails : Failure → Prop}

section Results

variable {Outcome : Type} {readerOf : Outcome → Reader} {result : Except Failure Outcome}

theorem of_ok {outcome : Outcome} (ends : Ends holds fails readerOf result)
    (found : result = .ok outcome) : holds (readerOf outcome) := by
  rwa [found] at ends

theorem of_error {cause : Failure} (ends : Ends holds fails readerOf result)
    (failed : result = .error cause) : fails cause := by
  rwa [failed] at ends

end Results

/-- Two readings one after the other end as required if the first does and the second does behind
each of its results. This is what carries the property through all that classification does in
turn. -/
theorem bind {First Second : Type} {firstOf : First → Reader} {secondOf : Second → Reader}
    {result : Except Failure First} {next : First → Except Failure Second}
    (ends : Ends holds fails firstOf result)
    (follows : ∀ first, holds (firstOf first) → Ends holds fails secondOf (next first)) :
    Ends holds fails secondOf (result >>= next) := by
  cases result with
  | error cause => exact ends
  | ok first => exact follows first ends

end Ends

/-- Whether a property of readers survives all that classification does with them, and lines are
refused with failures of one kind only. -/
structure Survives (holds : Reader → Prop) (fails : Failure → Prop) : Prop where
  required : ∀ {reader line behind}, holds reader → reader.requireLine = (.ok line, behind) →
    holds behind
  refused : ∀ {reader cause behind}, holds reader → reader.requireLine = (.error cause, behind) →
    fails cause
  defined : ∀ {reader}, holds reader → ∀ definition, holds (reader.define definition)

namespace Survives

variable {holds : Reader → Prop} {fails : Failure → Prop} (survives : Survives holds fails)
  {reader : Reader} (start : holds reader)

include survives start

/-- Gathering requires one line after the other, so a property that survives one required line
survives all of them. -/
theorem gather {State Value : Type} (step : State → List Char → Progress State Value)
    (progress : Progress State Value) :
    Ends holds fails Prod.snd (reader.gather step progress) := by
  fun_induction Reader.gather step progress reader with
  | case1 => exact start
  | case2 reader state cause behind read => exact survives.refused start read
  | case3 reader state line behind read ih => exact ih (survives.required start read)

theorem gathered {State Value : Type} (step : State → List Char → Progress State Value)
    (progress : Progress State Value) (finish : Value → Option Entry × Context) :
    Ends holds fails Recognised.reader (Recognised.gathered step progress finish reader) := by
  rw [Recognised.gathered_eq_bind]
  apply (survives.gather start step progress).bind
  exact fun _ after => after

/-- The body of a macro takes lines as long as they end in a backslash, and each of them is required
from the reader. -/
theorem macroBody (rest : List Char) :
    Ends holds fails Prod.snd (MacroBody.read rest reader) := by
  unfold MacroBody.read
  split
  · apply (survives.gather start ..).bind
    rintro ⟨list, later⟩ behind
    cases list with
    | none => exact behind
    | some found =>
        apply (survives.gather behind ..).bind
        exact fun _ last => last
  · apply (survives.gather start ..).bind
    exact fun _ last => last

/-- A definition reads its parameters and its body from the reader, and the macro is then added to
the reader that is behind both. -/
theorem definedMacro (context : Context) (line : Nat) (rest : List Char) :
    Ends holds fails Recognised.reader (Recognised.definedMacro context line rest reader) := by
  rw [Recognised.definedMacro_eq_bind]
  split
  · exact start
  · apply (survives.macroBody start _).bind
    rintro ⟨_ | found, later⟩ after
    · exact after
    · exact survives.defined after _

/-- What recognises a line by a list of lines or by one text gathers it, and what does not gather
leaves the reader as it is. -/
theorem recogniser {run : Reader → Except Failure Recognised} (recogniser : Recogniser run) :
    Ends holds fails Recognised.reader (run reader) := by
  cases recogniser with
  | ofLine outcome => exact start
  | gathered step progress finish => exact survives.gathered start step progress finish
  | definedMacro context line rest => exact survives.definedMacro start context line rest

theorem recognise (context : Context) (indent line : Nat) (sourceText : List Char)
    (form : LineForm) :
    Ends holds fails Recognised.reader (context.recognise indent line sourceText reader form) :=
  survives.recogniser start (context.recogniser_recognise indent line sourceText form)

/-- A call is read only where its name stands on the line, and then further lines are required until
it is closed. -/
theorem messageCall (line : List Char) (number : Nat) :
    Ends holds fails Prod.snd (MessageCall.read line number reader) := by
  rw [MessageCall.read_eq_bind]
  split
  · exact start
  · split
    · exact start
    · exact start
    · apply (survives.gather start ..).bind
      exact fun _ after => after

/-- The body of a line is recognised in its form and then searched for a message, so both survivals
are put one behind the other. -/
theorem ofBody (isHeader languageSeen : Bool) (context : Context) (indent : Nat)
    (body : List Char) (line : SourceLine) :
    Ends holds fails Prod.snd
      (LineOutcome.ofBody isHeader languageSeen context indent body line reader).after := by
  simp only [LineOutcome.ofBody]
  split
  · exact start
  · split
    · next found => exact (survives.recognise start ..).of_ok found
    · next failed => exact (survives.recognise start ..).of_error failed

/-- A line is read with all the lines behind it that it takes. Nothing else of the reader is touched
by a line, which is why its failures are those of the lines that it requires. -/
theorem ofLine (isHeader languageSeen : Bool) (context : Context) (line : SourceLine) :
    Ends holds fails Prod.snd
      (LineOutcome.ofLine isHeader languageSeen context line reader).after := by
  simp only [LineOutcome.ofLine]
  split
  · exact start
  · split
    · exact survives.ofBody start ..
    · split
      · next failed => exact (survives.messageCall start ..).of_error failed
      · next read => exact survives.ofBody ((survives.messageCall start ..).of_ok read) ..

end Survives

end TadsReference
