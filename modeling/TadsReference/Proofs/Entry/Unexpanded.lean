import TadsReference.Proofs.Entry.BlockNames
import TadsReference.Proofs.Entry.Survival

/-!
# Files without expansion

A reader that expands no macros always has a line to give until the file ends. Classification can
then be broken off by the end of the file alone, so every such file is read to an end:
`exists_ending_of_unexpanded`.
-/

namespace TadsReference

namespace Reader

variable {reader : Reader}

/-- Without macros no line is looked ahead for, so a reader hands out the line that it has, or none
behind the last one. -/
theorem nextLine_of_unexpanded (unexpanded : reader.macros = none) :
    ∃ line later, reader.nextLine = (.ok line, later) ∧ later.macros = none := by
  unfold nextLine
  split
  · exact ⟨_, _, rfl, unexpanded⟩
  · split
    · exact ⟨_, _, rfl, unexpanded⟩
    · simp only [unexpanded, expandRaw]
      exact ⟨_, _, rfl, rfl⟩

/-- A reader that expands no macros goes on expanding none, and refuses a line only behind the end
of the file. A macro that is defined on the way is passed by, since there is no scope that it could
be added to. -/
theorem survives_unexpanded : Survives (fun reader => reader.macros = none)
    fun cause => ∃ file number, cause = .unexpectedEnd file number := by
  constructor
  · intro reader line behind unexpanded read
    rcases nextLine_of_unexpanded unexpanded with ⟨found, later, next, after⟩
    rw [requireLine, next] at read
    cases found <;> cases read
    exact after
  · intro reader cause behind unexpanded read
    rcases nextLine_of_unexpanded unexpanded with ⟨found, later, next, after⟩
    rw [requireLine, next] at read
    cases found <;> cases read
    exact ⟨_, _, rfl⟩
  · intro reader unexpanded definition
    simpa [define] using unexpanded

end Reader

variable {reader : Reader}

/-- Only the end of the file breaks off what a line begins, and it does so with the number of the
last line that was read. -/
theorem LineOutcome.ends_of_nextLine {isHeader languageSeen : Bool} {context : Context}
    {line : SourceLine} {behind : Reader} (unexpanded : reader.macros = none)
    (read : reader.nextLine = (.ok (some line), behind)) :
    Ends (fun reader => reader.macros = none)
      (fun cause => ∃ file number, cause = .unexpectedEnd file number) Prod.snd
      (ofLine isHeader languageSeen context line behind).after := by
  rcases Reader.nextLine_of_unexpanded unexpanded with ⟨_, _, next, after⟩
  rw [next] at read
  cases read
  exact Reader.survives_unexpanded.ofLine after ..

namespace FileOutcome

/-- The lines of a reader without macros are classified to the end of the file. A reader has fewer
lines behind it with each that it hands out, so the induction is on the run of classification
itself. -/
theorem exists_ending_ofLines (isHeader languageSeen : Bool) (context : Context)
    (reader : Reader) (unexpanded : reader.macros = none) :
    ∃ number, (ofLines isHeader languageSeen context reader).ending = .ok number := by
  fun_induction ofLines isHeader languageSeen context reader with
  | case1 languageSeen context reader cause _ read =>
      rcases Reader.nextLine_of_unexpanded unexpanded with ⟨_, _, next, _⟩
      rw [next] at read
      cases read
  | case2 => exact ⟨_, rfl⟩
  | case3 languageSeen context reader line behind read outcome next later classified ih =>
      exact ih ((LineOutcome.ends_of_nextLine unexpanded read).of_ok classified)
  | case4 => exact ⟨_, rfl⟩
  | case5 languageSeen context reader line behind read outcome cause other classified =>
      rcases (LineOutcome.ends_of_nextLine unexpanded read).of_error classified
        with ⟨file, number, rfl⟩
      exact (other file number rfl).elim

/-- Without macros, every file is read to an end. A line that the end of the file cuts short is
dropped there, and the ending is that of a complete file. -/
theorem exists_ending_of_unexpanded (isHeader languageSeen : Bool)
    (unexpanded : reader.macros = none) :
    ∃ number, (ofFile isHeader languageSeen reader).ending = .ok number :=
  exists_ending_ofLines isHeader languageSeen .start reader unexpanded

end FileOutcome

end TadsReference
