import TadsReference.Proofs.Entry.InStep
import TadsReference.Proofs.Entry.Unexpanded

/-!
# Calls that declare the language directory

Of all that is known of other files, classification heeds one thing: whether the language directory
has been declared before. That matters to the calls that declare it, and to nothing else:
`ofFile_of_uncalled`.
-/

namespace TadsReference

variable {isHeader languageSeen : Bool} {context next : Context} {reader later : Reader}

namespace LineOutcome

variable {line : SourceLine} {indent : Nat} {body : List Char}

/-- A line that declares nothing has the same outcome, whatever has been declared before. -/
theorem ofBody_of_uncalled (languageSeen : Bool)
    (uncalled : (ofBody isHeader false context indent body line reader).languageSeen = false) :
    ofBody isHeader languageSeen context indent body line reader =
      { ofBody isHeader false context indent body line reader with languageSeen } := by
  simp only [ofBody] at uncalled ⊢
  cases declares : (LineShape.ofLine isHeader indent body).form.declaresLanguage with
  | true =>
      simp only [declares, Bool.and_false, Bool.false_eq_true, if_false, Bool.or_true] at uncalled
      split at uncalled <;> contradiction
  | false =>
      simp only [Bool.false_and, Bool.false_eq_true, if_false, Bool.or_false]
      split <;> rfl

/-- A line whose message and form do not declare the language directory has the same outcome,
whatever has been declared before. -/
theorem ofLine_of_uncalled (languageSeen : Bool)
    (uncalled : (ofLine isHeader false context line reader).languageSeen = false) :
    ofLine isHeader languageSeen context line reader =
      { ofLine isHeader false context line reader with languageSeen } := by
  simp only [ofLine] at uncalled ⊢
  split
  · rfl
  · next filled =>
      rw [if_neg filled] at uncalled
      split
      · next header =>
          rw [if_pos header] at uncalled
          exact ofBody_of_uncalled languageSeen uncalled
      · next source =>
          rw [if_neg source] at uncalled
          split
          · rfl
          · next message later read =>
              rw [read] at uncalled
              rw [ofBody_of_uncalled languageSeen uncalled]

/-- What has been declared stays so. -/
theorem languageSeen_ofLine (line : SourceLine) (reader : Reader) (seen : languageSeen = true) :
    (ofLine isHeader languageSeen context line reader).languageSeen = true := by
  have ofBody (context : Context) (indent : Nat) (body : List Char) (reader : Reader) :
      (ofBody isHeader languageSeen context indent body line reader).languageSeen = true := by
    simp only [LineOutcome.ofBody, seen, Bool.true_or]
    split
    · rfl
    · split <;> rfl
  simp only [ofLine]
  split
  · exact seen
  · split
    · exact ofBody ..
    · split
      · exact seen
      · exact ofBody ..

end LineOutcome

namespace FileOutcome

/-- Once the language directory has been declared, it is so behind all lines. -/
theorem languageSeen_ofLines (isHeader : Bool) (context : Context) (reader : Reader)
    (languageSeen : Bool) (seen : languageSeen = true) :
    (ofLines isHeader languageSeen context reader).languageSeen = true := by
  fun_induction ofLines isHeader languageSeen context reader with
  | case1 => exact seen
  | case2 => exact seen
  | case3 languageSeen context reader line behind read outcome next later classified ih =>
      exact ih (LineOutcome.languageSeen_ofLine line behind seen)
  | case4 languageSeen context reader line behind =>
      exact LineOutcome.languageSeen_ofLine line behind seen
  | case5 languageSeen context reader line behind =>
      exact LineOutcome.languageSeen_ofLine line behind seen

theorem seen_of_uncalled {seen : Bool}
    (uncalled : (ofLines isHeader seen context reader).languageSeen = false) : seen = false := by
  cases seen with
  | false => rfl
  | true =>
      exact absurd (languageSeen_ofLines isHeader context reader true rfl) (by simp [uncalled])

/-- A file that declares nothing has the same outcome, whatever has been declared before. The flag
is only looked at for lines that declare the directory, of which there are none. -/
theorem ofLines_of_uncalled (isHeader : Bool) (context : Context) (reader : Reader)
    (languageSeen seen : Bool)
    (uncalled : (ofLines isHeader seen context reader).languageSeen = false) :
    ofLines isHeader languageSeen context reader =
      { ofLines isHeader seen context reader with languageSeen } := by
  have start := seen_of_uncalled uncalled
  fun_induction ofLines isHeader seen context reader with
  | case1 seen context reader cause behind read => exact ofLines_of_failed read
  | case2 seen context reader behind read => exact ofLines_of_end read
  | case3 seen context reader line behind read outcome next later classified ih =>
      have quiet : outcome.languageSeen = false := seen_of_uncalled uncalled
      subst start
      have same := LineOutcome.ofLine_of_uncalled languageSeen quiet
      have complete : (LineOutcome.ofLine isHeader languageSeen context line behind).after =
          .ok (next, later) := by
        rw [same]
        exact classified
      rw [ofLines_of_complete read complete, same]
      simp only [ih uncalled quiet, prepend]
      rfl
  | case4 seen context reader line behind read outcome file number classified =>
      subst start
      have same := LineOutcome.ofLine_of_uncalled languageSeen uncalled
      have broken : (LineOutcome.ofLine isHeader languageSeen context line behind).after =
          .error (.unexpectedEnd file number) := by
        rw [same]
        exact classified
      rw [ofLines_of_broken read broken, same]
  | case5 seen context reader line behind read outcome cause other classified =>
      subst start
      have same := LineOutcome.ofLine_of_uncalled languageSeen uncalled
      have failed : (LineOutcome.ofLine isHeader languageSeen context line behind).after =
          .error cause := by
        rw [same]
        exact classified
      rw [ofLines_of_failure read other failed, same]

theorem ofFile_of_uncalled (languageSeen : Bool)
    (uncalled : (ofFile isHeader false reader).languageSeen = false) :
    ofFile isHeader languageSeen reader = { ofFile isHeader false reader with languageSeen } :=
  ofLines_of_uncalled isHeader .start reader languageSeen false uncalled

end FileOutcome

/-! ### Lines that are no such call -/

/-- Whether a line has the form of a call that declares the language directory. -/
def SourceLine.declaresLanguage (isHeader : Bool) (line : SourceLine) : Bool :=
  let text := Text.trimEnd line.shown
  let body := text.dropWhile (· == ' ')
  (LineShape.ofLine isHeader (text.length - body.length) body).form.declaresLanguage

/-- Only a call at the left margin declares the language directory, so every other line leaves it at
that. -/
theorem LineOutcome.languageSeen_ofLine_of_other {line : SourceLine}
    (other : line.declaresLanguage isHeader = false) :
    (ofLine isHeader languageSeen context line reader).languageSeen = languageSeen := by
  let text := Text.trimEnd line.shown
  let body := text.dropWhile (· == ' ')
  have form : (LineShape.ofLine isHeader (text.length - body.length) body).form.declaresLanguage =
      false := other
  have ofBody (reader : Reader) :
      (ofBody isHeader languageSeen context (text.length - body.length) body line
        reader).languageSeen = languageSeen := by
    simp only [LineOutcome.ofBody, form, Bool.false_and, Bool.false_eq_true, if_false,
      Bool.or_false]
    split <;> rfl
  simp only [ofLine]
  split
  · rfl
  · split
    · exact ofBody reader
    · split
      · rfl
      · exact ofBody _

/-- A file declares no language directory if none of its lines has the form of such a call. -/
theorem FileOutcome.languageSeen_ofLines_of_others (isHeader languageSeen : Bool)
    (context : Context)
    (reader : Reader)
    (foresees : reader.Foresees fun raw => raw.plain.declaresLanguage isHeader = false) :
    (ofLines isHeader languageSeen context reader).languageSeen = languageSeen := by
  fun_induction ofLines isHeader languageSeen context reader with
  | case1 => rfl
  | case2 => rfl
  | case3 languageSeen context reader line behind read outcome next later classified ih =>
      rcases foresees.of_nextLine read with ⟨raw, rfl, other, foreseesBehind⟩
      exact (ih (LineOutcome.foresees_of_ofLine foreseesBehind classified)).trans
        (LineOutcome.languageSeen_ofLine_of_other other)
  | case4 languageSeen context reader line behind read =>
      rcases foresees.of_nextLine read with ⟨raw, rfl, other, _⟩
      exact LineOutcome.languageSeen_ofLine_of_other other
  | case5 languageSeen context reader line behind read =>
      rcases foresees.of_nextLine read with ⟨raw, rfl, other, _⟩
      exact LineOutcome.languageSeen_ofLine_of_other other

end TadsReference
