import TadsReference.Entry.OfFile
import TadsReference.Proofs.Entry.Recognisers
import TadsReference.Proofs.Reader.Truncation

/-!
# Constructs that the end of the file cuts short

Without macros, a line that is complete has the same outcome however soon the file ends behind it.
So the entries of a file in which a construct is cut short are those of the lines before it, and at
most one message more: `entries_of_cutShort`.
-/

namespace TadsReference

open Reader (Lasting)

variable {isHeader languageSeen : Bool} {context next : Context} {reader later : Reader}

namespace Recognised

/-- What a line amounts to, with the reader behind it. -/
def ofParts (outcome : Option Entry × Context) (reader : Reader) : Recognised where
  entry := outcome.1
  context := outcome.2
  reader := reader

theorem lasting_ofLine (outcome : Option Entry × Context) : Lasting ofParts (ofLine outcome) :=
  Reader.lasting_ok outcome

theorem lasting_gathered {State Value : Type} (step : State → List Char → Progress State Value)
    (progress : Progress State Value) (finish : Value → Option Entry × Context) :
    Lasting ofParts (gathered step progress finish) := by
  rw [funext (gathered_eq_bind step progress finish)]
  apply (Reader.lasting_gather step progress).bind
  exact fun value => lasting_ofLine (finish value)

end Recognised

/-- The body of a macro goes on while lines end with a backslash, so it is complete with the first
that does not. -/
theorem MacroBody.lasting_read (rest : List Char) : Lasting Prod.mk (read rest) := by
  unfold read
  split
  · next arguments =>
      apply (Reader.lasting_gather ParameterList.continueOn (ParameterList.scan [] arguments)).bind
      intro list
      cases list with
      | none => exact Reader.lasting_ok none
      | some found =>
          apply (Reader.lasting_gather continueOn (continueOn [] found.2)).bind
          exact fun body => Reader.lasting_ok (some (found.1, body))
  · apply (Reader.lasting_gather continueOn (continueOn [] rest)).bind
    exact fun body => Reader.lasting_ok (some ([], body))

namespace Recognised

/-- A plain reader ignores the macros that are defined. -/
theorem lasting_ofLine_define (outcome : Option Entry × Context) (definition : MacroDefinition) :
    Lasting ofParts fun reader => ofLine outcome (reader.define definition) := by
  intro reader plain found recognised
  dsimp only at recognised ⊢
  rw [Reader.define_of_plain plain] at recognised
  rcases lasting_ofLine outcome reader plain found recognised with
    ⟨value, later, same, after, onward, again⟩
  refine ⟨value, later, same, after, onward, ?_⟩
  intro last reached
  rw [Reader.define_of_plain (plain.upTo last)]
  exact again last reached

/-- A definition has the same outcome once its body is complete, since a plain reader ignores the
macro. -/
theorem lasting_definedMacro (context : Context) (line : Nat) (rest : List Char) :
    Lasting ofParts (definedMacro context line rest) := by
  rw [funext (definedMacro_eq_bind context line rest)]
  split
  · exact lasting_ofLine _
  · next name rest _ =>
      apply (MacroBody.lasting_read rest).bind
      intro found
      cases found with
      | none => exact lasting_ofLine _
      | some found => exact lasting_ofLine_define _ _

end Recognised

theorem Recogniser.lasting {run : Reader → Except Failure Recognised}
    (recogniser : Recogniser run) : Lasting Recognised.ofParts run := by
  cases recogniser with
  | ofLine outcome => exact Recognised.lasting_ofLine outcome
  | gathered step progress finish => exact Recognised.lasting_gathered step progress finish
  | definedMacro context line rest => exact Recognised.lasting_definedMacro context line rest

theorem Context.lasting_recognise (context : Context) (indent line : Nat)
    (sourceText : List Char) (form : LineForm) :
    Lasting Recognised.ofParts fun reader =>
      context.recognise indent line sourceText reader form :=
  (context.recogniser_recognise indent line sourceText form).lasting

/-- A message that is complete is the same however soon the file ends behind it. -/
theorem MessageCall.lasting_read (line : List Char) (number : Nat) :
    Lasting Prod.mk (read line number) := by
  rw [funext (read_eq_bind line number)]
  split
  · exact Reader.lasting_ok none
  · next kind rest _ =>
      split
      · exact Reader.lasting_ok none
      · exact Reader.lasting_ok none
      · next tokens rest _ _ =>
          apply (Reader.lasting_gather continueOn (start rest)).bind
          exact fun text => Reader.lasting_ok (some (message kind tokens number text))

/-- Whether entries are none, or one message at a line. -/
inductive AtMostMessage (line : Nat) : List Entry → Prop
  | none : AtMostMessage line []
  | one (name : String) (kind : MessageKind) (text : String) :
      AtMostMessage line [.declaration name "" line (.message kind text)]

/-- A call on a line yields one message or nothing. -/
theorem MessageCall.atMostMessage_of_read {line : List Char} {number : Nat}
    {message : Option Entry} (found : read line number reader = .ok (message, later)) :
    AtMostMessage number message.toList := by
  unfold read at found
  split at found
  · cases found
    exact .none
  · split at found
    · cases found
      exact .none
    · cases found
      exact .none
    · split at found
      · contradiction
      · cases found
        exact .one _ _ _

namespace LineOutcome

variable {line : SourceLine} {last : Nat}

/-- The outcome of a complete line is the same however soon the file ends behind it. Whatever is
recognised lies behind the lines that were read for it, and the shorter file has those as well. -/
theorem ofBody_upTo {indent : Nat} {body : List Char} (plain : reader.Plain)
    (complete :
      (ofBody isHeader languageSeen context indent body line reader).after = .ok (next, later)) :
    later.Plain ∧ reader.number ≤ later.number ∧ ∀ last, later.number ≤ last →
      ofBody isHeader languageSeen context indent body line (reader.upTo last) =
        { ofBody isHeader languageSeen context indent body line reader with
          after := .ok (next, later.upTo last) } := by
  simp only [ofBody] at complete ⊢
  split at complete
  · next again =>
      cases complete
      refine ⟨plain, Nat.le_refl _, ?_⟩
      intro last _
      rw [if_pos again, if_pos again]
      rfl
  · next fresh =>
      split at complete
      · next found recognised =>
          cases complete
          rcases Context.lasting_recognise _ _ _ _ _ reader plain found recognised with
            ⟨outcome, behind, rfl, after, onward, same⟩
          refine ⟨after, onward, ?_⟩
          intro last reached
          have again := same last reached
          dsimp only at again
          rw [if_neg fresh, if_neg fresh, again]
          rfl
      · contradiction

/-- A line that is complete has the same outcome in a file that ends at any place behind it. The
message on the line is looked at first, and then the form of the line. -/
theorem ofLine_upTo (plain : reader.Plain)
    (complete : (ofLine isHeader languageSeen context line reader).after = .ok (next, later)) :
    later.Plain ∧ reader.number ≤ later.number ∧ ∀ last, later.number ≤ last →
      ofLine isHeader languageSeen context line (reader.upTo last) =
        { ofLine isHeader languageSeen context line reader with
          after := .ok (next, later.upTo last) } := by
  simp only [ofLine] at complete ⊢
  split at complete
  · next blank =>
      cases complete
      refine ⟨plain, Nat.le_refl _, ?_⟩
      intro last _
      rw [if_pos blank, if_pos blank]
      rfl
  · next filled =>
      split at complete
      · next header =>
          rcases ofBody_upTo plain complete with ⟨after, onward, same⟩
          refine ⟨after, onward, ?_⟩
          intro last reached
          rw [if_neg filled, if_neg filled, if_pos header, if_pos header]
          exact same last reached
      · next source =>
          split at complete
          · contradiction
          · next message behind read =>
              rcases MessageCall.lasting_read _ _ reader plain _ read with
                ⟨found, middle, parts, middlePlain, further, again⟩
              cases parts
              rcases ofBody_upTo middlePlain complete with ⟨after, onward, same⟩
              refine ⟨after, Nat.le_trans further onward, ?_⟩
              intro last reached
              rw [if_neg filled, if_neg filled, if_neg source, if_neg source,
                again last (Nat.le_trans onward reached)]
              dsimp only
              rw [same last reached]

/-- A form of line that is broken off declares nothing, since it declares something only when it is
complete. -/
theorem entries_of_ofBody_broken {indent : Nat} {body : List Char} {cause : Failure}
    (broken :
      (ofBody isHeader languageSeen context indent body line reader).after = .error cause) :
    (ofBody isHeader languageSeen context indent body line reader).entries = [] := by
  simp only [ofBody] at broken ⊢
  split at broken
  · contradiction
  · next fresh =>
      rw [if_neg fresh]
      split at broken
      · contradiction
      · rfl

/-- A line that is broken off has no entry but a message that stands complete before that. The form
of the line has been broken off then, and what it would have declared is declared only when it is
complete. -/
theorem atMostMessage_of_broken {cause : Failure}
    (broken : (ofLine isHeader languageSeen context line reader).after = .error cause) :
    AtMostMessage line.number (ofLine isHeader languageSeen context line reader).entries := by
  simp only [ofLine] at broken ⊢
  split at broken
  · contradiction
  · next filled =>
      rw [if_neg filled]
      split at broken
      · next header =>
          rw [if_pos header, entries_of_ofBody_broken broken]
          exact .none
      · next source =>
          rw [if_neg source]
          split at broken
          · exact .none
          · next message behind read =>
              simpa only [entries_of_ofBody_broken broken, List.append_nil] using
                MessageCall.atMostMessage_of_read read

end LineOutcome

/-! ### Files -/

namespace FileOutcome

/-- Whether the end of the file cuts short the construct that begins on a line, when a reader goes
on reading in a context. -/
inductive CutShort (isHeader : Bool) : Bool → Context → Reader → (line : Nat) → Prop
  | here {languageSeen : Bool} {context : Context} {reader behind : Reader} {line : SourceLine}
      {file : String} {number : Nat} (read : reader.nextLine = (.ok (some line), behind))
      (broken : (LineOutcome.ofLine isHeader languageSeen context line behind).after =
        .error (.unexpectedEnd file number)) :
      CutShort isHeader languageSeen context reader line.number
  | later {languageSeen : Bool} {context next : Context} {reader behind later : Reader}
      {line : SourceLine} {number : Nat} (read : reader.nextLine = (.ok (some line), behind))
      (complete : (LineOutcome.ofLine isHeader languageSeen context line behind).after =
        .ok (next, later))
      (cutShort : CutShort isHeader
        (LineOutcome.ofLine isHeader languageSeen context line behind).languageSeen next later
        number) :
      CutShort isHeader languageSeen context reader number

section Lines

variable {behind : Reader} {line : SourceLine}

theorem ofLines_of_end (read : reader.nextLine = (.ok none, behind)) :
    ofLines isHeader languageSeen context reader = ⟨[], languageSeen, .ok behind.number⟩ := by
  rw [ofLines]
  split <;> simp_all

theorem ofLines_of_failed {cause : Failure} (read : reader.nextLine = (.error cause, behind)) :
    ofLines isHeader languageSeen context reader = ⟨[], languageSeen, .error cause⟩ := by
  rw [ofLines]
  split <;> simp_all

/-- A complete line puts its entries in front of those of the lines behind it. -/
theorem ofLines_of_complete (read : reader.nextLine = (.ok (some line), behind))
    (complete : (LineOutcome.ofLine isHeader languageSeen context line behind).after =
      .ok (next, later)) :
    ofLines isHeader languageSeen context reader =
      (ofLines isHeader (LineOutcome.ofLine isHeader languageSeen context line behind).languageSeen
        next later).prepend
          (LineOutcome.ofLine isHeader languageSeen context line behind).entries := by
  rw [ofLines]
  split
  · simp_all
  · simp_all
  · next found =>
      rw [read] at found
      cases found
      dsimp only
      split <;> simp_all

/-- A line that is broken off by the end of the file is the last one, and keeps the entries that it
has by then. -/
theorem ofLines_of_broken (read : reader.nextLine = (.ok (some line), behind)) {file : String}
    {number : Nat}
    (broken : (LineOutcome.ofLine isHeader languageSeen context line behind).after =
      .error (.unexpectedEnd file number)) :
    ofLines isHeader languageSeen context reader =
      ⟨(LineOutcome.ofLine isHeader languageSeen context line behind).entries,
        (LineOutcome.ofLine isHeader languageSeen context line behind).languageSeen,
        .ok number⟩ := by
  rw [ofLines]
  split
  · simp_all
  · simp_all
  · next found =>
      rw [read] at found
      cases found
      dsimp only
      split <;> simp_all

/-- A failure other than the end of the file ends the reading as a failure, and the entries of the
line are kept. -/
theorem ofLines_of_failure (read : reader.nextLine = (.ok (some line), behind)) {cause : Failure}
    (other : ∀ file number, cause ≠ .unexpectedEnd file number)
    (failed : (LineOutcome.ofLine isHeader languageSeen context line behind).after =
      .error cause) :
    ofLines isHeader languageSeen context reader =
      ⟨(LineOutcome.ofLine isHeader languageSeen context line behind).entries,
        (LineOutcome.ofLine isHeader languageSeen context line behind).languageSeen,
        .error cause⟩ := by
  rw [ofLines]
  split
  · simp_all
  · simp_all
  · next found =>
      rw [read] at found
      cases found
      dsimp only
      split
      · simp_all
      · next file number broken =>
          exact absurd (Except.error.inj (failed.symm.trans broken)) (other file number)
      · simp_all

/-- Behind a complete line, the file is read the same however soon it ends. -/
theorem ofLines_upTo_of_complete (plain : reader.Plain)
    (read : reader.nextLine = (.ok (some line), behind))
    (complete : (LineOutcome.ofLine isHeader languageSeen context line behind).after =
      .ok (next, later)) {last : Nat} (reached : later.number ≤ last) :
    ofLines isHeader languageSeen context (reader.upTo last) =
      (ofLines isHeader (LineOutcome.ofLine isHeader languageSeen context line behind).languageSeen
        next (later.upTo last)).prepend
          (LineOutcome.ofLine isHeader languageSeen context line behind).entries := by
  have following := plain.of_nextLine read
  rcases LineOutcome.ofLine_upTo following.1 complete with ⟨_, onward, same⟩
  have within : reader.number < last := by omega
  have readAgain := Reader.nextLine_upTo plain within
  rw [read] at readAgain
  have again := same last reached
  have completeAgain :
      (LineOutcome.ofLine isHeader languageSeen context line (behind.upTo last)).after =
        .ok (next, later.upTo last) := by
    rw [again]
  rw [ofLines_of_complete readAgain completeAgain, again]

end Lines

/-- If a construct is cut short, the entries are those of the lines before it and at most one
message. The induction follows the lines: each of them is complete before the construct begins, so
the shorter file has all of it, and the construct begins on the first line that the shorter file
does not have. -/
theorem entries_of_cutShort {number : Nat} (plain : reader.Plain)
    (cutShort : CutShort isHeader languageSeen context reader number) :
    reader.number < number ∧ ∃ message, AtMostMessage number message ∧
      (ofLines isHeader languageSeen context reader).entries =
        (ofLines isHeader languageSeen context (reader.upTo (number - 1))).entries ++ message := by
  induction cutShort with
  | @here languageSeen context reader behind line file number read broken =>
      have next := plain.of_nextLine read
      have reached : line.number - 1 ≤ reader.number := by omega
      have ended := Reader.nextLine_upTo_of_le plain reached
      refine ⟨by omega, _, LineOutcome.atMostMessage_of_broken broken, ?_⟩
      rw [ofLines_of_broken read broken, ofLines_of_end ended]
      rfl
  | @later languageSeen context next reader behind later line number read complete _ ih =>
      have following := plain.of_nextLine read
      rcases LineOutcome.ofLine_upTo following.1 complete with ⟨after, onward, _⟩
      rcases ih after with ⟨before, message, atMost, entries⟩
      have reached : later.number ≤ number - 1 := Nat.le_sub_one_of_lt before
      refine ⟨by omega, message, atMost, ?_⟩
      rw [ofLines_of_complete read complete, ofLines_upTo_of_complete plain read complete reached]
      simp only [prepend, entries, List.append_assoc]

end FileOutcome

end TadsReference
