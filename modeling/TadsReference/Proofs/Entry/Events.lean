import TadsReference.Proofs.Entry.CutShort
import TadsReference.Proofs.Entry.Recorded
import TadsReference.Proofs.Entry.Survival
import TadsReference.Proofs.Reader.Accounting

/-!
# Events of a file

What the lines of a file do in turn: they complete block comments and yield entries. The events keep
what the entries do not show: which comments there are, and where. `sequel_events` says what may
happen at a point of a file. It depends on the comment that is waiting there, and nothing ever
happens at a line before that of the last event.
-/

namespace TadsReference

/-- What can happen as the lines of a file are classified: a block comment is complete, or an entry
is recorded. -/
inductive Event where
  /-- A block comment that is complete behind the line of the given number. -/
  | comment (text : String) (line : Nat)
  | entry (entry : Entry)
deriving Repr, DecidableEq

namespace Event

/-- The entry that an event records. -/
def recorded? : Event → Option Entry
  | comment _ _ => none
  | entry found => some found

/-- The text of the comment that an event completes. -/
def comment? : Event → Option String
  | comment text _ => some text
  | entry _ => none

@[simp] theorem filterMap_recorded?_entry (entries : List Entry) :
    (entries.map entry).filterMap recorded? = entries := by
  induction entries with
  | nil => rfl
  | cons found entries ih => simp [recorded?, ih]

end Event

/-- What may happen in a file with `last` lines from a line on, where a comment is waiting that is
empty if there is none. `seen` is whether the file has been described. -/
inductive Sequel (last : Nat) : (line : Nat) → (waiting : String) → (seen : Bool) →
    List Event → Prop
  | nil {line : Nat} {waiting : String} {seen : Bool} : Sequel last line waiting seen []
  /-- The waiting comment is dropped. -/
  | drop {line : Nat} {waiting : String} {seen : Bool} {events : List Event}
      (sequel : Sequel last line "" seen events) : Sequel last line waiting seen events
  /-- Something is declared without a comment, while one may go on waiting. -/
  | silent {line next : Nat} {waiting : String} {seen : Bool} {entry : Entry}
      {events : List Event} (further : line ≤ next) (inside : next ≤ last)
      (place : entry.line? = some next) (description : entry.description? = some "")
      (sequel : Sequel last next waiting seen events) :
      Sequel last line waiting seen (.entry entry :: events)
  /-- What is declared takes the waiting comment. -/
  | takes {line next : Nat} {waiting : String} {seen : Bool} {entry : Entry}
      {events : List Event} (further : line ≤ next) (inside : next ≤ last)
      (place : entry.line? = some next) (description : entry.description? = some waiting)
      (sequel : Sequel last next "" seen events) :
      Sequel last line waiting seen (.entry entry :: events)
  /-- The first comment describes the file and does not wait. -/
  | fileComment {line next : Nat} {waiting text : String} {events : List Event}
      (further : line ≤ next) (inside : next ≤ last)
      (sequel : Sequel last next "" true events) :
      Sequel last line waiting false
        (.comment text next :: .entry (.fileDescription text) :: events)
  /-- Any other comment waits in the place of the one before it. -/
  | comment {line next : Nat} {waiting text : String} {events : List Event}
      (further : line ≤ next) (inside : next ≤ last)
      (sequel : Sequel last next text true events) :
      Sequel last line waiting true (.comment text next :: events)

namespace Sequel

variable {last line next : Nat} {waiting : String} {seen : Bool} {events : List Event}

/-- What may happen from a line on may happen from an earlier one on. -/
theorem of_le (sequel : Sequel last next waiting seen events) (earlier : line ≤ next) :
    Sequel last line waiting seen events := by
  induction sequel with
  | nil => exact .nil
  | drop _ ih => exact .drop (ih earlier)
  | silent further inside place description sequel =>
      exact .silent (Nat.le_trans earlier further) inside place description sequel
  | takes further inside place description sequel =>
      exact .takes (Nat.le_trans earlier further) inside place description sequel
  | fileComment further inside sequel =>
      exact .fileComment (Nat.le_trans earlier further) inside sequel
  | comment further inside sequel => exact .comment (Nat.le_trans earlier further) inside sequel

/-- What follows a line that completes no comment. -/
theorem of_records {context later : Context} {entry : Option Entry}
    (records : context.Records line entry later) (inside : line ≤ last)
    (sequel : Sequel last line later.comment later.commentSeen events) :
    Sequel last line context.comment context.commentSeen
      (entry.toList.map .entry ++ events) := by
  cases records with
  | still comment seen => rwa [comment, seen] at sequel
  | takes description place comment seen =>
      rw [comment, seen] at sequel
      cases entry with
      | none => exact .drop sequel
      | some entry =>
          exact .takes (Nat.le_refl _) inside (place entry rfl) (description entry rfl) sequel

/-- What follows a line that completes a comment. -/
theorem of_keepComment {context : Context} {text : String} (further : line ≤ next)
    (inside : next ≤ last)
    (sequel : Sequel last next (context.keepComment text).2.comment
      (context.keepComment text).2.commentSeen events) :
    Sequel last line context.comment context.commentSeen
      (.comment text next :: (context.keepComment text).1.toList.map .entry ++ events) := by
  rcases context with ⟨region, waiting, _ | _, blockOpen⟩
  · exact .fileComment further inside sequel
  · exact .comment further inside sequel

end Sequel

/-- A message takes no comment. -/
theorem MessageCall.silent_of_read {line : List Char} {number : Nat} {reader later : Reader}
    {message : Entry} (read : MessageCall.read line number reader = .ok (some message, later)) :
    message.line? = some number ∧ message.description? = some "" := by
  unfold MessageCall.read at read
  split at read
  · cases read
  · split at read
    · cases read
    · cases read
    · split at read
      · cases read
      · cases read
        exact ⟨rfl, rfl⟩

namespace LineOutcome

/-- What the part of a line behind its indentation does in turn. -/
def bodyEvents (isHeader languageSeen : Bool) (context : Context) (indent : Nat) (body : List Char)
    (line : SourceLine) (reader : Reader) : List Event :=
  (((LineShape.ofLine isHeader indent body).form.completed? reader).toList.map fun completed =>
      .comment completed.1 completed.2.number) ++
    (ofBody isHeader languageSeen context indent body line reader).entries.map .entry

/-- What a line does in turn. Outside headers, a message that the line defines comes first. -/
def events (isHeader languageSeen : Bool) (context : Context) (line : SourceLine)
    (reader : Reader) : List Event :=
  let text := Text.trimEnd line.shown
  if text.isEmpty then []
  else
    let body := text.dropWhile (· == ' ')
    let indent := text.length - body.length
    if isHeader then bodyEvents isHeader languageSeen context indent body line reader
    else
      match MessageCall.read body line.number reader with
      | .error _ => []
      | .ok (message, later) =>
          message.toList.map .entry ++
            bodyEvents isHeader languageSeen context indent body line later

variable {isHeader languageSeen : Bool} {context : Context} {line : SourceLine} {reader : Reader}

theorem entries_bodyEvents (indent : Nat) (body : List Char) :
    (bodyEvents isHeader languageSeen context indent body line reader).filterMap Event.recorded? =
      (ofBody isHeader languageSeen context indent body line reader).entries := by
  have comments (found : Option (String × Reader)) :
      (found.toList.map fun completed => Event.comment completed.1 completed.2.number).filterMap
        Event.recorded? = [] := by
    cases found <;> rfl
  rw [bodyEvents, List.filterMap_append, comments, Event.filterMap_recorded?_entry, List.nil_append]

/-- The entries of a line are those among its events, the message before the others. -/
theorem entries_events :
    (events isHeader languageSeen context line reader).filterMap Event.recorded? =
      (ofLine isHeader languageSeen context line reader).entries := by
  simp only [events, ofLine]
  split
  · rfl
  · split
    · exact entries_bodyEvents ..
    · rcases MessageCall.read _ line.number reader with cause | ⟨message, later⟩
      · rfl
      · simp only [List.filterMap_append, Event.filterMap_recorded?_entry, entries_bodyEvents]

end LineOutcome

/-! ### Where a reader stands -/

namespace Reader

variable {lines : List RawLine} {reader behind : Reader}

/-- A reader stands at its number in the lines of a file, not before a given line. -/
structure StandsFrom (lines : List RawLine) (first : Nat) (reader : Reader) : Prop where
  position : At lines reader
  reached : first ≤ reader.number

theorem StandsFrom.inside {first : Nat} (stands : StandsFrom lines first reader) :
    first ≤ lines.length :=
  Nat.le_trans stands.reached stands.position.number_le

variable (numbered : Numbered lines)

include numbered

theorem StandsFrom.answer {first : Nat} (stands : StandsFrom lines first reader) (call : Call) :
    StandsFrom lines first (call.answer reader).2 where
  position := stands.position.answer numbered call
  reached := Nat.le_trans stands.reached (number_le_answer numbered stands.position call)

theorem survives_standsFrom (first : Nat) : Survives (StandsFrom lines first) fun _ => True := by
  constructor
  · intro reader line behind stands read
    have answered := stands.answer numbered .require
    rwa [Call.answer, read] at answered
  · exact fun _ _ => trivial
  · exact fun stands definition => stands.answer numbered (.define definition)

/-- A line is handed out under the number that the reader has behind it. -/
theorem standsFrom_of_nextLine {line : SourceLine} (position : At lines reader)
    (read : reader.nextLine = (.ok (some line), behind)) :
    StandsFrom lines line.number behind ∧ max 1 reader.number ≤ line.number := by
  have answered : Call.next.answer reader = (.line (some line), behind) := by
    rw [Call.answer, read]
  have sound := sound_answer .next reader
  have stands := StandsFrom.answer numbered ⟨position, Nat.le_refl reader.number⟩ .next
  rw [answered] at sound stands
  have number : line.number = behind.number ∧ 1 ≤ line.number :=
    sound.number_of_line? numbered position rfl
  have reached : reader.number ≤ behind.number := stands.reached
  exact ⟨⟨stands.position, Nat.le_of_eq number.1⟩, by omega⟩

end Reader

namespace LineOutcome

variable {isHeader languageSeen : Bool} {context : Context} {line : SourceLine} {reader : Reader}

section Sequel

variable {lines : List RawLine} {events : List Event} (numbered : Reader.Numbered lines)
  (stands : Reader.StandsFrom lines line.number reader)

include numbered stands

/-- A line completes a comment, or it records an entry with the comment that is waiting, or it does
neither. In each of these cases what happens behind the line may happen from the line on. -/
theorem sequel_bodyEvents {indent : Nat} {body : List Char}
    (follows : ∀ next later,
      (ofBody isHeader languageSeen context indent body line reader).after = .ok (next, later) →
        Sequel lines.length later.number next.comment next.commentSeen events)
    (broken : ∀ cause,
      (ofBody isHeader languageSeen context indent body line reader).after = .error cause →
        events = []) :
    Sequel lines.length line.number context.comment context.commentSeen
      (bodyEvents isHeader languageSeen context indent body line reader ++ events) := by
  have inside : line.number ≤ lines.length := stands.inside
  have entering : ∃ entered : Context,
      (if (LineShape.ofLine isHeader indent body).closesBody then context.leaveBody
        else context) = entered ∧
      entered.comment = context.comment ∧ entered.commentSeen = context.commentSeen := by
    split <;> exact ⟨_, rfl, rfl, rfl⟩
  rcases entering with ⟨entered, isEntered, comment, seen⟩
  have recognised := (Reader.survives_standsFrom numbered line.number).recognise stands entered
    indent line.number line.text (LineShape.ofLine isHeader indent body).form
  simp only [bodyEvents, ofBody, isEntered] at follows broken ⊢
  rw [← comment, ← seen]
  rcases completes : (LineShape.ofLine isHeader indent body).form.completed? reader
    with _ | ⟨text, later⟩
  · split at follows
    · next quiet =>
        rw [if_pos quiet]
        exact (follows entered reader rfl).of_le stands.reached
    · next fresh =>
        rw [if_neg fresh] at broken ⊢
        split at follows
        · next found isFound =>
            have behind := recognised.of_ok isFound
            have sequel := (follows found.context found.reader rfl).of_le behind.reached
            exact sequel.of_records (Context.records_of_recognise isFound completes) inside
        · next cause isFound =>
            rw [isFound] at broken
            obtain rfl := broken cause rfl
            exact .nil
  · have kept := entered.recognise_of_completed? indent line.number line.text completes
    have behind := recognised.of_ok kept
    have fresh : (LineShape.ofLine isHeader indent body).form.declaresLanguage = false := by
      rcases isForm : (LineShape.ofLine isHeader indent body).form <;>
        simp_all [LineForm.completed?, LineForm.declaresLanguage]
    simp only [fresh, Bool.false_and, Bool.false_eq_true, ↓reduceIte, kept] at follows ⊢
    exact (follows _ later rfl).of_keepComment behind.reached behind.position.number_le

/-- A message on a line takes no comment, so what it leaves waiting is still waiting for the form of
the line. -/
theorem sequel_events
    (follows : ∀ next later,
      (ofLine isHeader languageSeen context line reader).after = .ok (next, later) →
        Sequel lines.length later.number next.comment next.commentSeen events)
    (broken : ∀ cause,
      (ofLine isHeader languageSeen context line reader).after = .error cause → events = []) :
    Sequel lines.length line.number context.comment context.commentSeen
      (LineOutcome.events isHeader languageSeen context line reader ++ events) := by
  simp only [LineOutcome.events, ofLine] at follows broken ⊢
  split at follows
  · next blank =>
      rw [if_pos blank]
      exact (follows context reader rfl).of_le stands.reached
  · next filled =>
      rw [if_neg filled] at broken ⊢
      split at follows
      · next header =>
          rw [if_pos header] at broken ⊢
          exact sequel_bodyEvents numbered stands follows broken
      · next source =>
          rw [if_neg source] at broken ⊢
          have called := (Reader.survives_standsFrom numbered line.number).messageCall stands
            ((Text.trimEnd line.shown).dropWhile (· == ' ')) line.number
          rcases read : MessageCall.read ((Text.trimEnd line.shown).dropWhile (· == ' '))
            line.number reader with cause | ⟨message, later⟩
          · rw [read] at broken
            obtain rfl := broken cause rfl
            exact .nil
          · have behind := called.of_ok read
            simp only [read] at follows broken ⊢
            have body := sequel_bodyEvents numbered behind follows broken
            rw [List.append_assoc]
            cases message with
            | none => exact body
            | some message =>
                have silent := MessageCall.silent_of_read read
                exact .silent (Nat.le_refl _) stands.inside silent.1 silent.2 body

end Sequel

end LineOutcome

namespace FileOutcome

theorem entries_ofLines_of_broken {isHeader languageSeen : Bool} {context : Context}
    {reader behind : Reader} {line : SourceLine} {cause : Failure}
    (read : reader.nextLine = (.ok (some line), behind))
    (broken : (LineOutcome.ofLine isHeader languageSeen context line behind).after =
      .error cause) :
    (ofLines isHeader languageSeen context reader).entries =
      (LineOutcome.ofLine isHeader languageSeen context line behind).entries := by
  by_cases ends : ∃ file number, cause = .unexpectedEnd file number
  · rcases ends with ⟨file, number, rfl⟩
    rw [ofLines_of_broken read broken]
  · rw [ofLines_of_failure read (fun file number same => ends ⟨file, number, same⟩) broken]

/-- What the lines of a file do in turn. -/
def events (isHeader languageSeen : Bool) (context : Context) (reader : Reader) : List Event :=
  match _read : reader.nextLine with
  | (.ok (some line), behind) =>
      let outcome := LineOutcome.ofLine isHeader languageSeen context line behind
      match _classified : outcome.after with
      | .ok (next, later) =>
          LineOutcome.events isHeader languageSeen context line behind ++
            events isHeader outcome.languageSeen next later
      | .error _ => LineOutcome.events isHeader languageSeen context line behind
  | _ => []
termination_by reader
decreasing_by
  exact (LineOutcome.notBefore_of_ofLine _classified).of_behind
    (Reader.behind_of_nextLine _read)

/-- The entries of a file are those among its events, along the recursion through its lines. Its
cases are a line that is complete, one that is broken off, and the end of the file. -/
theorem entries_events (isHeader languageSeen : Bool) (context : Context) (reader : Reader) :
    (events isHeader languageSeen context reader).filterMap Event.recorded? =
      (ofLines isHeader languageSeen context reader).entries := by
  fun_induction events isHeader languageSeen context reader with
  | case1 languageSeen context reader line behind read outcome next later classified ih =>
      rw [ofLines_of_complete read classified, List.filterMap_append, ih,
        LineOutcome.entries_events]
      rfl
  | case2 languageSeen context reader line behind read outcome cause classified =>
      rw [entries_ofLines_of_broken read classified, LineOutcome.entries_events]
  | case3 languageSeen context reader others =>
      rcases found : reader.nextLine with ⟨_ | _ | line, behind⟩
      · rw [ofLines_of_failed found]
        rfl
      · rw [ofLines_of_end found]
        rfl
      · exact absurd found (others line behind)

/-- From its first line on, a file does what may happen while no comment is waiting and the file has
not been described. What follows a line begins where the reader stands behind it. -/
theorem sequel_events {lines : List RawLine} (numbered : Reader.Numbered lines)
    (isHeader languageSeen : Bool) (context : Context) (reader : Reader)
    (position : Reader.At lines reader) {start : Nat} (before : start ≤ max 1 reader.number) :
    Sequel lines.length start context.comment context.commentSeen
      (events isHeader languageSeen context reader) := by
  fun_induction events isHeader languageSeen context reader generalizing start with
  | case1 languageSeen context reader line behind read outcome next later classified ih =>
      rcases Reader.standsFrom_of_nextLine numbered position read with ⟨stands, further⟩
      have survived := (Reader.survives_standsFrom numbered line.number).ofLine stands isHeader
        languageSeen context line
      have after := survived.of_ok classified
      refine (LineOutcome.sequel_events numbered stands ?_ ?_).of_le (Nat.le_trans before further)
      · intro other last isAfter
        cases classified.symm.trans isAfter
        exact ih after.position (Nat.le_max_right _ _)
      · intro cause failed
        cases classified.symm.trans failed
  | case2 languageSeen context reader line behind read outcome cause classified =>
      rcases Reader.standsFrom_of_nextLine numbered position read with ⟨stands, further⟩
      rw [← List.append_nil (LineOutcome.events isHeader languageSeen context line behind)]
      refine (LineOutcome.sequel_events numbered stands ?_ fun _ _ => rfl).of_le
        (Nat.le_trans before further)
      intro next later isAfter
      cases classified.symm.trans isAfter
  | case3 => exact .nil

end FileOutcome

end TadsReference
