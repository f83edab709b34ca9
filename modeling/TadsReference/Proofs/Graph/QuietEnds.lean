import TadsReference.Graph.Record
import TadsReference.Proofs.Entry.CutShort
import TadsReference.Proofs.Entry.Unexpanded

/-!
# Files that end in the middle of a construct

Without macros, every file is read to an end. If that end cuts a construct short, the graph is the
one of the lines before the construct, but for one message that may stand complete on its first
line: `endsQuietly_classifyFile`.
-/

namespace TadsReference.Graph

open FileOutcome (CutShort)

/-- The graphs that hold at most one declaration more than a given one, a message at a location. -/
inductive WithAtMostMessage (graph : Graph) (location : Location) : Graph → Prop
  | same : WithAtMostMessage graph location graph
  | message (name : String) (kind : MessageKind) (text : String) :
      WithAtMostMessage graph location
        (graph.addMessage ⟨name, "", location, .message kind text⟩)

namespace WithAtMostMessage

variable {graph other : Graph} {location : Location}

theorem files_eq (atMost : WithAtMostMessage graph location other) :
    other.files = graph.files := by
  cases atMost <;> rfl

theorem takenNames_eq (atMost : WithAtMostMessage graph location other) :
    other.takenNames = graph.takenNames := by
  cases atMost <;> rfl

theorem productions_eq (atMost : WithAtMostMessage graph location other) :
    other.productions = graph.productions := by
  cases atMost <;> rfl

end WithAtMostMessage

/-- A message that comes last among the entries of a file is all that it adds. -/
theorem withAtMostMessage_record (graph : Graph) (index : Nat) (entries : List Entry) {line : Nat}
    {message : List Entry} (atMost : AtMostMessage line message) :
    WithAtMostMessage (graph.record index entries) ⟨(graph.file index).source.shortName, line⟩
      (graph.record index (entries ++ message)) := by
  cases atMost with
  | none =>
      rw [List.append_nil]
      exact .same
  | one name kind text =>
      simp only [record, List.foldl_append, List.foldl_cons, List.foldl_nil]
      exact .message name kind text

variable (graph : Graph) (languageSeen : Bool) (index : Nat) (file : String)
  (content : List UInt8) (mirror : Option (List UInt8))

/-- What becomes of a file that is read without macros. -/
def readPlain : Reading :=
  graph.classifyFile languageSeen index (.ofContent file content mirror none)

/-- Whether the end of a file that is read without macros cuts short the construct that begins on
a line. -/
def CutsShort (line : Nat) : Prop :=
  CutShort (graph.file index).source.isHeader languageSeen .start
    (.ofContent file content mirror none) line

/-- Whether a file that is read without macros comes to an end at which nothing is left of a
construct that is cut short. -/
structure EndsQuietly : Prop where
  ends : ∃ number, (graph.readPlain languageSeen index file content mirror).ending = .ok number
  /-- The graph is that of the lines before the construct, and at most one message. -/
  graph_eq : ∀ line, graph.CutsShort languageSeen index file content mirror line →
    WithAtMostMessage
      (graph.readPlain languageSeen index file (RawLine.firstLines (line - 1) content) mirror).graph
      ⟨(graph.file index).source.shortName, line⟩
      (graph.readPlain languageSeen index file content mirror).graph
  /-- The construct leaves no description or list of the file, no name and no production behind. -/
  nothing_left : ∀ line, graph.CutsShort languageSeen index file content mirror line →
    let front :=
      (graph.readPlain languageSeen index file (RawLine.firstLines (line - 1) content) mirror).graph
    let whole := (graph.readPlain languageSeen index file content mirror).graph
    whole.files = front.files ∧ whole.takenNames = front.takenNames ∧
      whole.productions = front.productions

variable {graph languageSeen index file content mirror}

/-- A file that cuts a construct short has the entries of the lines before the construct, with one
message behind them at most. -/
theorem withAtMostMessage_of_cutsShort {line : Nat}
    (cutsShort : graph.CutsShort languageSeen index file content mirror line) :
    WithAtMostMessage
      (graph.readPlain languageSeen index file (RawLine.firstLines (line - 1) content) mirror).graph
      ⟨(graph.file index).source.shortName, line⟩
      (graph.readPlain languageSeen index file content mirror).graph := by
  have plain := Reader.plain_ofContent file content mirror
  rcases FileOutcome.entries_of_cutShort plain cutsShort with ⟨_, message, atMost, entries⟩
  simp only [readPlain, classifyFile, FileOutcome.ofFile, entries, Reader.upTo_ofContent]
  exact withAtMostMessage_record graph index _ atMost

/-- Every file that is read without macros is read to an end, and a construct that the end cuts
short leaves at most one message behind. Both follow from what is known of the entries, since
recording depends on them alone. -/
theorem endsQuietly_classifyFile (graph : Graph) (languageSeen : Bool) (index : Nat)
    (file : String) (content : List UInt8) (mirror : Option (List UInt8)) :
    graph.EndsQuietly languageSeen index file content mirror where
  ends := FileOutcome.exists_ending_of_unexpanded _ languageSeen rfl
  graph_eq := fun _ cutsShort => withAtMostMessage_of_cutsShort cutsShort
  nothing_left := fun _ cutsShort =>
    have atMost := withAtMostMessage_of_cutsShort cutsShort
    ⟨atMost.files_eq, atMost.takenNames_eq, atMost.productions_eq⟩

/-- A header with a comment that is opened on its second line and not closed. -/
def openHeader : Graph :=
  ofFiles [⟨"open.h", "open.h", true, [], 2⟩]

/-- The comment is opened on the second line, and the end of the file comes before it is closed. -/
theorem cutsShort_openHeader :
    openHeader.CutsShort false 0 "open.h" [10, 47, 42] none 2 := by
  let behind (taken : Nat) (content : List UInt8) : Reader :=
    ⟨"open.h", ⟨[], content, none, taken, taken⟩, [], none⟩
  have first : (Reader.ofContent "open.h" [10, 47, 42] none none).nextLine =
      (.ok (some ⟨1, [], none⟩), behind 1 [47, 42]) := by
    rfl
  have blank : LineOutcome.ofLine true false .start ⟨1, [], none⟩ (behind 1 [47, 42]) =
      .quiet false .start (behind 1 [47, 42]) := by
    rfl
  have second : (behind 1 [47, 42]).nextLine =
      (.ok (some ⟨2, ['/', '*'], none⟩), behind 2 []) := by
    rfl
  have shape : LineShape.ofLine true 0 ['/', '*'] = ⟨false, .comment []⟩ := by
    decide +kernel
  have opened : LineOutcome.ofLine true false .start ⟨2, ['/', '*'], none⟩ (behind 2 []) =
      ⟨[], false, .error (.unexpectedEnd "open.h" 2)⟩ := by
    change LineOutcome.ofBody true false .start 0 ['/', '*'] ⟨2, ['/', '*'], none⟩
      (behind 2 []) = _
    have waits : BlockComment.start [] = .waiting [[]] := by
      rfl
    have ended : (behind 2 []).requireLine = (.error (.unexpectedEnd "open.h" 2), behind 2 []) := by
      rfl
    simp [LineOutcome.ofBody, shape, LineForm.declaresLanguage, Context.recognise,
      Recognised.gathered, waits, Reader.gather_of_end ended]
  apply CutShort.later first (congrArg LineOutcome.after blank)
  rw [blank]
  exact CutShort.here second (congrArg LineOutcome.after opened)

/-- The graph is that of the first line alone, as nothing of the comment is left. -/
theorem endsQuietly_openHeader :
    openHeader.CutsShort false 0 "open.h" [10, 47, 42] none 2 ∧
      WithAtMostMessage
        (openHeader.readPlain false 0 "open.h" (RawLine.firstLines 1 [10, 47, 42]) none).graph
        ⟨"open.h", 2⟩ (openHeader.readPlain false 0 "open.h" [10, 47, 42] none).graph := by
  have ends := endsQuietly_classifyFile openHeader false 0 "open.h" [10, 47, 42] none
  exact ⟨cutsShort_openHeader, ends.graph_eq 2 cutsShort_openHeader⟩

end TadsReference.Graph
