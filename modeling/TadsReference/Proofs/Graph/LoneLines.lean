import TadsReference.Proofs.Entry.CutShort
import TadsReference.Proofs.Entry.InStep
import TadsReference.Proofs.Graph.Unlinked

/-!
# Headers read line by line

Most forms of lines take none of the lines behind them. A header that has no others is read without
a reader: what each of its lines declares depends on the context alone. `read_of_loneLines` gives
the entries of such a header as a recursion over its raw lines.
-/

namespace TadsReference

variable {languageSeen : Bool} {context : Context} {reader : Reader}

namespace LineForm

/-- The forms that take none of the lines behind them, wherever they stand. -/
def standsAlone : LineForm → Bool
  | intrinsicClass _ => true
  | functionSet => true
  | classHead _ => true
  | modifyBlock _ => true
  | enumeration _ => true
  | assignment _ _ => true
  | objectHead _ _ _ => true
  | other => true
  | _ => false

end LineForm

/-- The form of a line in a header. -/
def SourceLine.headerForm (line : SourceLine) : LineForm :=
  let text := Text.trimEnd line.shown
  let body := text.dropWhile (· == ' ')
  (LineShape.ofLine true (text.length - body.length) body).form

/-- A raw line that takes none of the lines behind it in a header. -/
def RawLine.Lone (raw : RawLine) : Prop :=
  raw.plain.headerForm.standsAlone = true

/-- Whether a raw line is alone can be checked by its form. -/
instance : DecidablePred RawLine.Lone :=
  fun raw => inferInstanceAs (Decidable (raw.plain.headerForm.standsAlone = true))

/-- A reader that has come to the end of its file. -/
def Reader.ended : Reader :=
  .ofContent "" [] none none

/-- What is recognised in a line that stands alone does not depend on the reader. -/
theorem Context.exists_recognise_eq (context : Context) (indent line : Nat)
    (sourceText : List Char) {form : LineForm} (alone : form.standsAlone = true) :
    ∃ outcome, ∀ reader,
      context.recognise indent line sourceText reader form = Recognised.ofLine outcome reader := by
  cases form with
  | assignment name interfaceOnly =>
      simp only [recognise, recogniseProperty]
      split
      · exact ⟨_, fun _ => rfl⟩
      · exact ⟨_, fun _ => rfl⟩
  | objectHead name rest transient =>
      simp only [recognise]
      split
      · exact ⟨_, fun _ => rfl⟩
      · exact ⟨_, fun _ => rfl⟩
  | intrinsicClass rest => exact ⟨_, fun _ => rfl⟩
  | functionSet => exact ⟨_, fun _ => rfl⟩
  | classHead rest => exact ⟨_, fun _ => rfl⟩
  | modifyBlock rest => exact ⟨_, fun _ => rfl⟩
  | enumeration rest => exact ⟨_, fun _ => rfl⟩
  | other => exact ⟨_, fun _ => rfl⟩
  | _ => contradiction

namespace LineOutcome

/-- What is read from a body that stands alone is the same for every reader, and the reader is
handed on as it was. -/
theorem exists_ofBody_eq {line : SourceLine} {indent : Nat} {body : List Char}
    (alone : (LineShape.ofLine true indent body).form.standsAlone = true) :
    ∃ entries seen next, ∀ reader,
      ofBody true languageSeen context indent body line reader =
        ⟨entries, seen, .ok (next, reader)⟩ := by
  let shape := LineShape.ofLine true indent body
  let entered := if shape.closesBody then context.leaveBody else context
  rcases entered.exists_recognise_eq indent line.number line.text alone with
    ⟨outcome, recognised⟩
  simp only [ofBody]
  split
  · exact ⟨_, _, _, fun _ => rfl⟩
  · refine ⟨outcome.1.toList, languageSeen || shape.form.declaresLanguage, outcome.2, ?_⟩
    intro reader
    rw [recognised]
    rfl

/-- A line that stands alone leaves the reader as it is, and its outcome does not depend on it. -/
theorem exists_ofLine_eq {line : SourceLine} (alone : line.headerForm.standsAlone = true) :
    ∃ entries seen next, ∀ reader,
      ofLine true languageSeen context line reader = ⟨entries, seen, .ok (next, reader)⟩ := by
  simp only [ofLine, if_true]
  split
  · exact ⟨_, _, _, fun _ => rfl⟩
  · exact exists_ofBody_eq alone

end LineOutcome

namespace FileOutcome

/-- The entries of header lines that stand alone. -/
def entriesByLine (languageSeen : Bool) (context : Context) : List RawLine → List Entry
  | [] => []
  | raw :: raws =>
      let outcome := LineOutcome.ofLine true languageSeen context raw.plain .ended
      match outcome.after with
      | .ok (next, _) => outcome.entries ++ entriesByLine outcome.languageSeen next raws
      | .error _ => outcome.entries

/-- The entries of a file whose lines stand alone come line by line. The induction is on the lines
ahead of the reader, each of which is handed out as it was read. -/
theorem entries_ofLines_of_loneLines (languageSeen : Bool) (context : Context)
    (foresees : reader.Foresees RawLine.Lone) :
    (ofLines true languageSeen context reader).entries =
      entriesByLine languageSeen context reader.source.ahead := by
  generalize lines : reader.source.ahead = raws
  induction raws generalizing languageSeen context reader with
  | nil =>
      rcases foresees.nextLine with ⟨_, ended⟩ | ⟨raw, following, read, _⟩
      · rw [ofLines_of_end ended]
        rfl
      · rw [LineSource.ahead_of_read? read] at lines
        contradiction
  | cons first raws ih =>
      rcases foresees.nextLine with ⟨read, _⟩ | ⟨raw, following, read, alone, behind, next⟩
      · rw [LineSource.ahead_of_read?_none read] at lines
        contradiction
      · rw [LineSource.ahead_of_read? read] at lines
        obtain ⟨rfl, left⟩ := List.cons.inj lines
        rcases LineOutcome.exists_ofLine_eq alone
          with ⟨entries, seen, later, classified⟩
        rw [ofLines_of_complete next (congrArg LineOutcome.after (classified _)), classified,
          entriesByLine, classified, prepend, ih seen later behind left]

end FileOutcome

/-- A header all of whose lines stand alone is read line by line. -/
theorem Graph.read_of_loneLines (graph : Graph) (reading : FileReading)
    (isHeader : (graph.file reading.index).source.isHeader = true)
    (unexpanded : reading.macros = none)
    (lone : ∀ raw ∈ RawLine.ofContent reading.content reading.mirror, raw.Lone) :
    graph.read reading =
      graph.record reading.index
        (FileOutcome.entriesByLine reading.languageSeen .start
          (RawLine.ofContent reading.content reading.mirror)) := by
  have foresees :
      (Reader.ofContent reading.name reading.content reading.mirror none).Foresees RawLine.Lone :=
    Reader.foresees_ofContent lone
  have entries :=
    FileOutcome.entries_ofLines_of_loneLines reading.languageSeen .start foresees
  simp only [Graph.read, classifyFile, isHeader, unexpanded, FileOutcome.ofFile, entries]
  rfl

/-- Reading a single header all of whose lines stand alone. Its graph is then a term that can be
evaluated without a reader. -/
theorem Graph.readAll_header {graph : Graph} {name : String} {content : List UInt8}
    {entries : List Entry} (isHeader : (graph.file 0).source.isHeader = true)
    (lone : ∀ raw ∈ RawLine.ofContent content none, raw.Lone)
    (recognised :
      FileOutcome.entriesByLine false .start (RawLine.ofContent content none) = entries) :
    graph.readAll [⟨0, false, name, content, none, none⟩] = graph.record 0 entries := by
  rw [← recognised]
  exact read_of_loneLines graph _ isHeader rfl lone

end TadsReference
