import TadsReference.Proofs.Entry.CutShort
import TadsReference.Proofs.Entry.FunctionBodies
import TadsReference.Proofs.Entry.InStep
import TadsReference.Proofs.Text.Words

/-!
# Constructs over known lines

Where it is known which lines a reader hands out, it is known what becomes of a construct that
takes them: `gather_of_completes`. A plain reader hands out the raw lines that are ahead of it:
`Plain.exists_reads`. So a file is read on behind a construct the lines of which are known:
`ofLines_of_completes`.
-/

namespace TadsReference

/-- A line that does not end with a carriage return is handed out as it is. -/
theorem RawLine.text_plain {raw : RawLine} (ends : raw.text.getLast? ≠ some '\r') :
    raw.plain.text = raw.text :=
  Text.dropEndWhile_of_getLast?_ne ends

/-- A line is classified by its text if its mirror, where there is one, does not differ. -/
theorem RawLine.shown_plain {raw : RawLine} (whole : raw.plain.text = raw.text)
    (mirrored : ∀ mirror ∈ raw.mirror, mirror = raw.text) : raw.plain.shown = raw.text := by
  rcases raw with ⟨number, text, mirror⟩
  cases mirror with
  | none => exact whole
  | some mirror =>
      obtain rfl : mirror = text := mirrored mirror rfl
      simp only [SourceLine.shown, RawLine.plain] at whole ⊢
      rw [whole, ite_self]

namespace Reader

variable {State Value : Type} {step : State → List Char → Progress State Value}
  {progress : Progress State Value} {value : Value} {reader behind later : Reader}
  {lines : List SourceLine} {first : List Char} {texts : List (List Char)} {more : List RawLine}

/-! ### Constructs -/

theorem requireLine_of_nextLine {line : SourceLine}
    (next : reader.nextLine = (.ok (some line), behind)) :
    reader.requireLine = (.ok line.text, behind) := by
  rw [requireLine, next]

/-- A construct takes some lines and is complete then. -/
inductive Completes (step : State → List Char → Progress State Value) :
    Progress State Value → List (List Char) → Value → Prop
  | complete (value : Value) : Completes step (.complete value) [] value
  | line {state : State} {text : List Char} {texts : List (List Char)} {value : Value}
      (rest : Completes step (step state text) texts value) :
      Completes step (.waiting state) (text :: texts) value

/-- The construct takes just these lines from a reader. The induction goes along the lines that the
construct takes. -/
theorem gather_of_completes (completes : Completes step progress texts value)
    (reads : reader.Reads lines later) (shown : lines.map (·.text) = texts) :
    reader.gather step progress = .ok (value, later) := by
  induction completes generalizing reader lines with
  | complete value =>
      obtain rfl := List.map_eq_nil_iff.mp shown
      cases reads with
      | nothing => rw [gather]
  | line _ ih =>
      obtain ⟨line, others, rfl, rfl, othersShown⟩ := List.map_eq_cons_iff.mp shown
      cases reads with
      | line next rest =>
          rw [gather_of_requireLine (requireLine_of_nextLine next)]
          exact ih rest othersShown

/-! ### Lines of a plain reader -/

/-- A plain reader hands out the raw lines that are ahead of it, and stands behind them then. A
plain reader has nothing to look ahead for, so each line takes it one raw line further. -/
theorem Plain.exists_reads {raws : List RawLine} (plain : reader.Plain)
    (ahead : reader.source.ahead = raws ++ more) :
    ∃ later, reader.Reads (raws.map RawLine.plain) later ∧ later.Plain ∧
      later.source.ahead = more ∧ later.number = reader.number + raws.length := by
  induction raws generalizing reader with
  | nil => exact ⟨reader, .nothing, plain, ahead, rfl⟩
  | cons raw raws ih =>
      have foresees : reader.Foresees fun _ => True := ⟨plain, by simp⟩
      rcases foresees.nextLine with ⟨ended, _⟩ | ⟨first, following, read, _, behind, next⟩
      · rw [LineSource.ahead_of_read?_none ended] at ahead
        contradiction
      · rw [LineSource.ahead_of_read? read, List.cons_append] at ahead
        obtain ⟨rfl, aheadBehind⟩ := List.cons.inj ahead
        obtain ⟨later, reads, plainLater, aheadLater, numbered⟩ := ih behind.plain aheadBehind
        have numberedNext := (plain.of_nextLine next).2.1
        refine ⟨later, .line next reads, plainLater, aheadLater, ?_⟩
        rw [numbered, numberedNext, List.length_cons]
        omega

/-- Texts are the next lines of a plain reader, and more lines follow them. A mirror has the first
of them as well. -/
structure Offers (texts : List (List Char)) (more : List RawLine) (reader : Reader) : Prop where
  plain : reader.Plain
  ahead : ∃ raws : List RawLine, raws.map (·.text) = texts ∧ reader.source.ahead = raws ++ more ∧
    ∀ raw ∈ raws.head?, ∀ mirror ∈ raw.mirror, mirror = raw.text

/-- The first of the texts is shown by the next line, and the others are read behind it. Returns at
the ends would be taken for line ends, so no text may have one. -/
theorem Offers.exists_first (offers : Offers (first :: texts) more reader)
    (noReturns : ∀ text ∈ first :: texts, text.getLast? ≠ some '\r') :
    ∃ line behind lines later, reader.nextLine = (.ok (some line), behind) ∧ line.shown = first ∧
      behind.Reads lines later ∧ lines.map (·.text) = texts ∧ later.Plain ∧
        later.source.ahead = more ∧ later.number = reader.number + (texts.length + 1) := by
  obtain ⟨plain, raws, shown, ahead, mirrored⟩ := offers
  have whole : (raws.map RawLine.plain).map (·.text) = first :: texts := by
    rw [← shown, List.map_map]
    apply List.map_congr_left
    intro raw isAhead
    apply RawLine.text_plain
    apply noReturns
    rw [← shown]
    exact List.mem_map_of_mem isAhead
  have count : raws.length = texts.length + 1 := by
    rw [← List.length_map (·.text), shown, List.length_cons]
  obtain ⟨later, reads, plainLater, aheadLater, numbered⟩ := plain.exists_reads ahead
  obtain ⟨raw, others, rfl, isFirst, _⟩ := List.map_eq_cons_iff.mp shown
  rw [List.map_cons, List.map_cons] at whole
  obtain ⟨sameText, sameTexts⟩ := List.cons.inj whole
  rw [List.map_cons] at reads
  cases reads with
  | @line _ behind _ _ _ next rest =>
      refine ⟨raw.plain, behind, others.map RawLine.plain, later, next, ?_, rest, sameTexts,
        plainLater, aheadLater, ?_⟩
      · rw [← isFirst]
        exact RawLine.shown_plain (sameText.trans isFirst.symm) (mirrored raw rfl)
      · rw [numbered, count]

end Reader

/-- A file is read on behind a construct that is complete with the lines that the reader offers. It
has to be known what the first line leads to if the construct is complete. -/
theorem FileOutcome.ofLines_of_completes {State Value : Type}
    {step : State → List Char → Progress State Value} {progress : Progress State Value}
    {value : Value} {first : List Char} {texts : List (List Char)} {more : List RawLine}
    {reader : Reader} {isHeader languageSeen seen : Bool} {context next : Context}
    {entries : List Entry} (offers : reader.Offers (first :: texts) more)
    (noReturns : ∀ text ∈ first :: texts, text.getLast? ≠ some '\r')
    (completes : Reader.Completes step progress texts value)
    (outcome : ∀ line behind later, line.number = reader.number + 1 → line.shown = first →
      behind.gather step progress = .ok (value, later) → later.Plain →
        LineOutcome.ofLine isHeader languageSeen context line behind =
          ⟨entries, seen, .ok (next, later)⟩) :
    ∃ later : Reader, later.Plain ∧ later.source.ahead = more ∧
      later.number = reader.number + (texts.length + 1) ∧
        ofLines isHeader languageSeen context reader =
          (ofLines isHeader seen next later).prepend entries := by
  obtain ⟨line, behind, lines, later, read, opens, reads, shown, plain, ahead, numbered⟩ :=
    offers.exists_first noReturns
  have number : line.number = reader.number + 1 := by
    have numberedNext := offers.plain.of_nextLine read
    rw [numberedNext.2.2, numberedNext.2.1]
  have found := outcome line behind later number opens
    (Reader.gather_of_completes completes reads shown) plain
  refine ⟨later, plain, ahead, numbered, ?_⟩
  rw [ofLines_of_complete read (congrArg LineOutcome.after found), found]

end TadsReference
