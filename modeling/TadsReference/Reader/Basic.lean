import TadsReference.Macro.Expansion
import TadsReference.Reader.RawLine

/-!
# Readers

A reader hands out the lines of one source file in order. If it has a macro scope, the macros in a
line are expanded first, which may take in the lines that follow and may yield several lines.
-/

namespace TadsReference

/-- A line that a reader hands out. -/
structure SourceLine where
  /-- The number of the raw line that was read last for it. -/
  number : Nat
  /-- The raw line, or a line of its expansion. -/
  text : List Char
  /-- The mirror's line that goes with the raw line. -/
  mirror : Option (List Char)
deriving Repr, DecidableEq

/-- A reader in the middle of a source file. -/
structure Reader where
  /-- The short name of the file. -/
  file : String
  source : LineSource
  /-- The lines of an expansion that have not been handed out. -/
  pending : List (List Char)
  macros : Option MacroScope

namespace Reader

/-- A reader at the beginning of a file. -/
def ofContent (file : String) (content : List UInt8) (mirror : Option (List UInt8))
    (macros : Option MacroScope) : Reader where
  file := file
  source := .ofContent content mirror
  pending := []
  macros := macros

/-- The number of the raw line that was read last. -/
def number (reader : Reader) : Nat :=
  reader.source.number

/-- Makes a definition visible to the lines that follow. A reader that expands no macros ignores
it. -/
def define (definition : MacroDefinition) (reader : Reader) : Reader :=
  { reader with macros := reader.macros.map (·.define definition) }

/-- How many lines may be joined to a line whose argument list is open. -/
def joinLimit : Nat := 16

/-- Whether a line ends with a semicolon, blanks aside. -/
def endsStatement (line : List Char) : Bool :=
  (Text.trimEnd line).getLast? == some ';'

/-- The text of a raw line to which the lines behind it are joined. -/
def joinedText (raw : RawLine) (joined : List RawLine) : List Char :=
  raw.text ++ joined.flatMap fun line => ' ' :: Text.trim line.text

/-- Expands a raw line alone. An argument list that is open in it counts as plain text, and the
lines read ahead are handed back. -/
def expandAlone (scope : MacroScope) (raw : RawLine) (readAhead : List RawLine)
    (source : LineSource) : Except Failure (List Char) × LineSource :=
  (scope.expandAvailable raw.text, source.handBack readAhead raw.number)

/-- Whether a line may be joined to a raw line and the lines already joined to it. -/
def mayJoin (raw : RawLine) (joined : List RawLine) : Bool :=
  joined.length < joinLimit && !endsStatement (joined.getLast?.getD raw).text

theorem length_lt_of_mayJoin {raw : RawLine} {joined : List RawLine}
    (may : mayJoin raw joined = true) : joined.length < joinLimit := by
  simp only [mayJoin, Bool.and_eq_true, decide_eq_true_eq] at may
  exact may.1

/-- Expands a raw line with the lines that have been joined to it, and joins one more for as long
as an argument list is open at the end. If no more may be joined, or the next line is missing or
blank, the raw line is expanded alone. -/
def expandJoined (scope : MacroScope) (raw : RawLine) (joined : List RawLine)
    (source : LineSource) : Except Failure (List Char) × LineSource :=
  match scope.expandLine (joinedText raw joined) with
  | .error cause => (.error cause, source)
  | .ok (.complete text) => (.ok text, source)
  | .ok .incomplete =>
      if _may : mayJoin raw joined = true then
        match source.read? with
        | none => expandAlone scope raw joined source
        | some (line, behind) =>
            if Text.isBlankText line.text then expandAlone scope raw (joined ++ [line]) behind
            else expandJoined scope raw (joined ++ [line]) behind
      else expandAlone scope raw joined source
termination_by joinLimit - joined.length
decreasing_by
  have room := length_lt_of_mayJoin _may
  simp only [List.length_append, List.length_singleton]
  omega

/-- The text of a raw line after expansion, and the source behind the lines that went into it. -/
def expandRaw (macros : Option MacroScope) (raw : RawLine) (source : LineSource) :
    Except Failure (List Char) × LineSource :=
  match macros with
  | some scope => expandJoined scope raw [] source
  | none => (.ok raw.text, source)

/-- The lines of an expanded text, without the carriage returns at their ends. -/
def pieces (text : List Char) : List (List Char) :=
  (text.splitOn '\n').map (Text.dropEndWhile (· == '\r'))

/-- The next line, if there is one, and the reader behind it. -/
def nextLine (reader : Reader) : Except Failure (Option SourceLine) × Reader :=
  match reader.pending with
  | piece :: pending => (.ok (some ⟨reader.number, piece, none⟩), { reader with pending })
  | [] =>
      match reader.source.read? with
      | none => (.ok none, reader)
      | some (raw, following) =>
          match expandRaw reader.macros raw following with
          | (.error cause, source) => (.error cause, { reader with source })
          | (.ok text, source) =>
              (.ok (some ⟨source.number, (pieces text).headD [], raw.mirror⟩),
                { reader with source, pending := (pieces text).tail })

/-- The text of the next line. The end of the file is a failure. -/
def requireLine (reader : Reader) : Except Failure (List Char) × Reader :=
  match reader.nextLine with
  | (.ok (some line), behind) => (.ok line.text, behind)
  | (.ok none, behind) => (.error (.unexpectedEnd behind.file behind.number), behind)
  | (.error cause, behind) => (.error cause, behind)

/-! ### Progress -/

/-- What is left of a file: the raw lines, and then the lines of an expansion. -/
def remaining (reader : Reader) : Nat × Nat :=
  (reader.source.ahead.length, reader.pending.length)

/-- Whether less is left to one reader than to another. -/
def Behind (later earlier : Reader) : Prop :=
  Prod.Lex (· < ·) (· < ·) later.remaining earlier.remaining

/-- Whether no more is left to one reader than to another. -/
def NotBefore (later earlier : Reader) : Prop :=
  later.remaining = earlier.remaining ∨ later.Behind earlier

theorem Behind.wellFounded : WellFounded Behind :=
  InvImage.wf remaining (Prod.lex Nat.lt_wfRel Nat.lt_wfRel).wf

/-- A reader that is further on than another one is closer to the end of the file, so reading comes
to an end. -/
instance : WellFoundedRelation Reader where
  rel := Behind
  wf := Behind.wellFounded

theorem Behind.trans {first second third : Reader} (later : first.Behind second)
    (latest : second.Behind third) : first.Behind third := by
  simp only [Behind, Prod.lex_def] at later latest ⊢
  omega

theorem NotBefore.refl (reader : Reader) : reader.NotBefore reader :=
  Or.inl rfl

theorem Behind.notBefore {later earlier : Reader} (behind : later.Behind earlier) :
    later.NotBefore earlier :=
  Or.inr behind

theorem NotBefore.of_behind {first second third : Reader} (later : first.NotBefore second)
    (latest : second.Behind third) : first.Behind third := by
  rcases later with same | behind
  · simpa only [Behind, same] using latest
  · exact behind.trans latest

theorem NotBefore.trans {first second third : Reader} (later : first.NotBefore second)
    (latest : second.NotBefore third) : first.NotBefore third := by
  rcases latest with same | behind
  · rcases later with equal | before
    · exact Or.inl (equal.trans same)
    · right
      simpa only [Behind, ← same] using before
  · exact (later.of_behind behind).notBefore

theorem ahead_expandJoined_suffix (scope : MacroScope) (raw : RawLine) (joined : List RawLine)
    (source : LineSource) :
    (expandJoined scope raw joined source).2.ahead <:+ joined ++ source.ahead := by
  fun_induction expandJoined scope raw joined source with
  | case1 => simp
  | case2 => simp
  | case3 => simp [expandAlone]
  | case4 joined source _ _ line behind read =>
      simp [expandAlone, LineSource.ahead_of_read? read]
  | case5 joined source _ _ line behind read _ ih =>
      simpa [LineSource.ahead_of_read? read] using ih
  | case6 => simp [expandAlone]

/-- Expansion leaves the lines behind those that went into it. -/
theorem ahead_expandRaw_suffix (macros : Option MacroScope) (raw : RawLine)
    (source : LineSource) : (expandRaw macros raw source).2.ahead <:+ source.ahead := by
  cases macros with
  | none => exact List.suffix_refl _
  | some scope => exact ahead_expandJoined_suffix scope raw [] source

/-- A reader to which something is left is further on after the next line. Either a piece of the
last expansion is taken away, or a raw line is. -/
theorem behind_nextLine {reader : Reader} (left : reader.remaining ≠ (0, 0)) :
    reader.nextLine.2.Behind reader := by
  unfold nextLine
  split
  · next piece pending shape =>
      right
      simp [shape]
  · next shape =>
      split
      · next read =>
          have ended : reader.remaining = (0, 0) := by
            simp [remaining, shape, LineSource.ahead_of_read?_none read]
          contradiction
      · next raw following read =>
          have shorter := (ahead_expandRaw_suffix reader.macros raw following).length_le
          have first := LineSource.ahead_of_read? read
          split
          all_goals
            next expanded =>
              left
              simp only [expanded] at shorter
              simp only [first, List.length_cons]
              omega

theorem behind_of_nextLine {reader later : Reader} {line : SourceLine}
    (read : reader.nextLine = (.ok (some line), later)) : later.Behind reader := by
  have left : reader.remaining ≠ (0, 0) := by
    intro ended
    simp only [remaining, Prod.mk.injEq, List.length_eq_zero_iff] at ended
    cases found : reader.source.read? with
    | none => simp [nextLine, ended.2, found] at read
    | some next => simp [LineSource.ahead_of_read? found] at ended
  simpa only [read] using behind_nextLine left

theorem behind_of_requireLine {reader later : Reader} {line : List Char}
    (read : reader.requireLine = (.ok line, later)) : later.Behind reader := by
  unfold requireLine at read
  split at read
  · next found =>
      simp only [Prod.mk.injEq] at read
      rw [← read.2]
      exact behind_of_nextLine found
  · simp at read
  · simp at read

theorem remaining_define (definition : MacroDefinition) (reader : Reader) :
    (reader.define definition).remaining = reader.remaining :=
  rfl

end Reader

end TadsReference
