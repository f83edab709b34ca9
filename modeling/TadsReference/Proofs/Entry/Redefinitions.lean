import TadsReference.Proofs.Entry.CutShort
import TadsReference.Proofs.Entry.MacroLines
import TadsReference.Proofs.Macro.Fronts

/-!
# Macros that are defined anew

A line is expanded before it is recognised. So a line `#define NAME …` shows the name only if
neither the directive nor the name invokes a macro. Where the name already stands for a macro
without parameters, the body of this macro takes the place of the name, and the macro is never
defined anew: `macroLine_of_written`.
-/

namespace TadsReference

open Identifier Macro

namespace RawLine

/-- The text by which a line would be classified if no macro was expanded in it. -/
def shown (raw : RawLine) : List Char :=
  SourceLine.shown ⟨raw.number, raw.text, raw.mirror⟩

/-- Whether a line is classified by its mirror, in which the macros have been expanded before. -/
def IsMirrored (raw : RawLine) : Prop :=
  ∃ mirror ∈ raw.mirror, "propertyset ".toList.isPrefixOf (Text.trim mirror) = false

end RawLine

variable {scope : MacroScope} {definition old : MacroDefinition} {name : String}
  {tail text directive : List Char}

/-! ### Lines that are handed out -/

namespace Reader

variable {reader behind : Reader} {raw : RawLine} {following : LineSource} {line : SourceLine}

/-- The first of the lines into which an expanded text is divided. -/
theorem headD_pieces (text : List Char) :
    (pieces text).headD [] = Text.dropEndWhile (· == '\r') (text.takeWhile (· != '\n')) := by
  rw [← Text.headD_splitOn, pieces]
  cases text.splitOn '\n' <;> rfl

/-- The first line of what becomes of a raw line is handed out. -/
theorem exists_expanded_of_nextLine (fresh : reader.pending = [])
    (read : reader.source.read? = some (raw, following))
    (next : reader.nextLine = (.ok (some line), behind)) :
    ∃ text, (expandRaw reader.macros raw following).1 = .ok text ∧
      line.text = (pieces text).headD [] ∧ line.mirror = raw.mirror := by
  simp only [nextLine, fresh, read] at next
  split at next
  · cases next
  · next text source expands =>
      cases next
      exact ⟨text, by rw [expands], rfl, rfl⟩

end Reader

/-! ### What stays of a line that is expanded -/

/-- What stands before the name of a macro invokes no macro, unless one without parameters has the
name of the directive. -/
theorem IsDirective.front (isDirective : IsDirective directive)
    (notDefine : ∀ definition ∈ scope.definitions, definition.name = "define" →
      definition.parameters ≠ []) (rest : List Char) :
    scope.Front directive rest := by
  obtain @⟨margin, gap, between, isMargin, isGap, isBetween, nonempty⟩ := isDirective
  have apart : Apart (between ++ rest) := apart_between isBetween nonempty
  have spares : scope.Spares "define".toList (between ++ rest) := by
    intro definition isDefinition named
    refine ⟨notDefine definition isDefinition (String.toList_inj.mp named), ?_⟩
    intro opens
    cases between with
    | nil => contradiction
    | cons character between =>
        obtain rfl : character = '(' := Option.some.inj opens
        exact absurd (isBetween.isBlank '(' List.mem_cons_self) (by decide)
  apply (MacroScope.front_of_others isMargin.isOther _).append
  apply MacroScope.Front.other (by decide)
  apply (MacroScope.front_of_others isGap.isOther _).append
  exact .name (by decide) apart spares
    (MacroScope.front_of_others isBetween.isOther rest)

theorem IsDirective.not_mem (isDirective : IsDirective directive) : '\n' ∉ directive := by
  obtain @⟨margin, gap, between, isMargin, isGap, isBetween, nonempty⟩ := isDirective
  have ofGap {gap : List Char} (isGap : Text.IsGap gap) : '\n' ∉ gap :=
    fun isFeed => (isGap _ isFeed).2 rfl
  simp [ofGap isMargin, ofGap isGap, ofGap isBetween]

namespace WritesMacro

/-- The directive and the name stand in the first line of the text. Neither of them holds a line
feed, so cutting the text at its first line feed takes only something of the body away. -/
theorem firstLine (written : WritesMacro name tail text) :
    WritesMacro name (tail.takeWhile (· != '\n')) (text.takeWhile (· != '\n')) := by
  obtain ⟨directive, isDirective, rfl⟩ := written.shape
  refine ⟨written.isRun, written.apart.of_prefix (List.takeWhile_prefix _), directive, isDirective,
    ?_⟩
  rw [List.takeWhile_append_of_pos, List.takeWhile_append_of_pos]
  · intro character isInName
    have isIdentifier := written.isRun.all character isInName
    rw [bne_iff_ne]
    rintro rfl
    contradiction
  · intro character isInDirective
    rw [bne_iff_ne]
    rintro rfl
    exact isDirective.not_mem isInDirective

/-- The line that is handed out for a raw line writes the definition that the raw line writes, if
its front invokes no macro. -/
theorem of_expandRaw {raw : RawLine} {source : LineSource}
    (written : WritesMacro name tail raw.text) (number : source.number = raw.number)
    (notDefine : ∀ definition ∈ scope.definitions, definition.name = "define" →
      definition.parameters ≠ []) (spares : scope.Spares name.toList tail)
    (expands : (Reader.expandRaw (some scope) raw source).1 = .ok text) :
    ∃ rest, WritesMacro name rest ((Reader.pieces text).headD []) := by
  obtain ⟨directive, isDirective, shape⟩ := written.shape
  have isFront : scope.Front (directive ++ name.toList) tail :=
    (isDirective.front notDefine _).append
      (MacroScope.front_of_run written.isRun written.apart spares)
  rw [← List.append_assoc] at shape
  obtain ⟨expanded, rfl, apart⟩ :=
    Reader.exists_of_expandRaw number shape isFront written.apart expands
  rw [List.append_assoc, Reader.headD_pieces]
  have whole : WritesMacro name expanded (directive ++ (name.toList ++ expanded)) :=
    ⟨written.isRun, apart, directive, isDirective, rfl⟩
  refine ⟨_, whole.firstLine.dropEndWhile ?_⟩
  intro character isIdentifier
  rw [beq_eq_false_iff_ne]
  rintro rfl
  contradiction

end WritesMacro

/-! ### What does not stand in a line that is expanded -/

/-- A normal text names no macro without parameters, since such a name would be an invocation by
itself. -/
theorem MacroScope.parameters_ne_nil_of_isNormal (normal : scope.IsNormal text)
    (isDefinition : definition ∈ scope.definitions)
    (isName : definition.name.toList ∈ names text) : definition.parameters ≠ [] := by
  induction text using run_induction with
  | nil =>
      rw [names_nil] at isName
      contradiction
  | other character rest isOther ih =>
      rw [names_other isOther] at isName
      exact ih ((everywhere_other isOther).mp normal) isName
  | identifier run rest isRun apart ih =>
      obtain ⟨stays, normal⟩ := (everywhere_run isRun apart).mp normal
      rw [names_run isRun apart] at isName
      rcases List.mem_cons.mp isName with named | isLater
      · exact (stays definition isDefinition named).1
      · exact ih normal isLater

/-- Cutting a text at its end takes no part of an identifier away. -/
theorem names_dropEndWhile {drops : Char → Bool}
    (stays : ∀ character, isIdentifierCharacter character = true → drops character = false)
    (text : List Char) : names (Text.dropEndWhile drops text) = names text := by
  obtain ⟨dropped, divided, all⟩ := Text.exists_dropEndWhile_append drops text
  conv_rhs => rw [divided]
  apply (names_append_right _ _).symm
  intro character isDropped
  rw [Bool.eq_false_iff]
  intro isIdentifier
  have drop := all character isDropped
  rw [stays character isIdentifier] at drop
  contradiction

/-- The names by which a line is recognised stand in the text of which it is the first line.
Trimming takes away blanks, carriage returns and the margin, none of which belongs to a name. -/
theorem names_body_subset {line : SourceLine} (shows : line.shown = (Reader.pieces text).headD []) :
    names line.body ⊆ names text := by
  have margin : names line.body = names (Text.trimEnd line.shown) := by
    conv_rhs =>
      rw [← List.takeWhile_append_dropWhile (p := (· == ' ')) (l := Text.trimEnd line.shown)]
    apply (names_append_left _ _).symm
    intro character isMargin
    have isSpace := List.all_eq_true.mp List.all_takeWhile character isMargin
    rw [eq_of_beq isSpace]
    rfl
  have returns : ∀ character, isIdentifierCharacter character = true →
      (character == '\r') = false := by
    intro character isIdentifier
    rw [beq_eq_false_iff_ne]
    rintro rfl
    contradiction
  have cut : text.takeWhile (· != '\n') ++ text.dropWhile (· != '\n') = text :=
    List.takeWhile_append_dropWhile
  have apart : Apart (text.dropWhile (· != '\n')) := by
    intro character isHead
    have isFeed := List.head?_dropWhile_not (· != '\n') text
    rw [isHead] at isFeed
    obtain rfl : character = '\n' := by simpa using isFeed
    rfl
  rw [margin, Text.trimEnd, names_dropEndWhile fun _ => Text.isBlank_of_isIdentifierCharacter,
    shows, Reader.headD_pieces, names_dropEndWhile returns]
  conv_rhs => rw [← cut, names_append apart]
  exact List.subset_append_left _ _

namespace LineShape

variable {isHeader transient : Bool} {indent : Nat} {token : String} {rest body : List Char}

theorem form_ofName_ne_macroDefinition :
    (ofName isHeader indent transient token rest).form ≠ .macroDefinition tail := by
  rw [ofName]
  dsimp only
  repeat' split
  all_goals
    intro form
    contradiction

/-- The names in a definition stand behind the first token of the line. -/
theorem names_subset_of_form_ofFirst
    (form : (ofFirst isHeader indent transient token rest).form = .macroDefinition tail) :
    names tail ⊆ names rest := by
  rcases ofFirst_cases isHeader indent transient token rest with
    ⟨ofKeyword, isKeyword, same⟩ | same | same
  · rw [same] at form
    cases isKeyword with
    | macroDefinition =>
        cases form
        exact Token.names_next_subset rest
    | _ => contradiction
  · rw [same] at form
    exact absurd form form_ofName_ne_macroDefinition
  · rw [same] at form
    exact absurd form form_ofName_ne_macroDefinition

/-- The names in a definition stand in the line. -/
theorem names_subset_of_form
    (form : (ofLine isHeader indent body).form = .macroDefinition tail) :
    names tail ⊆ names body := by
  obtain ⟨transient, text, ofBody, same⟩ := exists_ofLine_eq_ofFirst isHeader indent body
  rw [same] at form
  have subset : names tail ⊆ names text :=
    List.Subset.trans (names_subset_of_form_ofFirst form) (Token.names_next_subset text)
  rcases ofBody with rfl | rfl
  · exact subset
  · exact List.Subset.trans subset (Token.names_next_subset body)

end LineShape

/-- A header's line defines no macro under the name of one without parameters by which it has been
expanded, and leaves this one as it is. -/
structure KeepsMacro (old : MacroDefinition) (outcome : LineOutcome) : Prop where
  unrecorded : ∀ definition ∈ outcome.entries.filterMap Entry.macroDefinition?,
    definition.name ≠ old.name
  stands : ∀ next later, outcome.after = .ok (next, later) →
    ∃ wider, later.macros = some wider ∧ old ∈ wider.definitions

section Keeps

variable {line : SourceLine} {reader : Reader} {context : Context}

theorem keepsMacro_quiet (macros : reader.macros = some scope) (isOld : old ∈ scope.definitions)
    (languageSeen : Bool) : KeepsMacro old (LineOutcome.quiet languageSeen context reader) where
  unrecorded := nofun
  stands := by
    rintro next later ⟨⟩
    exact ⟨scope, macros, isOld⟩

theorem mem_define_of_ne (isOld : old ∈ scope.definitions) (differs : definition.name ≠ old.name) :
    old ∈ (scope.define definition).definitions :=
  List.mem_cons_of_mem _ (List.mem_filter.mpr ⟨isOld, by simpa using differs.symm⟩)

/-- A macro that a line records is named behind the directive. -/
theorem mem_names_of_recognise {indent number : Nat} {sourceText body : List Char}
    {found : Recognised} (recognised : context.recognise indent number sourceText reader
      (LineShape.ofLine true indent body).form = .ok found)
    (isRecorded : definition ∈ found.entry.bind Entry.macroDefinition?)
    (isRun : IsRun definition.name.toList) : definition.name.toList ∈ names body := by
  obtain ⟨entry, isEntry, defines⟩ := Option.bind_eq_some_iff.mp isRecorded
  have declares := Context.mayDeclare_of_recognise recognised entry isEntry
  generalize formed : (LineShape.ofLine true indent body).form = form at declares
  unfold Entry.macroDefinition? at defines
  split at defines
  · cases defines
    cases declares with
    | macroDefinition first =>
        apply LineShape.names_subset_of_form formed
        rw [Token.names_of_next? first, names_isRun isRun]
        exact List.mem_cons_self
  · contradiction

/-- A definition that is recorded has a name that stands in the line. The line is normal, so the
name is not that of the macro without parameters, and this one stays as it is. -/
theorem keepsMacro_ofBody {body : List Char} (within : names body ⊆ names text)
    (normal : scope.IsNormal text) (macros : reader.macros = some scope)
    (isOld : old ∈ scope.definitions) (bare : old.parameters = []) (isRun : IsRun old.name.toList)
    (languageSeen : Bool) (indent : Nat) :
    KeepsMacro old (LineOutcome.ofBody true languageSeen context indent body line reader) := by
  simp only [LineOutcome.ofBody]
  split
  · exact keepsMacro_quiet macros isOld _
  · split
    · next found recognised =>
        have unrecorded : ∀ definition ∈ found.entry.bind Entry.macroDefinition?,
            definition.name ≠ old.name := by
          intro definition isRecorded sameName
          have isName := mem_names_of_recognise recognised isRecorded (sameName ▸ isRun)
          rw [sameName] at isName
          exact MacroScope.parameters_ne_nil_of_isNormal normal isOld (within isName) bare
        constructor
        · intro definition isRecorded
          apply unrecorded
          cases entry : found.entry <;> simp_all
        · rintro next later ⟨⟩
          rcases (Context.recogniser_recognise _ _ _ _ _).macros_of_ok recognised with
            same | ⟨definition, isRecorded, same⟩
          · exact ⟨scope, same.trans macros, isOld⟩
          · rw [macros] at same
            exact ⟨_, same, mem_define_of_ne isOld (unrecorded definition isRecorded)⟩
    · constructor
      · exact List.forall_mem_nil _
      · rintro next later ⟨⟩

/-- The same holds of the whole line, which shows nothing but the first line of the expanded
text. -/
theorem keepsMacro_of_expanded (shows : line.shown = (Reader.pieces text).headD [])
    (normal : scope.IsNormal text) (macros : reader.macros = some scope)
    (isOld : old ∈ scope.definitions) (bare : old.parameters = []) (isRun : IsRun old.name.toList)
    (languageSeen : Bool) :
    KeepsMacro old (LineOutcome.ofLine true languageSeen context line reader) := by
  simp only [LineOutcome.ofLine, if_true]
  split
  · exact keepsMacro_quiet macros isOld _
  · exact keepsMacro_ofBody (names_body_subset shows) normal macros isOld bare isRun _ _

end Keeps

/-! ### The full account -/

/-- What becomes of a line of a header that is written as the definition of a macro, if its reader
expands by a scope. -/
structure MacroLine (scope : MacroScope) (raw : RawLine) (context : Context) (line : SourceLine)
    (reader : Reader) (name : String) (tail : List Char) : Prop where
  /-- The line shows the definition under its name, unless a macro is invoked by the directive or by
  the name. A line that has been expanded before always does. -/
  shows : raw.IsMirrored ∨
      (∀ definition ∈ scope.definitions, definition.name = "define" → definition.parameters ≠ []) ∧
        scope.Spares name.toList tail →
    ∃ rest, WritesMacro name rest line.shown
  /-- What it shows is recorded and takes the place of an earlier definition. -/
  records : ∀ rest, WritesMacro name rest line.shown →
    RecordsMacro scope context line reader name rest
  /-- A macro without parameters is invoked by its name, so it is not defined anew. -/
  keeps : ¬raw.IsMirrored → ∀ old ∈ scope.definitions, old.parameters = [] →
    IsRun old.name.toList → ∀ languageSeen,
      KeepsMacro old (LineOutcome.ofLine true languageSeen context line reader)

theorem RawLine.shown_of_not_isMirrored {raw : RawLine} {line : SourceLine}
    (own : ¬raw.IsMirrored) (mirror : line.mirror = raw.mirror) :
    line.shown = line.text ∧ raw.shown = raw.text := by
  simp only [IsMirrored, not_exists, not_and, Bool.not_eq_false] at own
  cases mirrored : raw.mirror with
  | none => simp only [shown, SourceLine.shown, mirror, mirrored, and_self]
  | some expanded =>
      have propertySet := own expanded mirrored
      simp only [shown, SourceLine.shown, mirror, mirrored, propertySet, if_true, and_self]

theorem RawLine.shown_of_isMirrored {raw : RawLine} {line : SourceLine}
    (mirrored : raw.IsMirrored) (mirror : line.mirror = raw.mirror) : line.shown = raw.shown := by
  obtain ⟨expanded, isMirror, noPropertySet⟩ := mirrored
  simp only [shown, SourceLine.shown, mirror, Option.mem_def.mp isMirror, noPropertySet,
    Bool.false_eq_true, if_false]

/-- Every line of a header that is written as the definition of a macro, whatever macros its reader
expands. -/
theorem macroLine_of_written {reader behind : Reader} {raw : RawLine} {following : LineSource}
    {line : SourceLine} (macros : reader.macros = some scope) (fresh : reader.pending = [])
    (read : reader.source.read? = some (raw, following))
    (next : reader.nextLine = (.ok (some line), behind))
    (written : WritesMacro name tail raw.shown) (context : Context) :
    MacroLine scope raw context line behind name tail := by
  have macrosBehind : behind.macros = some scope := (Reader.macros_of_nextLine next).trans macros
  obtain ⟨text, expands, firstLine, mirror⟩ := Reader.exists_expanded_of_nextLine fresh read next
  have number := LineSource.number_of_read? read
  rw [macros] at expands
  constructor
  · intro spared
    by_cases mirrored : raw.IsMirrored
    · exact ⟨tail, RawLine.shown_of_isMirrored mirrored mirror ▸ written⟩
    · obtain ⟨shows, own⟩ := RawLine.shown_of_not_isMirrored mirrored mirror
      obtain ⟨notDefine, spares⟩ := spared.resolve_left mirrored
      rw [own] at written
      rw [shows, firstLine]
      exact written.of_expandRaw number notDefine spares expands
  · exact fun rest shown => recordsMacro_of_writesMacro shown macrosBehind
  · intro own old isOld bare isRun languageSeen
    obtain ⟨joined, settled⟩ := Reader.exists_joined_of_expandRaw number expands
    obtain ⟨shows, _⟩ := RawLine.shown_of_not_isMirrored own mirror
    exact keepsMacro_of_expanded (shows.trans firstLine)
      (MacroScope.isNormal_of_expandAvailable settled) macrosBehind isOld bare isRun languageSeen

/-! ### Defining a size anew -/

/-- A macro with a parameter that is not used where the name is defined anew. -/
def sizeInUnits : MacroDefinition where
  name := "SIZE"
  parameters := ["unit"]
  body := "10 unit"

/-- A reader with one macro in front of a line that defines another one. -/
def resizedReader : Reader :=
  .ofContent "sizes.h" "#define SIZE 20\n".toUTF8.toList none
    (some (MacroScope.empty.define sizeInUnits))

/-- The raw line that defines the macro. -/
def resizedLine : RawLine where
  number := 1
  text := "#define SIZE 20".toList
  mirror := none

/-- A directive with one blank behind it writes the definition of the name that follows. -/
theorem writesMacro_define (isRun : IsRun name.toList) (apart : Apart tail) :
    WritesMacro name tail ("#define ".toList ++ (name.toList ++ tail)) where
  isRun := isRun
  apart := apart
  shape := by
    have isSpace : Text.IsGap [' '] := by
      rintro _ (_ | _)
      · decide
      · contradiction
    exact ⟨_, @IsDirective.intro [] [] [' '] nofun nofun isSpace nofun, rfl⟩

/-- The line is read as it is written, since neither the directive nor the name invokes the macro
that the reader has. -/
theorem macroLine_resized :
    ∃ following line behind,
      resizedReader.macros = some (MacroScope.empty.define sizeInUnits) ∧
      resizedReader.pending = [] ∧
      resizedReader.source.read? = some (resizedLine, following) ∧
      resizedReader.nextLine = (.ok (some line), behind) ∧
      WritesMacro "SIZE" " 20".toList resizedLine.shown ∧
      MacroLine (MacroScope.empty.define sizeInUnits) resizedLine .start line behind "SIZE"
        " 20".toList := by
  have written : WritesMacro "SIZE" " 20".toList resizedLine.shown :=
    writesMacro_define (by decide) (apart_cons (by decide))
  have read : resizedReader.source.read? = some (resizedLine, ⟨[], [], none, 1, 1⟩) := by
    decide +kernel
  have next : resizedReader.nextLine =
      (.ok (some ⟨1, "#define SIZE 20".toList, none⟩), resizedReader.nextLine.2) :=
    Prod.ext (by decide +kernel) rfl
  exact ⟨_, _, _, rfl, rfl, read, next, written,
    macroLine_of_written rfl rfl read next written .start⟩

/-- A file goes on behind a definition that is complete on its line. -/
theorem FileOutcome.entries_ofLines_of_writesMacro {reader behind : Reader} {line : SourceLine}
    {context : Context} {body : String} {languageSeen : Bool}
    (next : reader.nextLine = (.ok (some line), behind)) (macros : reader.macros = some scope)
    (written : WritesMacro name tail line.shown) (noList : (Text.trimEnd tail).head? ≠ some '(')
    (complete : MacroBody.continueOn [] (Text.trimEnd tail) = .complete body) :
    (ofLines true languageSeen context reader).entries =
      .declaration name context.comment line.number (.macroDefinition [] body) ::
        (ofLines true languageSeen { context with comment := "" }
          (behind.define ⟨name, [], body⟩)).entries := by
  have records : RecordsMacro scope context line behind name tail :=
    recordsMacro_of_writesMacro written ((Reader.macros_of_nextLine next).trans macros)
  have outcome := (records.complete _ _ _ (MacroBody.read_of_complete noList complete)).1
    languageSeen
  rw [ofLines_of_complete next (congrArg LineOutcome.after outcome), outcome]
  rfl

/-- A reader of a header that defines the same name twice. -/
def sizesReader : Reader :=
  .ofContent "sizes.h" "#define SIZE 10\n#define SIZE 20\n".toUTF8.toList none (some .empty)

/-- The reader behind the first line of the file. -/
def sizesReaderBehind : Reader :=
  sizesReader.nextLine.2.define ⟨"SIZE", [], "10"⟩

/-- The second definition is read under the name that the first one puts in its place. The two
entries declare different macros, where the header defines one name twice. -/
theorem not_redefined_sizes :
    (∃ raw ∈ sizesReader.source.ahead, raw.number = 2 ∧ WritesMacro "SIZE" " 20".toList raw.shown) ∧
      (FileOutcome.ofFile true false sizesReader).entries =
        [.declaration "SIZE" "" 1 (.macroDefinition [] "10"),
          .declaration "10" "" 2 (.macroDefinition [] "20")] := by
  constructor
  · have ahead : sizesReader.source.ahead =
        [⟨1, "#define SIZE 10".toList, none⟩, ⟨2, "#define SIZE 20".toList, none⟩] := by
      decide +kernel
    rw [ahead]
    exact ⟨_, List.mem_cons_of_mem _ List.mem_cons_self, rfl,
      writesMacro_define (by decide) (apart_cons (by decide))⟩
  · have first : sizesReader.nextLine =
        (.ok (some ⟨1, "#define SIZE 10".toList, none⟩), sizesReader.nextLine.2) :=
      Prod.ext (by decide +kernel) rfl
    have second : sizesReaderBehind.nextLine =
        (.ok (some ⟨2, "#define 10 20".toList, none⟩), sizesReaderBehind.nextLine.2) :=
      Prod.ext (by decide +kernel) rfl
    have ended : (sizesReaderBehind.nextLine.2.define ⟨"10", [], "20"⟩).nextLine =
        (.ok none, (sizesReaderBehind.nextLine.2.define ⟨"10", [], "20"⟩).nextLine.2) :=
      Prod.ext (by decide +kernel) rfl
    have macrosBehind : sizesReaderBehind.macros =
        some (MacroScope.empty.define ⟨"SIZE", [], "10"⟩) := by
      rw [sizesReaderBehind, Reader.define, Reader.macros_of_nextLine first]
      rfl
    have secondWritten : WritesMacro "10" " 20".toList
        (SourceLine.shown ⟨2, "#define 10 20".toList, none⟩) :=
      writesMacro_define (by decide) (apart_cons (by decide))
    have firstWritten : WritesMacro "SIZE" " 10".toList
        (SourceLine.shown ⟨1, "#define SIZE 10".toList, none⟩) :=
      writesMacro_define (by decide) (apart_cons (by decide))
    rw [FileOutcome.ofFile, FileOutcome.entries_ofLines_of_writesMacro first rfl firstWritten
      (by decide) (by decide +kernel : _ = Progress.complete "10"), ← sizesReaderBehind,
      FileOutcome.entries_ofLines_of_writesMacro second macrosBehind secondWritten
      (by decide) (by decide +kernel : _ = Progress.complete "20"),
      FileOutcome.ofLines_of_end ended]
    rfl

end TadsReference
