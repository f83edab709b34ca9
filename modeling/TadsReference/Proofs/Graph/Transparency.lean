import TadsReference.Proofs.Entry.UnusedMacros
import TadsReference.Proofs.Graph.Scopes

/-!
# Libraries that use no macro

If no line of a library names a macro that it sees, it makes no difference whether macros are
expanded: `ofInputs_expanding`.
-/

namespace TadsReference.Graph

/-- The macros that a line of the file at a position sees, when the files before it have been read:
those of the files that it includes, and those that are defined by the lines before that line. -/
def macrosSeen (graph : Graph) (languageSeen : Bool) (index : Nat) (input : InputFile)
    (line : Nat) : List MacroDefinition :=
  graph.visibleMacros index ++
    FileOutcome.macrosBefore (graph.file index).source.isHeader languageSeen .start
      (.ofContent input.source.shortName input.content input.mirror.content? none) line

/-- Whether no line of the file at a position names a macro that it sees. -/
def NamesNoMacro (graph : Graph) (languageSeen : Bool) (index : Nat) (input : InputFile) : Prop :=
  ∀ raw ∈ RawLine.ofContent input.content input.mirror.content?,
    ∀ definition ∈ graph.macrosSeen languageSeen index input raw.number,
      Identifier.occursIn definition.name raw.text = false

/-- Whether no line names a macro that it sees, when files are read from a position on. Files behind
one that cannot be read are not reached. -/
def UsesNoMacros (graph : Graph) (languageSeen : Bool) (index : Nat) : List InputFile → Prop
  | [] => True
  | input :: inputs =>
      ∀ reader, input.reader none = .ok reader →
        graph.NamesNoMacro languageSeen index input ∧
          (graph.classifyFile languageSeen index reader).graph.UsesNoMacros
            (graph.classifyFile languageSeen index reader).languageSeen (index + 1) inputs

variable {graph : Graph} {languageSeen : Bool} {index : Nat} {input : InputFile}
  {inputs : List InputFile}

theorem reader_expanding (input : InputFile) (scope : MacroScope) :
    input.reader (some scope) = (input.reader none).map (Reader.expanding scope) := by
  unfold InputFile.reader
  split <;> rfl

/-- A file that names no macro is classified the same with the macros that it sees and without. -/
theorem classifyFile_expanding (unnamed : graph.NamesNoMacro languageSeen index input) :
    graph.classifyFile languageSeen index
        ((Reader.ofContent input.source.shortName input.content
          input.mirror.content? none).expanding
          (.ofList (graph.visibleMacros index))) =
      graph.classifyFile languageSeen index
        (.ofContent input.source.shortName input.content input.mirror.content? none) := by
  have same := FileOutcome.ofLines_expanding (graph.file index).source.isHeader languageSeen .start
    (.ofContent input.source.shortName input.content input.mirror.content? none)
    (.ofList (graph.visibleMacros index)) (Reader.plain_ofContent _ _ _) ?_ ?_
  · simp only [classifyFile, FileOutcome.ofFile, same]
  · rintro raw isLine ⟨definition, isDefinition, isName⟩
    have isSeen : definition ∈ graph.macrosSeen languageSeen index input raw.number :=
      List.mem_append_left _ (MacroScope.mem_of_mem_definitions_ofList isDefinition)
    have occurs := Identifier.occursIn_iff.mpr isName
    simp [unnamed raw isLine definition isSeen] at occurs
  · intro raw isLine definition isDefinition
    exact unnamed raw isLine definition (List.mem_append_right _ isDefinition)

/-- The files are read one after the other, and each of them leaves the same graph with macros and
without. So the next one sees the same macros. -/
theorem readFrom_expanding (unused : graph.UsesNoMacros languageSeen index inputs) :
    readFrom true graph languageSeen index inputs =
      readFrom false graph languageSeen index inputs := by
  induction inputs generalizing graph languageSeen index with
  | nil => rfl
  | cons input inputs ih =>
      simp only [readFrom, scopeFor, if_true, Bool.false_eq_true, if_false, reader_expanding]
      cases starts : input.reader none with
      | error failure => rfl
      | ok reader =>
          rcases unused reader starts with ⟨unnamed, others⟩
          obtain rfl := exists_reading_of_reader starts
          simp only [Except.map, bind, Except.bind, classifyFile_expanding unnamed, ih others]

/-- Whether no line of a library names a macro that it sees, when its files are read in their
order. -/
def LibraryUsesNoMacros (inputs : List InputFile) : Prop :=
  ∀ order, ReadingOrder.positions (inputs.map (·.source)) = .ok order →
    (ofFiles ((order.filterMap (inputs[·]?)).map (·.source))).UsesNoMacros false 0
      (order.filterMap (inputs[·]?))

/-- The graph of a library that uses no macro is the same with macros and without. The order of the
files does not depend on macros either. -/
theorem ofInputs_expanding (inputs : List InputFile) (unused : LibraryUsesNoMacros inputs) :
    ofInputs true inputs = ofInputs false inputs := by
  rw [ofInputs, ofInputs]
  cases ordered : ReadingOrder.positions (inputs.map (·.source)) with
  | error failure => rfl
  | ok order =>
      simp only [bind, Except.bind, ofOrdered, readFrom_expanding (unused order ordered)]

/-- A header that defines a macro. -/
def sizeHeader : InputFile :=
  .ofContent "size.h" "#define SIZE 1\n".toUTF8.toList .absent

/-- A file that includes the header and does not name the macro. -/
def resizedFile : InputFile :=
  .ofContent "resized.t" "#include \"size.h\"\nclass Resized: Thing\n".toUTF8.toList .absent

/-- The header declares its macro, on the first line. -/
theorem ofFile_sizeHeader :
    FileOutcome.ofFile true false (.ofContent "size.h" sizeHeader.content none none) =
      ⟨[.declaration "SIZE" "" 1 (.macroDefinition [] "1")], false, .ok 1⟩ := by
  let text := "#define SIZE 1".toList
  let behind : Reader := ⟨"size.h", ⟨[], [], none, 1, 1⟩, [], none⟩
  have source : (LineSource.ofContent sizeHeader.content none).read? =
      some (⟨1, text, none⟩, behind.source) := by
    decide +kernel
  have read : (Reader.ofContent "size.h" sizeHeader.content none none).nextLine =
      (.ok (some ⟨1, text, none⟩), behind) := by
    rw [Reader.nextLine_of_plain (Reader.plain_ofContent _ _ _), Reader.ofContent, source]
    rfl
  have ended : behind.nextLine = (.ok none, behind) := by
    rfl
  have shape : LineShape.ofLine true 0 text = ⟨false, .macroDefinition " SIZE 1".toList⟩ := by
    decide +kernel
  have name : Token.next? " SIZE 1".toList = some ("SIZE", " 1".toList) := by
    decide +kernel
  have body : MacroBody.continueOn [] " 1".toList = .complete "1" := by
    decide +kernel
  have bodyRead : MacroBody.read " 1".toList behind = .ok (some ([], "1"), behind) := by
    change (behind.gather MacroBody.continueOn (MacroBody.continueOn [] " 1".toList) >>= _) = _
    rw [body, Reader.gather]
    rfl
  have defined : LineOutcome.ofLine true false .start ⟨1, text, none⟩ behind =
      ⟨[.declaration "SIZE" "" 1 (.macroDefinition [] "1")], false, .ok (.start, behind)⟩ := by
    change LineOutcome.ofBody true false .start 0 text ⟨1, text, none⟩ behind = _
    simp only [LineOutcome.ofBody, shape, LineForm.declaresLanguage, Context.recognise,
      Recognised.definedMacro, name, bodyRead]
    rfl
  rw [FileOutcome.ofFile, FileOutcome.ofLines_of_complete read (congrArg LineOutcome.after defined),
    defined, FileOutcome.ofLines_of_end ended]
  rfl

/-- The line that includes the header defines nothing. -/
theorem macrosBefore_resizedFile :
    FileOutcome.macrosBefore false false .start
      (.ofContent "resized.t" resizedFile.content none none) 2 = [] := by
  let text := "#include \"size.h\"".toList
  let behind : Reader := ⟨"resized.t", ⟨[], [], none, 1, 1⟩, [], none⟩
  have source : (LineSource.ofContent (RawLine.firstLines 1 resizedFile.content) none).read? =
      some (⟨1, text, none⟩, behind.source) := by
    decide +kernel
  have read : (Reader.ofContent "resized.t" (RawLine.firstLines 1 resizedFile.content) none
      none).nextLine = (.ok (some ⟨1, text, none⟩), behind) := by
    rw [Reader.nextLine_of_plain (Reader.plain_ofContent _ _ _), Reader.ofContent, source]
    rfl
  have ended : behind.nextLine = (.ok none, behind) := by
    rfl
  have shape : LineShape.ofLine false 0 text = ⟨false, .other⟩ := by
    decide +kernel
  have noMessage : MessageCall.find? none text = none := by
    decide +kernel
  have skipped : LineOutcome.ofLine false false .start ⟨1, text, none⟩ behind =
      .quiet false .start behind := by
    have shown : Text.trimEnd (SourceLine.shown ⟨1, text, none⟩) = text := by
      decide +kernel
    have body : text.dropWhile (· == ' ') = text := by
      decide +kernel
    have indent : text.length - text.length = 0 := Nat.sub_self _
    simp only [LineOutcome.ofLine, shown, body, indent, MessageCall.read, noMessage,
      LineOutcome.ofBody, shape]
    rfl
  rw [FileOutcome.macrosBefore, Reader.upTo_ofContent,
    FileOutcome.ofLines_of_complete read (congrArg LineOutcome.after skipped), skipped,
    FileOutcome.ofLines_of_end ended]
  rfl

/-- The two files before they are read. -/
def unreadFiles : Graph :=
  ofFiles [sizeHeader.source, resizedFile.source]

/-- The two files when the header has been read. -/
def afterSizeHeader : Graph :=
  unreadFiles.record 0 [.declaration "SIZE" "" 1 (.macroDefinition [] "1")]

/-- The header names its macro on the line that defines it, and that line does not see it yet. -/
theorem namesNoMacro_sizeHeader : unreadFiles.NamesNoMacro false 0 sizeHeader := by
  intro raw isLine definition isSeen
  have lines : RawLine.ofContent sizeHeader.content sizeHeader.mirror.content? =
      [⟨1, "#define SIZE 1".toList, none⟩] := by
    decide +kernel
  have included : unreadFiles.includedFiles 0 = [] := by
    decide +kernel
  have own : unreadFiles.ownMacros 0 = [] := by
    decide +kernel
  have visible : unreadFiles.visibleMacros 0 = [] := by
    rw [visibleMacros_eq (by decide), included, own, Walk.preorder]
    rfl
  rw [lines, List.mem_singleton] at isLine
  subst isLine
  rw [macrosSeen, visible, FileOutcome.macrosBefore_of_le (Reader.plain_ofContent _ _ _)
    (Nat.le_refl 1)]
    at isSeen
  contradiction

/-- No line of the second file names the macro that it sees from the header. -/
theorem namesNoMacro_resizedFile : afterSizeHeader.NamesNoMacro false 1 resizedFile := by
  intro raw isLine definition isSeen
  have lines : RawLine.ofContent resizedFile.content resizedFile.mirror.content? =
      [⟨1, "#include \"size.h\"".toList, none⟩, ⟨2, "class Resized: Thing".toList, none⟩] := by
    decide +kernel
  have included : afterSizeHeader.includedFiles 0 = [] ∧ afterSizeHeader.includedFiles 1 = [0] := by
    decide +kernel
  have own : afterSizeHeader.ownMacros 0 = [⟨"SIZE", [], "1"⟩] ∧
    afterSizeHeader.ownMacros 1 = [] := by
    decide +kernel
  have visible : afterSizeHeader.visibleMacros 1 = [⟨"SIZE", [], "1"⟩] := by
    rw [visibleMacros_eq (by decide), included.2, own.2, Walk.preorder,
      dif_pos (by decide), included.1, List.append_nil, Walk.preorder, List.flatMap_singleton,
      own.1]
    rfl
  have isHeader : (afterSizeHeader.file 1).source.isHeader = false := by
    decide +kernel
  simp only [lines, List.mem_cons, List.not_mem_nil, or_false] at isLine
  have seen : afterSizeHeader.macrosSeen false 1 resizedFile raw.number = [⟨"SIZE", [], "1"⟩] := by
    rw [macrosSeen, visible, isHeader]
    rcases isLine with rfl | rfl
    · rw [FileOutcome.macrosBefore_of_le (Reader.plain_ofContent _ _ _) (Nat.le_refl 1),
        List.append_nil]
    · exact congrArg (_ ++ ·) macrosBefore_resizedFile
  rw [seen, List.mem_singleton] at isSeen
  subst isSeen
  rcases isLine with rfl | rfl
  · decide +kernel
  · decide +kernel

/-- The header is read first, since the other file includes it. -/
theorem libraryUsesNoMacros_resizedFile : LibraryUsesNoMacros [resizedFile, sizeHeader] := by
  intro order ordered
  have positions : ReadingOrder.positions ([resizedFile, sizeHeader].map (·.source)) =
      .ok [1, 0] := by
    decide +kernel
  obtain rfl : [1, 0] = order := Except.ok.inj (positions.symm.trans ordered)
  change unreadFiles.UsesNoMacros false 0 [sizeHeader, resizedFile]
  intro reader starts
  obtain rfl : Reader.ofContent "size.h" sizeHeader.content none none = reader :=
    Except.ok.inj starts
  have isHeader : (unreadFiles.file 0).source.isHeader = true := by
    decide +kernel
  have reading : unreadFiles.classifyFile false 0
      (.ofContent "size.h" sizeHeader.content none none) =
      ⟨afterSizeHeader, false, .ok 1⟩ := by
    rw [classifyFile, isHeader, ofFile_sizeHeader, afterSizeHeader]
  rw [reading]
  exact ⟨namesNoMacro_sizeHeader, fun _ _ => ⟨namesNoMacro_resizedFile, trivial⟩⟩

/-- The second file includes the header and names its macro nowhere, so both ways to build the
library give one graph. -/
theorem ofInputs_expanding_resizedFile :
    LibraryUsesNoMacros [resizedFile, sizeHeader] ∧
      ofInputs true [resizedFile, sizeHeader] = ofInputs false [resizedFile, sizeHeader] :=
  ⟨libraryUsesNoMacros_resizedFile, ofInputs_expanding _ libraryUsesNoMacros_resizedFile⟩

end TadsReference.Graph
