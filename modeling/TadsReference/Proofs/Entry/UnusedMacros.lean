import TadsReference.Proofs.Entry.InStep
import TadsReference.Proofs.Entry.Unexpanded
import TadsReference.Proofs.Macro.Unused

/-!
# Files that use no macro

The macros that a line of a file sees are those with which the reading has begun, and those that
are defined before the line. If no line names one of them, the file is read as if there were none:
`ofLines_expanding`.
-/

namespace TadsReference

open Reader (InStep RelatedBehind)

/-! ### Numbers of lines -/

theorem RawLine.number_lt_of_mem_enumerate {number : Nat} {lines mirror : List (List Char)}
    {raw : RawLine} (isLine : raw ∈ enumerate number lines mirror) : number < raw.number := by
  induction lines generalizing number mirror with
  | nil => contradiction
  | cons line lines ih =>
      rcases List.mem_cons.mp isLine with rfl | isLater
      · exact Nat.lt_succ_self number
      · exact Nat.lt_of_succ_lt (ih isLater)

namespace Reader

variable {reader : Reader} {scope : MacroScope}

theorem Plain.number_lt (plain : reader.Plain) {raw : RawLine}
    (isLeft : raw ∈ reader.source.ahead) :
    reader.number < raw.number := by
  rw [LineSource.ahead, plain.source.handedBack, List.nil_append] at isLeft
  rw [number, plain.source.number]
  exact RawLine.number_lt_of_mem_enumerate isLeft

/-! ### Readers that expand macros -/

/-- The same reader with macros that are expanded. -/
def expanding (scope : MacroScope) (reader : Reader) : Reader :=
  { reader with macros := some scope }

theorem expandRaw_of_not_namesMacro {raw : RawLine} (unused : ¬scope.NamesMacro raw.text)
    (source : LineSource) : expandRaw (some scope) raw source = (.ok raw.text, source) := by
  have whole : joinedText raw [] = raw.text := List.append_nil _
  rw [expandRaw, expandJoined, whole, MacroScope.expandLine_of_not_namesMacro unused]

/-- A reader hands out the same line with macros and without, if the line names none. -/
theorem nextLine_expanding {expected : RawLine → Prop}
    (unused : ∀ raw, expected raw → ¬scope.NamesMacro raw.text)
    (foresees : reader.Foresees expected) :
    (reader.expanding scope).nextLine =
      (reader.nextLine.1, reader.nextLine.2.expanding scope) := by
  rcases foresees.nextLine with ⟨read, ended⟩ | ⟨raw, following, read, isExpected, _, next⟩
  · rw [ended]
    simp only [nextLine, expanding, foresees.plain.pending, read]
  · have whole := (foresees.plain.source.of_read? read).2.2
    rw [next]
    simp only [nextLine, expanding, foresees.plain.pending, read,
      expandRaw_of_not_namesMacro (unused raw isExpected), pieces, List.splitOn_eq_singleton whole,
      LineSource.number_of_read? read]
    rfl

/-- A reader with macros hands out the line that the plain one does, if none of the lines that are
left names a macro. It is then in front of the same lines, so whatever holds of all of them holds of
those that are left. -/
theorem expanding_of_nextLine (plain : reader.Plain)
    (unused : ∀ raw ∈ reader.source.ahead, ¬scope.NamesMacro raw.text) {line : SourceLine}
    {behind : Reader} (read : reader.nextLine = (.ok (some line), behind)) :
    (reader.expanding scope).nextLine = (.ok (some line), behind.expanding scope) ∧
      behind.Foresees (· ∈ reader.source.ahead) := by
  have foresees : reader.Foresees (· ∈ reader.source.ahead) := ⟨plain, fun _ isLeft => isLeft⟩
  rcases foresees.of_nextLine read with ⟨_, _, _, foreseesBehind⟩
  refine ⟨?_, foreseesBehind⟩
  rw [nextLine_expanding unused foresees, read]

/-- A reader that expands macros keeps in step with the plain one as long as the lines that it hands
out are those that are expected, for none of them names a macro. -/
theorem inStep_expanding {expected : RawLine → Prop}
    (unused : ∀ raw, expected raw → ¬scope.NamesMacro raw.text) :
    InStep fun left right => left = right.expanding scope ∧ right.Foresees expected where
  place := by
    rintro _ reader ⟨rfl, _⟩
    exact ⟨rfl, rfl⟩
  nextLine := by
    rintro _ reader ⟨rfl, foresees⟩
    have same := nextLine_expanding unused foresees
    rcases foresees.nextLine with ⟨_, ended⟩ | ⟨raw, following, _, _, behind, next⟩
    · rw [ended] at same
      exact ⟨none, _, _, same, ended, rfl, foresees⟩
    · rw [next] at same
      exact ⟨_, _, _, same, next, rfl, behind⟩

end Reader

/-! ### Lines -/

namespace LineOutcome

variable {isHeader languageSeen : Bool} {context next : Context} {line : SourceLine}
  {reader later : Reader} {scope : MacroScope} {expected : RawLine → Prop}

/-- What a line declares is the same with macros and without, since it takes the same lines from
both readers. -/
theorem alike_expanding (isHeader languageSeen : Bool) (context : Context) (line : SourceLine)
    (unused : ∀ raw, expected raw → ¬scope.NamesMacro raw.text)
    (foresees : reader.Foresees expected) :
    AlikeAfter (fun left right => left = right.expanding scope ∧ right.Foresees expected)
      (ofLine isHeader languageSeen context line (reader.expanding scope))
      (ofLine isHeader languageSeen context line reader) :=
  alike_ofLine (Reader.inStep_expanding unused) isHeader languageSeen context line ⟨rfl, foresees⟩

/-- Behind a complete line, the macros of the reader are those of before and what the line defines.
The plain reader ignores a definition, so only the other one has come by a macro, and that one is
the first of its scope. -/
theorem after_expanding (unused : ∀ raw, expected raw → ¬scope.NamesMacro raw.text)
    (foresees : reader.Foresees expected)
    (complete : (ofLine isHeader languageSeen context line reader).after = .ok (next, later)) :
    ∃ wider : MacroScope,
      (ofLine isHeader languageSeen context line (reader.expanding scope)).after =
        .ok (next, later.expanding wider) ∧
      ∀ text, wider.NamesMacro text → scope.NamesMacro text ∨
        ∃ definition ∈ (ofLine isHeader languageSeen context line reader).entries.filterMap
          Entry.macroDefinition?, Identifier.occursIn definition.name text = true := by
  have after := (alike_expanding isHeader languageSeen context line unused foresees).after
  rw [complete] at after
  generalize (ofLine isHeader languageSeen context line (reader.expanding scope)).after = found
    at after ⊢
  cases after with
  | ok _ behind =>
      cases behind with
      | still together =>
          rw [together.1]
          exact ⟨scope, rfl, fun _ names => .inl names⟩
      | @defined _ _ definition together isDefined =>
          rw [together.1, Reader.define_of_plain together.2.plain]
          refine ⟨scope.define definition, rfl, fun text names => ?_⟩
          rcases MacroScope.namesMacro_define names with isNamed | names
          · exact .inr ⟨definition, isDefined, isNamed⟩
          · exact .inl names

end LineOutcome

/-! ### Files -/

namespace FileOutcome

variable {isHeader languageSeen : Bool} {context next : Context} {reader behind later : Reader}
  {line : SourceLine}

/-- The macros that are defined by the lines that are left before the one of a number. -/
def macrosBefore (isHeader languageSeen : Bool) (context : Context) (reader : Reader)
    (number : Nat) : List MacroDefinition :=
  (ofLines isHeader languageSeen context (reader.upTo (number - 1))).entries.filterMap
    Entry.macroDefinition?

/-- No macro is defined before the first line that is left. -/
theorem macrosBefore_of_le (plain : reader.Plain) {number : Nat}
    (first : number ≤ reader.number + 1) :
    macrosBefore isHeader languageSeen context reader number = [] := by
  have reached : number - 1 ≤ reader.number := Nat.sub_le_of_le_add first
  rw [macrosBefore, ofLines_of_end (Reader.nextLine_upTo_of_le plain reached), List.filterMap_nil]

/-- The macros before a line are those that the first line defines, and those before it among the
others. The scope of a reader only grows by what its own lines define, so the macros of the first
line stay in front of all later ones. -/
theorem macrosBefore_of_complete (plain : reader.Plain)
    (read : reader.nextLine = (.ok (some line), behind))
    (complete : (LineOutcome.ofLine isHeader languageSeen context line behind).after =
      .ok (next, later)) {number : Nat} (isLater : later.number < number) :
    macrosBefore isHeader languageSeen context reader number =
      (LineOutcome.ofLine isHeader languageSeen context line behind).entries.filterMap
          Entry.macroDefinition? ++
        macrosBefore isHeader
          (LineOutcome.ofLine isHeader languageSeen context line behind).languageSeen next later
          number := by
  rw [macrosBefore, ofLines_upTo_of_complete plain read complete (Nat.le_sub_one_of_lt isLater),
    prepend, List.filterMap_append]
  rfl

/-- The lines of a file are classified the same with macros and without, if none names a macro that
it sees. The induction runs along the lines of the file. What the first line defines has been
defined before every line that is left, so no line behind it names that macro either. -/
theorem ofLines_expanding (isHeader languageSeen : Bool) (context : Context) (reader : Reader)
    (scope : MacroScope) (plain : reader.Plain)
    (unused : ∀ raw ∈ reader.source.ahead, ¬scope.NamesMacro raw.text)
    (ownUnused : ∀ raw ∈ reader.source.ahead,
      ∀ definition ∈ macrosBefore isHeader languageSeen context reader raw.number,
        Identifier.occursIn definition.name raw.text = false) :
    ofLines isHeader languageSeen context (reader.expanding scope) =
      ofLines isHeader languageSeen context reader := by
  fun_induction ofLines isHeader languageSeen context reader generalizing scope with
  | case1 languageSeen context reader cause behind read =>
      rcases Reader.nextLine_of_unexpanded plain.macros with ⟨_, _, next, _⟩
      rw [next] at read
      cases read
  | case2 languageSeen context reader behind read =>
      have next := Reader.nextLine_expanding unused ⟨plain, fun _ isLeft => isLeft⟩
      rw [read] at next
      rw [ofLines_of_end next]
      rfl
  | case3 languageSeen context reader line behind read outcome next later classified ih =>
      rcases Reader.expanding_of_nextLine plain unused read with ⟨readExpanding, foresees⟩
      have alike := LineOutcome.alike_expanding isHeader languageSeen context line unused foresees
      rcases LineOutcome.after_expanding unused foresees classified with ⟨wider, complete, names⟩
      have foreseesLater := LineOutcome.foresees_of_ofLine foresees classified
      have before (raw : RawLine) (isLeft : raw ∈ later.source.ahead) :=
        macrosBefore_of_complete plain read classified (foreseesLater.plain.number_lt isLeft)
      rw [ofLines_of_complete readExpanding complete, alike.languageSeen, alike.entries, ih]
      · exact foreseesLater.plain
      · intro raw isLeft uses
        have isReader := foreseesLater.lines raw isLeft
        rcases names raw.text uses with uses | ⟨definition, isDefinition, isNamed⟩
        · exact unused raw isReader uses
        · have isBefore : definition ∈
              macrosBefore isHeader languageSeen context reader raw.number := by
            rw [before raw isLeft]
            exact List.mem_append_left _ isDefinition
          simp [ownUnused raw isReader definition isBefore] at isNamed
      · intro raw isLeft definition isDefinition
        apply ownUnused raw (foreseesLater.lines raw isLeft)
        rw [before raw isLeft]
        exact List.mem_append_right _ isDefinition
  | case4 languageSeen context reader line behind read outcome file number classified =>
      rcases Reader.expanding_of_nextLine plain unused read with ⟨readExpanding, foresees⟩
      have alike := LineOutcome.alike_expanding isHeader languageSeen context line unused foresees
      rw [ofLines_of_broken readExpanding (alike.after.of_error classified), alike.languageSeen,
        alike.entries]
  | case5 languageSeen context reader line behind read outcome cause other classified =>
      rcases Reader.expanding_of_nextLine plain unused read with ⟨readExpanding, foresees⟩
      have alike := LineOutcome.alike_expanding isHeader languageSeen context line unused foresees
      rw [ofLines_of_failure readExpanding other (alike.after.of_error classified),
        alike.languageSeen, alike.entries]

end FileOutcome

end TadsReference
