import TadsReference.Proofs.Entry.FunctionBodies
import TadsReference.Proofs.Entry.InStep

/-!
# Heads that are written anew

The head of a class or of an object can be written from its name, its bases and what it is marked
as. Outside of functions, a line at the left margin that is written so declares just that:
`ofLine_of_writesHead`.
-/

namespace TadsReference

open Identifier

/-- The part of a head behind the name. -/
def writtenBases (bases : List String) : String :=
  if bases.isEmpty then "" else ": " ++ Text.join ", " bases

/-- A text is written as the head of a class or an object. -/
inductive WritesHead (name : String) (bases : List String) : String → Declared → Prop
  | ofClass (based : bases ≠ []) :
      WritesHead name bases ("class " ++ name ++ writtenBases bases) (.classBlock { bases })
  | intrinsicClass :
      WritesHead name bases ("intrinsic class " ++ name ++ writtenBases bases)
        (.classBlock { bases, intrinsic := true })
  | ofObject (transient : Bool) (based : bases ≠ []) (free : name ∉ keywords) :
      WritesHead name bases ((if transient then "transient " else "") ++ name ++ writtenBases bases)
        (.objectBlock { bases, transient, action := bases.any namesAction })

variable {isHeader languageSeen : Bool} {context : Context} {reader : Reader} {name text : String}
  {bases : List String} {line rest : List Char} {declared : Declared}

/-! ### Lists of names -/

/-- The tokens of a line are names with commas between them. -/
inductive ListsNames : List Char → List String → Prop
  | last {line rest : List Char} {name : String} (first : Token.next? line = some (name, rest))
      (isRun : IsRun name.toList) (ended : Token.next? rest = none) : ListsNames line [name]
  | more {line rest others : List Char} {name : String} {names : List String}
      (first : Token.next? line = some (name, rest)) (isRun : IsRun name.toList)
      (comma : Token.next? rest = some (",", others)) (listed : ListsNames others names) :
      ListsNames line (name :: names)

theorem baseList_of_next? (first : Token.next? line = some (name, rest)) :
    baseList line = name :: match Token.next? rest with
      | some (",", others) => baseList others
      | _ => [] := by
  rw [baseList]
  split
  · simp_all
  · next found =>
      obtain ⟨rfl, rfl⟩ := Prod.mk.inj (Option.some.inj (first.symm.trans found))
      split <;> simp_all

/-- A loose list passes over the commas in front of a name and ends at the first token that is no
name. -/
theorem looseBaseList_of_next? (first : Token.next? line = some (name, rest)) :
    looseBaseList line =
      if name == "," then looseBaseList rest
      else if name.toList.head?.any isIdentifierCharacter then name :: looseBaseList rest
      else [] := by
  rw [looseBaseList]
  split
  · simp_all
  · next found =>
      obtain ⟨rfl, rfl⟩ := Prod.mk.inj (Option.some.inj (first.symm.trans found))
      rfl

theorem looseBaseList_of_end (ended : Token.next? line = none) : looseBaseList line = [] := by
  rw [looseBaseList]
  split <;> simp_all

theorem looseBaseList_of_isRun (first : Token.next? line = some (name, rest))
    (isRun : IsRun name.toList) : looseBaseList line = name :: looseBaseList rest := by
  have noComma : name ≠ "," := isRun.ne ⟨',', by decide, by decide⟩
  have begins : name.toList.head?.any isIdentifierCharacter = true := by
    cases spelling : name.toList with
    | nil => exact absurd spelling isRun.nonempty
    | cons first others => exact isRun.all first (by simp [spelling])
  simp [looseBaseList_of_next? first, noComma, begins]

namespace ListsNames

theorem baseList_eq (listed : ListsNames line bases) : baseList line = bases := by
  induction listed with
  | last first isRun ended => rw [baseList_of_next? first, ended]
  | more first isRun comma _ ih => simp only [baseList_of_next? first, comma, ih]

/-- A loose list of bases has the same names, for there is just one comma between any two of
them. -/
theorem looseBaseList_eq (listed : ListsNames line bases) : looseBaseList line = bases := by
  induction listed with
  | last first isRun ended => rw [looseBaseList_of_isRun first isRun, looseBaseList_of_end ended]
  | more first isRun comma _ ih =>
      rw [looseBaseList_of_isRun first isRun, looseBaseList_of_next? comma, ← ih]
      rfl

end ListsNames

theorem toList_join_cons (base second : String) (bases : List String) :
    (Text.join ", " (base :: second :: bases)).toList =
      base.toList ++ ',' :: ' ' :: (Text.join ", " (second :: bases)).toList := by
  simp [Text.join, String.intercalate_cons_cons]

/-- Names that are written with commas between them are listed. The blank behind a comma is no part
of a token, so the names are told apart by the commas alone. -/
theorem listsNames_join (based : bases ≠ []) (areRuns : ∀ base ∈ bases, IsRun base.toList) :
    ListsNames (' ' :: (Text.join ", " bases).toList) bases := by
  induction bases with
  | nil => contradiction
  | cons base bases ih =>
      obtain ⟨isRun, areRuns⟩ := List.forall_mem_cons.mp areRuns
      cases bases with
      | nil =>
          have first : Token.next? (' ' :: (Text.join ", " [base]).toList) = some (base, []) := by
            rw [Token.next?_space]
            simpa [Text.join] using Token.next?_word isRun apart_nil
          exact .last first isRun rfl
      | cons second bases =>
          have apart : Apart (',' :: ' ' :: (Text.join ", " (second :: bases)).toList) :=
            apart_cons (by decide)
          refine .more ?_ isRun (Token.next?_comma _) (ih (by simp) areRuns)
          rw [Token.next?_space, toList_join_cons, Token.next?_word isRun apart,
            String.ofList_toList]

/-! ### Text behind the name -/

theorem toList_writtenBases (based : bases ≠ []) :
    (writtenBases bases).toList = ':' :: ' ' :: (Text.join ", " bases).toList := by
  simp [writtenBases, based]

/-- What follows the name in a head cannot lengthen it: nothing follows it at all, or a colon
does. -/
theorem apart_writtenBases (bases : List String) : Apart (writtenBases bases).toList := by
  by_cases based : bases = []
  · subst based
    exact apart_nil
  · rw [toList_writtenBases based]
    exact apart_cons (by decide)

theorem next?_writtenName (isRun : IsRun name.toList) (bases : List String) :
    Token.next? (name.toList ++ (writtenBases bases).toList) =
      some (name, (writtenBases bases).toList) := by
  rw [Token.next?_word isRun (apart_writtenBases bases), String.ofList_toList]

theorem next?_writtenBases (based : bases ≠ []) :
    Token.next? (writtenBases bases).toList =
      some (":", ' ' :: (Text.join ", " bases).toList) := by
  rw [toList_writtenBases based, Token.next?_colon]

/-! ### Heads -/

section Heads

variable (isRun : IsRun name.toList) (areRuns : ∀ base ∈ bases, IsRun base.toList)

include isRun areRuns

/-- The head of a class is read back with its name and its bases, unless the line defines the class
of an action. -/
theorem classHead?_written (based : bases ≠ []) {sourceText : List Char}
    (noAction : isActionDefinition sourceText = false) :
    classHead? (' ' :: (name.toList ++ (writtenBases bases).toList)) sourceText =
      some (name, .classBlock { bases }) := by
  have listed := (listsNames_join based areRuns).baseList_eq
  simp only [classHead?, Token.next?_space, next?_writtenName isRun, next?_writtenBases based,
    noAction, listed]
  rfl

/-- The head of an intrinsic class is read back as well, and its bases may be missing, since the
loose list then ends at once. -/
theorem intrinsicClassHead?_written :
    intrinsicClassHead? (' ' :: (name.toList ++ (writtenBases bases).toList)) =
      some (name, .classBlock { bases, intrinsic := true }) := by
  simp only [intrinsicClassHead?, Token.next?_space, next?_writtenName isRun, Option.map_some]
  by_cases based : bases = []
  · subst based
    rfl
  · have listed := (listsNames_join based areRuns).looseBaseList_eq
    have divided : Text.cut? [':'] (writtenBases bases).toList =
        some ([], ' ' :: (Text.join ", " bases).toList) := by
      simp [toList_writtenBases based, Text.cut?]
    simp only [divided, listed]

omit isRun in
/-- The head of an object is read back with its bases and whether it is transient. One of the bases
decides whether it is an action. -/
theorem objectHead_written (based : bases ≠ []) (transient : Bool) :
    objectHead name (baseList (' ' :: (Text.join ", " bases).toList)) transient =
      (name, .objectBlock { bases, transient, action := bases.any namesAction }) := by
  rw [(listsNames_join based areRuns).baseList_eq]
  rfl

end Heads

/-! ### Lines -/

namespace LineShape

theorem ofLine_of_transient {after : List Char} {token : String} (isHeader : Bool) (indent : Nat)
    (first : Token.next? line = some ("transient", rest))
    (second : Token.next? rest = some (token, after)) :
    ofLine isHeader indent line = ofFirst isHeader indent true token after := by
  simp only [ofLine, Token.next, first, second, Option.getD_some]

theorem ofName_of_colon (isRun : IsRun name.toList) (isHeader : Bool) (indent : Nat)
    (transient : Bool) {behind : List Char} (colon : Token.next? rest = some (":", behind)) :
    ofName isHeader indent transient name rest = ⟨false, .objectHead name behind transient⟩ := by
  have noSlashes : name ≠ "//" := isRun.ne ⟨'/', by decide, by decide⟩
  have noBrace : name ≠ "\x7d" := isRun.ne ⟨'\x7d', by decide, by decide⟩
  simp [ofName, noSlashes, noBrace, Token.next, colon]

/-- A word with a blank behind it is a token. -/
theorem next?_keyword {word : String} (isRun : IsRun word.toList) (rest : List Char) :
    Token.next? (word.toList ++ ' ' :: rest) = some (word, ' ' :: rest) := by
  rw [Token.next?_word isRun (apart_cons (by decide)), String.ofList_toList]

theorem isRun_class : IsRun "class".toList :=
  by decide

/-- A line that begins with the keyword of a class has the form of a class, and the rest of the line
is the head. -/
theorem ofLine_class (isHeader : Bool) (name : String) (bases : List String) :
    ofLine isHeader 0 ("class " ++ name ++ writtenBases bases).toList =
      ⟨false, .classHead (' ' :: (name.toList ++ (writtenBases bases).toList))⟩ := by
  have spelling : ("class " ++ name ++ writtenBases bases).toList =
      "class".toList ++ ' ' :: (name.toList ++ (writtenBases bases).toList) := by
    simp
  rw [spelling, ofLine_of_next? isHeader 0 (next?_keyword isRun_class _) (by decide)]
  rfl

/-- The two keywords of an intrinsic class are recognised before the one of a class is looked
for. -/
theorem ofLine_intrinsicClass (isHeader : Bool) (name : String) (bases : List String) :
    ofLine isHeader 0 ("intrinsic class " ++ name ++ writtenBases bases).toList =
      ⟨false, .intrinsicClass (' ' :: (name.toList ++ (writtenBases bases).toList))⟩ := by
  have isIntrinsic : IsRun "intrinsic".toList := by decide
  have spelling : ("intrinsic class " ++ name ++ writtenBases bases).toList =
      "intrinsic".toList ++ ' ' :: ("class".toList ++
        ' ' :: (name.toList ++ (writtenBases bases).toList)) := by
    simp
  rw [spelling, ofLine_of_next? isHeader 0 (next?_keyword isIntrinsic _) (by decide)]
  simp only [ofFirst, Token.next, Token.next?_space, next?_keyword isRun_class, Option.getD_some]

/-- A line that begins with a name and a colon has the form of an object. The name is free, so no
keyword takes the line, and the keyword of a transient object is passed over in front of it. -/
theorem ofLine_object (isRun : IsRun name.toList) (free : name ∉ keywords) (based : bases ≠ [])
    (isHeader transient : Bool) :
    ofLine isHeader 0
        ((if transient then "transient " else "") ++ name ++ writtenBases bases).toList =
      ⟨false, .objectHead name (' ' :: (Text.join ", " bases).toList) transient⟩ := by
  rw [← ofName_of_colon isRun isHeader 0 transient (next?_writtenBases based),
    ← ofFirst_of_word isRun free]
  have first := next?_writtenName isRun bases
  cases transient with
  | false =>
      have noTransient : name ≠ "transient" := by
        rintro rfl
        exact free (by decide)
      rw [← ofLine_of_next? isHeader 0 first noTransient]
      simp
  | true =>
      have isTransient : IsRun "transient".toList := by decide
      rw [← Token.next?_space] at first
      rw [← ofLine_of_transient isHeader 0 (next?_keyword isTransient _) first]
      simp

end LineShape

/-- The context behind the head of a block. -/
def Context.inBlock (context : Context) : Context :=
  { context with region := .blockBody, comment := "", blockOpen := true }

namespace LineOutcome

/-- A line whose form opens a block declares what the block is, and the context is then within that
block. Nothing but a part of the language could hide it, and this form is none. -/
theorem ofBody_of_openBlock {indent : Nat} {body : List Char} {line : SourceLine} {form : LineForm}
    (shape : LineShape.ofLine isHeader indent body = ⟨false, form⟩)
    (notLanguage : form.declaresLanguage = false)
    (recognised : context.recognise indent line.number line.text reader form =
      Recognised.ofLine (context.openBlock line.number (some (name, declared))) reader) :
    ofBody isHeader languageSeen context indent body line reader =
      ⟨[.declaration name context.comment line.number declared], languageSeen,
        .ok (context.inBlock, reader)⟩ := by
  simp [ofBody, shape, notLanguage, recognised, Recognised.ofLine, Context.openBlock,
    Context.record, Context.inBlock]

end LineOutcome

theorem isActionDefinition_class (rest : List Char) :
    isActionDefinition ("class ".toList ++ rest) = false := by
  have visible : Text.isBlank 'c' = false := by decide
  have inWord : Text.isWordCharacter 'c' = true := by decide +kernel
  have spelling : "class ".toList ++ rest = 'c' :: ("lass ".toList ++ rest) := rfl
  rw [isActionDefinition, spelling, Text.trimStart_of_not_isBlank visible]
  simp [inWord]

/-- Outside of functions, what is written as a head at the left margin is declared. Each constructor
of a written head has a form of its own, and the head of each is read back to what it was written
from. -/
theorem LineOutcome.ofBody_of_writesHead (writes : WritesHead name bases text declared)
    (isRun : IsRun name.toList) (areRuns : ∀ base ∈ bases, IsRun base.toList)
    (outside : context.region ≠ .functionBody) {line : SourceLine} (own : line.text = text.toList) :
    ofBody isHeader languageSeen context 0 text.toList line reader =
      ⟨[.declaration name context.comment line.number declared], languageSeen,
        .ok (context.inBlock, reader)⟩ := by
  cases writes with
  | ofClass based =>
      have noAction : isActionDefinition line.text = false := by
        rw [own, String.toList_append, String.toList_append, List.append_assoc,
          isActionDefinition_class]
      apply ofBody_of_openBlock (LineShape.ofLine_class isHeader name bases) rfl
      simp only [Context.recognise, classHead?_written isRun areRuns based noAction]
      rfl
  | intrinsicClass =>
      apply ofBody_of_openBlock (LineShape.ofLine_intrinsicClass isHeader name bases) rfl
      simp only [Context.recognise, intrinsicClassHead?_written isRun areRuns]
  | ofObject transient based free =>
      have isOutside : (context.region != .functionBody) = true := by simpa using outside
      apply ofBody_of_openBlock (LineShape.ofLine_object isRun free based isHeader transient) rfl
      simp only [Context.recognise, isOutside, objectHead_written areRuns based, beq_self_eq_true,
        Bool.and_self, if_true]

/-! ### Whole lines -/

/-- The bases of a head are written with no characters but those of names, commas and blanks. -/
theorem mem_join (areRuns : ∀ base ∈ bases, IsRun base.toList) :
    ∀ character ∈ (Text.join ", " bases).toList,
      isIdentifierCharacter character = true ∨ character ∈ [' ', ':', ','] := by
  induction bases with
  | nil => simp [Text.join]
  | cons base bases ih =>
      obtain ⟨isRun, areRuns⟩ := List.forall_mem_cons.mp areRuns
      intro character isWritten
      cases bases with
      | nil => exact .inl (isRun.all character (by simpa [Text.join] using isWritten))
      | cons second bases =>
          rw [toList_join_cons, List.mem_append, List.mem_cons, List.mem_cons] at isWritten
          rcases isWritten with ofBase | rfl | rfl | ofOthers
          · exact .inl (isRun.all character ofBase)
          · exact .inr (by decide)
          · exact .inr (by decide)
          · exact ih areRuns character ofOthers

/-- A list of bases ends in a name, namely in the last of them. -/
theorem exists_join_eq (based : bases ≠ []) (areRuns : ∀ base ∈ bases, IsRun base.toList) :
    ∃ front word, (Text.join ", " bases).toList = front ++ word ∧ IsRun word := by
  induction bases with
  | nil => contradiction
  | cons base bases ih =>
      obtain ⟨isRun, areRuns⟩ := List.forall_mem_cons.mp areRuns
      cases bases with
      | nil => exact ⟨[], base.toList, by simp [Text.join], isRun⟩
      | cons second bases =>
          obtain ⟨front, word, shape, isWord⟩ := ih (by simp) areRuns
          refine ⟨base.toList ++ ',' :: ' ' :: front, word, ?_, isWord⟩
          rw [toList_join_cons, shape]
          simp

namespace WritesHead

/-- What may stand before the name. -/
def openings : List String :=
  ["", "class ", "intrinsic class ", "transient "]

/-- Each kind of head has an opening that stands before the name, and nothing else differs in how it
is written. -/
theorem exists_opening (writes : WritesHead name bases text declared) :
    ∃ opening ∈ openings, text = opening ++ name ++ writtenBases bases := by
  cases writes with
  | ofClass => exact ⟨_, by decide, rfl⟩
  | intrinsicClass => exact ⟨_, by decide, rfl⟩
  | ofObject transient => cases transient <;> exact ⟨_, by decide, rfl⟩

variable (writes : WritesHead name bases text declared) (isRun : IsRun name.toList)
  (areRuns : ∀ base ∈ bases, IsRun base.toList)

include writes isRun

/-- A head begins with a word. -/
theorem begins : text.toList.head?.any isIdentifierCharacter = true := by
  obtain ⟨opening, isOpening, rfl⟩ := writes.exists_opening
  have ofOpenings : ∀ opening ∈ openings,
      opening = "" ∨ opening.toList.head?.any isIdentifierCharacter = true := by
    decide
  rcases ofOpenings opening isOpening with rfl | ofOpening
  · cases spelling : name.toList with
    | nil => exact absurd spelling isRun.nonempty
    | cons first rest => simp [spelling, isRun.all first (by simp [spelling])]
  · cases spelling : opening.toList with
    | nil => simp [spelling] at ofOpening
    | cons first rest => simpa [spelling] using ofOpening

include areRuns

/-- A head ends with a word. -/
theorem ends : ∃ front word, text.toList = front ++ word ∧ IsRun word := by
  obtain ⟨opening, isOpening, rfl⟩ := writes.exists_opening
  by_cases based : bases = []
  · subst based
    exact ⟨opening.toList, name.toList, by simp [writtenBases], isRun⟩
  · obtain ⟨front, word, shape, isWord⟩ := exists_join_eq based areRuns
    refine ⟨opening.toList ++ name.toList ++ ':' :: ' ' :: front, word, ?_, isWord⟩
    simp [toList_writtenBases based, shape]

/-- The characters that a head is written with. They are those of names, blanks, commas and colons,
so no comment and no message call begins in it. -/
theorem mem_toList :
    ∀ character ∈ text.toList,
      isIdentifierCharacter character = true ∨ character ∈ [' ', ':', ','] := by
  obtain ⟨opening, isOpening, rfl⟩ := writes.exists_opening
  have known : ∀ opening ∈ openings,
      (opening.toList.all fun character => isIdentifierCharacter character || character == ' ') =
        true := by
    decide
  intro character isWritten
  simp only [String.toList_append, List.mem_append] at isWritten
  rcases isWritten with (ofOpening | ofName) | ofBases
  · have isKnown := List.all_eq_true.mp (known opening isOpening) character ofOpening
    simp only [Bool.or_eq_true, beq_iff_eq] at isKnown
    exact isKnown.imp_right fun isSpace => by simp [isSpace]
  · exact .inl (isRun.all character ofName)
  · by_cases based : bases = []
    · subst based
      contradiction
    · rw [toList_writtenBases based, List.mem_cons, List.mem_cons] at ofBases
      rcases ofBases with rfl | rfl | ofBases
      · exact .inr (by decide)
      · exact .inr (by decide)
      · exact mem_join areRuns character ofBases

theorem dropEndWhile {drops : Char → Bool}
    (stays : ∀ character, isIdentifierCharacter character = true → drops character = false) :
    Text.dropEndWhile drops text.toList = text.toList := by
  obtain ⟨front, word, shape, isWord⟩ := writes.ends isRun areRuns
  have whole : Text.dropEndWhile drops (front ++ (word ++ [])) =
      front ++ (word ++ Text.dropEndWhile drops []) := Text.dropEndWhile_run isWord stays
  simpa [shape, Text.dropEndWhile] using whole

/-- No message is defined in a head. -/
theorem callsNoMessage : MessageCall.find? none text.toList = none := by
  rw [MessageCall.find?_eq_none_iff]
  rintro ⟨before, call, shape, ⟨kind, gap, after, rfl, _⟩, _⟩
  have isWritten : '(' ∈ text.toList := by simp [shape]
  rcases writes.mem_toList isRun areRuns '(' isWritten with isIdentifier | isOther
  · exact absurd isIdentifier (by decide)
  · exact absurd isOther (by decide)

end WritesHead

/-- The line is the head itself: no blanks are trimmed from either of its ends, it holds no comment,
and none of its tokens calls for a message. Its body is therefore read as it is written. -/
theorem LineOutcome.ofLine_of_writesHead (writes : WritesHead name bases text declared)
    (isRun : IsRun name.toList) (areRuns : ∀ base ∈ bases, IsRun base.toList)
    (outside : context.region ≠ .functionBody) (number : Nat) :
    ofLine isHeader languageSeen context ⟨number, text.toList, none⟩ reader =
      ⟨[.declaration name context.comment number declared], languageSeen,
        .ok (context.inBlock, reader)⟩ := by
  let line : SourceLine := ⟨number, text.toList, none⟩
  have trimmed : Text.trimEnd text.toList = text.toList :=
    writes.dropEndWhile isRun areRuns fun _ => Text.isBlank_of_isIdentifierCharacter
  have body : line.body = text.toList := by
    have begins := writes.begins isRun
    change (Text.trimEnd text.toList).dropWhile (· == ' ') = text.toList
    rw [trimmed]
    cases spelling : text.toList with
    | nil => rfl
    | cons first rest =>
        have noSpace : first ≠ ' ' := by
          rintro rfl
          simp [spelling] at begins
          exact absurd begins (by decide)
        simp [noSpace]
  have indent : line.indent = 0 := by
    change (Text.trimEnd text.toList).length - line.body.length = 0
    rw [trimmed, body, Nat.sub_self]
  have filled : line.body ≠ [] := by
    intro empty
    have begins := writes.begins isRun
    simp [← body, empty] at begins
  have noMessage : MessageCall.read line.body number reader = .ok (none, reader) := by
    rw [MessageCall.read, body, writes.callsNoMessage isRun areRuns]
  rw [ofLine_of_filled filled isHeader languageSeen context fun _ => noMessage, indent, body]
  exact ofBody_of_writesHead writes isRun areRuns outside rfl

namespace FileOutcome

variable {content : List UInt8}

/-- A file with a single line, which takes nothing from the reader. The end of the file is reached
behind it, so the file has just what the line declares. -/
theorem ofFile_of_only {entries : List Entry} {seen : Bool} {next : Context}
    (only : RawLine.texts content = [line])
    (outcome : ∀ reader, LineOutcome.ofLine isHeader languageSeen .start
      (RawLine.plain ⟨1, line, none⟩) reader = ⟨entries, seen, .ok (next, reader)⟩)
    (file : String) :
    ofFile isHeader languageSeen (.ofContent file content none none) = ⟨entries, seen, .ok 1⟩ := by
  let reader : Reader := .ofContent file content none none
  have foresees : reader.Foresees fun _ => True := Reader.foresees_ofContent (by simp)
  have ahead : reader.source.ahead = [⟨1, line, none⟩] := by
    change RawLine.ofContent content none = _
    simp [RawLine.ofContent, only, RawLine.enumerate]
  rcases foresees.nextLine with ⟨read, _⟩ | ⟨raw, following, read, _, behind, next⟩
  · rw [LineSource.ahead_of_read?_none read] at ahead
    contradiction
  · rw [LineSource.ahead_of_read? read] at ahead
    obtain ⟨rfl, left⟩ := List.cons.inj ahead
    have number : following.number = 1 := LineSource.number_of_read? read
    rcases behind.nextLine with ⟨_, ended⟩ | ⟨raw, _, more, _⟩
    · rw [ofFile, ofLines_of_complete next (congrArg LineOutcome.after (outcome _)), outcome,
        ofLines_of_end ended]
      simp [prepend, Reader.number, number]
    · rw [LineSource.ahead_of_read? more] at left
      contradiction

/-- A file whose only line is written as a head declares just that. -/
theorem ofFile_of_writesHead (writes : WritesHead name bases text declared)
    (isRun : IsRun name.toList) (areRuns : ∀ base ∈ bases, IsRun base.toList)
    (only : RawLine.texts content = [text.toList]) (file : String) :
    ofFile isHeader languageSeen (.ofContent file content none none) =
      ⟨[.declaration name "" 1 declared], languageSeen, .ok 1⟩ := by
  have noReturn (character : Char) (isIdentifier : isIdentifierCharacter character = true) :
      (character == '\r') = false := by
    apply beq_false_of_ne
    rintro rfl
    exact absurd isIdentifier (by decide)
  have shown : RawLine.plain ⟨1, text.toList, none⟩ = ⟨1, text.toList, none⟩ := by
    simp only [RawLine.plain, writes.dropEndWhile isRun areRuns noReturn]
  apply ofFile_of_only only
  intro reader
  rw [shown]
  exact LineOutcome.ofLine_of_writesHead writes isRun areRuns (by decide) 1

end FileOutcome

end TadsReference
