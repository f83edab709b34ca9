import TadsReference.Entry.OfLine

/-!
# The entries of a file

The lines of a file are classified one after the other. A construct that the end of the file cuts
short leaves no entry, and ends the file without a failure.
-/

namespace TadsReference

/-- What became of a line: its entries, whether the language directory has been declared by now,
and the context and the reader behind the line. -/
structure LineOutcome where
  entries : List Entry
  languageSeen : Bool
  after : Except Failure (Context × Reader)

/-- What became of a file: its entries, whether the language directory has been declared by now,
and the number of the last line read. -/
structure FileOutcome where
  entries : List Entry
  languageSeen : Bool
  ending : Except Failure Nat

namespace LineForm

/-- Whether a line declares the language directory, which counts only once. -/
def declaresLanguage : LineForm → Bool
  | .call name _ _ => name == "DefineLangDir"
  | _ => false

end LineForm

namespace SourceLine

/-- The text by which a line is classified: the mirror's, except for a property set. -/
def shown (line : SourceLine) : List Char :=
  match line.mirror with
  | some mirror =>
      if "propertyset ".toList.isPrefixOf (Text.trim mirror) then line.text else mirror
  | none => line.text

end SourceLine

namespace LineOutcome

/-- The outcome of a line from which nothing more is taken. -/
def quiet (languageSeen : Bool) (context : Context) (reader : Reader) : LineOutcome where
  entries := []
  languageSeen := languageSeen
  after := .ok (context, reader)

/-- Classifies the part of a line behind its indentation. -/
def ofBody (isHeader languageSeen : Bool) (context : Context) (indent : Nat) (body : List Char)
    (line : SourceLine) (reader : Reader) : LineOutcome :=
  let shape := LineShape.ofLine isHeader indent body
  let context := if shape.closesBody then context.leaveBody else context
  if shape.form.declaresLanguage && languageSeen then quiet languageSeen context reader
  else
    let seen := languageSeen || shape.form.declaresLanguage
    match context.recognise indent line.number line.text reader shape.form with
    | .ok found => ⟨found.entry.toList, seen, .ok (found.context, found.reader)⟩
    | .error cause => ⟨[], seen, .error cause⟩

/-- Classifies a line. Outside headers, a message that the line defines comes first. -/
def ofLine (isHeader languageSeen : Bool) (context : Context) (line : SourceLine)
    (reader : Reader) : LineOutcome :=
  let text := Text.trimEnd line.shown
  if text.isEmpty then quiet languageSeen context reader
  else
    let body := text.dropWhile (· == ' ')
    let indent := text.length - body.length
    if isHeader then ofBody isHeader languageSeen context indent body line reader
    else
      match MessageCall.read body line.number reader with
      | .error cause => ⟨[], languageSeen, .error cause⟩
      | .ok (message, later) =>
          let outcome := ofBody isHeader languageSeen context indent body line later
          { outcome with entries := message.toList ++ outcome.entries }

end LineOutcome

/-! ### Progress of the reader -/

theorem Recognised.notBefore_of_ofLine {outcome : Option Entry × Context} {reader : Reader}
    {found : Recognised} (recognised : Recognised.ofLine outcome reader = .ok found) :
    found.reader.NotBefore reader := by
  cases recognised
  exact Reader.NotBefore.refl _

theorem Recognised.notBefore_of_gathered {State Value : Type}
    {step : State → List Char → Progress State Value} {progress : Progress State Value}
    {finish : Value → Option Entry × Context} {reader : Reader} {found : Recognised}
    (recognised : Recognised.gathered step progress finish reader = .ok found) :
    found.reader.NotBefore reader := by
  unfold Recognised.gathered at recognised
  split at recognised
  · next gathered =>
      cases recognised
      exact Reader.notBefore_of_gather gathered
  · contradiction

theorem MacroBody.notBefore_of_read {rest : List Char} {reader later : Reader}
    {found : Option (List String × String)}
    (read : MacroBody.read rest reader = .ok (found, later)) : later.NotBefore reader := by
  unfold MacroBody.read at read
  split at read
  · next arguments =>
      cases list : ParameterList.read arguments reader with
      | error cause => simp [list, bind, Except.bind] at read
      | ok listed =>
          rcases listed with ⟨parameters, behind⟩
          have listBehind := Reader.notBefore_of_gather list
          cases parameters with
          | none =>
              simp only [list, bind, Except.bind, pure, Except.pure, Except.ok.injEq,
                Prod.mk.injEq] at read
              rw [← read.2]
              exact listBehind
          | some parameters =>
              cases body : behind.gather MacroBody.continueOn
                  (MacroBody.continueOn [] parameters.2) with
              | error cause => simp [list, body, bind, Except.bind] at read
              | ok gathered =>
                  simp only [list, body, bind, Except.bind, pure, Except.pure, Except.ok.injEq,
                    Prod.mk.injEq] at read
                  rw [← read.2]
                  exact (Reader.notBefore_of_gather body).trans listBehind
  · cases body : reader.gather MacroBody.continueOn (MacroBody.continueOn [] rest) with
    | error cause => simp [body, bind, Except.bind] at read
    | ok gathered =>
        simp only [body, bind, Except.bind, pure, Except.pure, Except.ok.injEq,
          Prod.mk.injEq] at read
        rw [← read.2]
        exact Reader.notBefore_of_gather body

theorem Recognised.notBefore_of_definedMacro {context : Context} {line : Nat}
    {rest : List Char} {reader : Reader} {found : Recognised}
    (recognised : Recognised.definedMacro context line rest reader = .ok found) :
    found.reader.NotBefore reader := by
  unfold Recognised.definedMacro at recognised
  split at recognised
  · exact notBefore_of_ofLine recognised
  · split at recognised
    · next read =>
        have behind := MacroBody.notBefore_of_read read
        cases recognised
        exact behind
    · next read =>
        have behind := MacroBody.notBefore_of_read read
        cases recognised
        exact behind
    · contradiction

theorem Context.notBefore_of_recogniseMethod {context : Context} {indent line : Nat}
    {name : String} {rest : List Char} {interfaceOnly : Bool} {reader : Reader}
    {found : Recognised}
    (recognised :
      context.recogniseMethod indent line name rest interfaceOnly reader = .ok found) :
    found.reader.NotBefore reader := by
  unfold Context.recogniseMethod at recognised
  split at recognised
  · exact Recognised.notBefore_of_gathered recognised
  · exact Recognised.notBefore_of_ofLine recognised

theorem Context.notBefore_of_recognise {context : Context} {indent line : Nat}
    {sourceText : List Char} {reader : Reader} {form : LineForm} {found : Recognised}
    (recognised : context.recognise indent line sourceText reader form = .ok found) :
    found.reader.NotBefore reader := by
  cases form with
  | intrinsicClass rest => exact Recognised.notBefore_of_ofLine recognised
  | functionSet => exact Recognised.notBefore_of_ofLine recognised
  | classHead rest => exact Recognised.notBefore_of_ofLine recognised
  | grammarRule rest =>
      simp only [Context.recognise] at recognised
      split at recognised
      · exact Recognised.notBefore_of_ofLine recognised
      · exact Recognised.notBefore_of_gathered recognised
  | modifyBlock rest => exact Recognised.notBefore_of_ofLine recognised
  | comment rest => exact Recognised.notBefore_of_gathered recognised
  | enumeration rest => exact Recognised.notBefore_of_ofLine recognised
  | macroDefinition rest => exact Recognised.notBefore_of_definedMacro recognised
  | template name rest => exact Recognised.notBefore_of_gathered recognised
  | assignment name interfaceOnly =>
      simp only [Context.recognise, Context.recogniseProperty] at recognised
      split at recognised
      · exact Recognised.notBefore_of_ofLine recognised
      · exact Recognised.notBefore_of_ofLine recognised
  | objectHead name rest transient =>
      simp only [Context.recognise] at recognised
      split at recognised
      · exact Recognised.notBefore_of_ofLine recognised
      · exact Recognised.notBefore_of_ofLine recognised
  | call name rest interfaceOnly =>
      simp only [Context.recognise, Context.recogniseCall] at recognised
      split at recognised
      · exact Recognised.notBefore_of_ofLine recognised
      · split at recognised
        · exact Recognised.notBefore_of_ofLine recognised
        · split at recognised
          · exact Recognised.notBefore_of_gathered recognised
          · split at recognised
            · exact Recognised.notBefore_of_gathered recognised
            · exact notBefore_of_recogniseMethod recognised
  | braced name rest interfaceOnly => exact notBefore_of_recogniseMethod recognised
  | other => exact Recognised.notBefore_of_ofLine recognised

theorem LineOutcome.notBefore_of_ofBody {isHeader languageSeen : Bool} {context later : Context}
    {indent : Nat} {body : List Char} {line : SourceLine} {reader behind : Reader}
    (classified : (LineOutcome.ofBody isHeader languageSeen context indent body line reader).after =
      .ok (later, behind)) :
    behind.NotBefore reader := by
  simp only [LineOutcome.ofBody] at classified
  split at classified
  · cases classified
    exact Reader.NotBefore.refl _
  · split at classified
    · next recognised =>
        cases classified
        exact Context.notBefore_of_recognise recognised
    · contradiction

theorem LineOutcome.notBefore_of_ofLine {isHeader languageSeen : Bool} {context later : Context}
    {line : SourceLine} {reader behind : Reader}
    (classified : (LineOutcome.ofLine isHeader languageSeen context line reader).after =
      .ok (later, behind)) :
    behind.NotBefore reader := by
  simp only [LineOutcome.ofLine] at classified
  split at classified
  · cases classified
    exact Reader.NotBefore.refl _
  · split at classified
    · exact notBefore_of_ofBody classified
    · split at classified
      · contradiction
      · next read =>
          exact (notBefore_of_ofBody classified).trans (MessageCall.notBefore_of_read read)

namespace FileOutcome

/-- Puts the entries of a line before those of the lines that follow. -/
def prepend (entries : List Entry) (outcome : FileOutcome) : FileOutcome :=
  { outcome with entries := entries ++ outcome.entries }

/-- What the lines from a reader on declare, one line after the other. A construct that is cut short
by the end of the file ends it without a failure, and what was declared before stays. -/
def ofLines (isHeader languageSeen : Bool) (context : Context) (reader : Reader) : FileOutcome :=
  match _read : reader.nextLine with
  | (.error cause, _) => ⟨[], languageSeen, .error cause⟩
  | (.ok none, behind) => ⟨[], languageSeen, .ok behind.number⟩
  | (.ok (some line), behind) =>
      let outcome := LineOutcome.ofLine isHeader languageSeen context line behind
      match _classified : outcome.after with
      | .ok (next, later) =>
          (ofLines isHeader outcome.languageSeen next later).prepend outcome.entries
      | .error (.unexpectedEnd _ number) => ⟨outcome.entries, outcome.languageSeen, .ok number⟩
      | .error cause => ⟨outcome.entries, outcome.languageSeen, .error cause⟩
termination_by reader
decreasing_by
  exact (LineOutcome.notBefore_of_ofLine _classified).of_behind
    (Reader.behind_of_nextLine _read)

/-- What all lines of a file declare. -/
def ofFile (isHeader languageSeen : Bool) (reader : Reader) : FileOutcome :=
  ofLines isHeader languageSeen .start reader

end FileOutcome

end TadsReference
