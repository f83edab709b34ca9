import TadsReference.Entry.OfLine

/-!
# The recognisers of lines

However many forms lines have, there are three ways to recognise one: a line is complete in itself,
it begins a construct that is gathered line by line, or it defines a macro. What holds of these
three holds of every line: `recogniser_recognise`. What gathers lines is written as a `>>=` here, so
that what holds of its steps can be put together.
-/

namespace TadsReference

namespace Recognised

/-- To gather a construct is to read its lines first and then to make of its value what becomes of
it. -/
theorem gathered_eq_bind {State Value : Type} (step : State → List Char → Progress State Value)
    (progress : Progress State Value) (finish : Value → Option Entry × Context) (reader : Reader) :
    gathered step progress finish reader =
      reader.gather step progress >>= fun found => ofLine (finish found.1) found.2 := by
  unfold gathered
  rcases reader.gather step progress with cause | ⟨value, later⟩ <;> rfl

/-- What becomes of a macro definition whose body has been read. -/
def finishMacro (context : Context) (line : Nat) (name : String) :
    Option (List String × String) × Reader → Except Failure Recognised
  | (some (parameters, body), later) =>
      ofLine (context.record line (some (name, .macroDefinition parameters body)))
        (later.define ⟨name, parameters, body⟩)
  | (none, later) => ofLine (context.record line none) later

theorem definedMacro_eq_bind (context : Context) (line : Nat) (rest : List Char) (reader : Reader) :
    definedMacro context line rest reader =
      match Token.next? rest with
      | none => ofLine (context.record line none) reader
      | some (name, rest) => MacroBody.read rest reader >>= finishMacro context line name := by
  unfold definedMacro
  rcases Token.next? rest with _ | ⟨name, rest⟩
  · rfl
  · dsimp only
    rcases MacroBody.read rest reader with cause | ⟨_ | ⟨parameters, body⟩, later⟩ <;> rfl

end Recognised

/-- A message whose text has been read. -/
def MessageCall.message (kind : MessageKind) (tokens : List String) (number : Nat)
    (text : List Char) : Entry :=
  .declaration (Text.join " " tokens) "" number (.message kind (String.ofList text))

/-- A call without a name defines no message, and the text of any other one is gathered. -/
theorem MessageCall.read_eq_bind (line : List Char) (number : Nat) (reader : Reader) :
    read line number reader =
      match find? none line with
      | none => .ok (none, reader)
      | some (kind, rest) =>
          match nameTokens? rest with
          | none | some ([], _) => .ok (none, reader)
          | some (tokens, rest) =>
              reader.gather continueOn (start rest) >>= fun found =>
                .ok (some (message kind tokens number found.1), found.2) := by
  unfold read
  rcases find? none line with _ | ⟨kind, rest⟩
  · rfl
  · dsimp only
    rcases nameTokens? rest with _ | ⟨_ | ⟨token, tokens⟩, rest⟩
    · rfl
    · rfl
    · dsimp only
      rcases reader.gather continueOn (start rest) with cause | ⟨text, later⟩ <;> rfl

/-- The three ways in which lines are recognised. -/
inductive Recogniser : (Reader → Except Failure Recognised) → Prop
  | ofLine (outcome : Option Entry × Context) : Recogniser (Recognised.ofLine outcome)
  | gathered {State Value : Type} (step : State → List Char → Progress State Value)
      (progress : Progress State Value) (finish : Value → Option Entry × Context) :
      Recogniser (Recognised.gathered step progress finish)
  | definedMacro (context : Context) (line : Nat) (rest : List Char) :
      Recogniser (Recognised.definedMacro context line rest)

namespace Context

variable (context : Context) (indent line : Nat)

theorem recogniser_recogniseProperty (name : String) (interfaceOnly : Bool) :
    Recogniser (context.recogniseProperty indent line name interfaceOnly) := by
  unfold recogniseProperty
  split <;> exact .ofLine _

theorem recogniser_recogniseMethod (name : String) (rest : List Char) (interfaceOnly : Bool) :
    Recogniser (context.recogniseMethod indent line name rest interfaceOnly) := by
  unfold recogniseMethod
  split
  · exact .gathered _ _ _
  · exact .ofLine _

/-- A call opens a block or gathers parameters, depending on its name and on where it stands. -/
theorem recogniser_recogniseCall (name : String) (rest : List Char) (interfaceOnly : Bool) :
    Recogniser (context.recogniseCall indent line name rest interfaceOnly) := by
  unfold recogniseCall
  split
  · exact .ofLine _
  · split
    · exact .ofLine _
    · split
      · exact .gathered _ _ _
      · split
        · exact .gathered _ _ _
        · exact recogniser_recogniseMethod context indent line name rest interfaceOnly

/-- Each form of line is recognised in one of the three ways, so that what holds of these need not
be shown form by form. -/
theorem recogniser_recognise (sourceText : List Char) (form : LineForm) :
    Recogniser fun reader => context.recognise indent line sourceText reader form := by
  cases form with
  | intrinsicClass rest => exact .ofLine _
  | functionSet => exact .ofLine _
  | classHead rest => exact .ofLine _
  | grammarRule rest =>
      simp only [recognise]
      split
      · exact .ofLine _
      · exact .gathered _ _ _
  | modifyBlock rest => exact .ofLine _
  | comment rest => exact .gathered _ _ _
  | enumeration rest => exact .ofLine _
  | macroDefinition rest => exact .definedMacro context line rest
  | template name rest => exact .gathered _ _ _
  | assignment name interfaceOnly =>
      exact recogniser_recogniseProperty context indent line name interfaceOnly
  | objectHead name rest transient =>
      simp only [recognise]
      split <;> exact .ofLine _
  | call name rest interfaceOnly =>
      exact recogniser_recogniseCall context indent line name rest interfaceOnly
  | braced name rest interfaceOnly =>
      exact recogniser_recogniseMethod context indent line name _ interfaceOnly
  | other => exact .ofLine _

end Context

end TadsReference
