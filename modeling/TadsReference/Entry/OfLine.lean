import TadsReference.Entry.BlockComment
import TadsReference.Entry.Context
import TadsReference.Entry.GrammarRule
import TadsReference.Entry.HeaderLine
import TadsReference.Entry.LineForm
import TadsReference.Entry.MessageCall

/-!
# The entries of a line

A line is classified by its form and its context. A construct that goes on behind the line takes
the lines that follow from the reader. Lines of no known form are skipped.
-/

namespace TadsReference

/-- What became of a line: at most one entry, the context behind it, and the reader behind all
lines that were taken for it. -/
structure Recognised where
  entry : Option Entry
  context : Context
  reader : Reader

namespace Recognised

variable {State Value : Type}

/-- A line that is complete in itself. -/
def ofLine (outcome : Option Entry × Context) (reader : Reader) : Except Failure Recognised :=
  .ok ⟨outcome.1, outcome.2, reader⟩

/-- A construct that may go on behind the line. -/
def gathered (step : State → List Char → Progress State Value)
    (progress : Progress State Value) (finish : Value → Option Entry × Context)
    (reader : Reader) : Except Failure Recognised :=
  match reader.gather step progress with
  | .ok (value, later) => .ok ⟨(finish value).1, (finish value).2, later⟩
  | .error cause => .error cause

/-- A macro definition, which is made visible to the lines behind it. -/
def definedMacro (context : Context) (line : Nat) (rest : List Char) (reader : Reader) :
    Except Failure Recognised :=
  match Token.next? rest with
  | none => ofLine (context.record line none) reader
  | some (name, rest) =>
      match MacroBody.read rest reader with
      | .ok (some (parameters, body), later) =>
          (ofLine (context.record line (some (name, .macroDefinition parameters body))))
            (later.define ⟨name, parameters, body⟩)
      | .ok (none, later) => ofLine (context.record line none) later
      | .error cause => .error cause

end Recognised

namespace Context

/-- A function, unless a blank line breaks off its parameters. -/
def functionNamed (name : String) (list : ParameterList.Result) : Option (String × Declared) :=
  list.map fun found => (name, .function found.1)

/-- A method. The parameter of an action handler becomes part of its name. -/
def methodNamed (name : String) (interfaceOnly : Bool) (parameters : List String) :
    String × Declared :=
  match parameters with
  | [action] =>
      if name == "dobjFor" || name == "iobjFor" then
        (name ++ "(" ++ action ++ ")", .method [] interfaceOnly)
      else (name, .method parameters interfaceOnly)
  | _ => (name, .method parameters interfaceOnly)

/-- Recognises a property of the open block. -/
def recogniseProperty (context : Context) (indent line : Nat) (name : String)
    (interfaceOnly : Bool) (reader : Reader) : Except Failure Recognised :=
  if context.acceptsMembers indent && context.blockOpen then
    Recognised.ofLine (context.record line (some (name, .property interfaceOnly))) reader
  else Recognised.ofLine (none, context) reader

/-- Recognises a method of the open block, with the text behind its opening parenthesis or from
its opening brace on. If a blank line breaks off the parameters, the comment goes on waiting. -/
def recogniseMethod (context : Context) (indent line : Nat) (name : String) (rest : List Char)
    (interfaceOnly : Bool) (reader : Reader) : Except Failure Recognised :=
  if context.acceptsMembers indent && context.blockOpen then
    Recognised.gathered ParameterList.continueOn (ParameterList.scan [] rest)
      (fun list =>
        match list with
        | some (parameters, _) =>
            context.record line (some (methodNamed name interfaceOnly parameters))
        | none => (none, context))
      reader
  else Recognised.ofLine (none, context) reader

/-- Calls with these names declare nothing. -/
def ignoredCalls : List String :=
  ["DefDigit", "defOrdinal", "defTeen", "defTens", "defDigit", "if", "//"]

/-- Recognises what a name with an opening parenthesis declares: an action, a function or a
method. -/
def recogniseCall (context : Context) (indent line : Nat) (name : String) (rest : List Char)
    (interfaceOnly : Bool) (reader : Reader) : Except Failure Recognised :=
  if actionMacros.contains name then
    Recognised.ofLine (context.openBlock line (actionHead? name rest)) reader
  else if ignoredCalls.contains name then Recognised.ofLine (none, context) reader
  else if indent == 0 then
    Recognised.gathered ParameterList.continueOn (ParameterList.scan [] rest)
      (fun list =>
        let (entry, later) := context.record line (functionNamed name list)
        (entry,
          if later.region == .functionSet then later
          else { later with region := .functionBody }))
      reader
  else if context.region == .functionSet then
    Recognised.gathered ParameterList.continueOn (ParameterList.scan [] rest)
      (fun list => context.record line (functionNamed name list)) reader
  else context.recogniseMethod indent line name rest interfaceOnly reader

/-- Recognises a line of a given form. `sourceText` is the line as the source has it. -/
def recognise (context : Context) (indent line : Nat) (sourceText : List Char) (reader : Reader) :
    LineForm → Except Failure Recognised
  | .intrinsicClass rest =>
      Recognised.ofLine (context.openBlock line (intrinsicClassHead? rest)) reader
  | .functionSet => Recognised.ofLine (none, { context with region := .functionSet }) reader
  | .classHead rest =>
      Recognised.ofLine (context.leaveBody.openBlock line (classHead? rest sourceText)) reader
  | .grammarRule rest =>
      match GrammarRule.head? rest sourceText with
      | none => Recognised.ofLine (context.leaveBody.record line none) reader
      | some head =>
          Recognised.gathered GrammarRule.continueOn
            (GrammarRule.continueOn ⟨[], none⟩ head.rest)
            (fun rule => context.leaveBody.openBlock line
              (some (GrammarRule.declared head rule.1 rule.2)))
            reader
  | .modifyBlock rest =>
      Recognised.ofLine (context.leaveBody.openBlock line (modifyHead? rest)) reader
  | .comment rest =>
      Recognised.gathered BlockComment.continueOn (BlockComment.start rest) context.keepComment
        reader
  | .enumeration rest => Recognised.ofLine (context.recordEnum line (enumNames? rest)) reader
  | .macroDefinition rest => Recognised.definedMacro context line rest reader
  | .template name rest =>
      Recognised.gathered TemplateBody.continueOn (TemplateBody.start rest)
        (fun body => context.leaveBody.record line
          (some (name, .template (String.ofList body))))
        reader
  | .assignment name interfaceOnly =>
      context.recogniseProperty indent line name interfaceOnly reader
  | .objectHead name rest transient =>
      if indent == 0 && context.region != .functionBody then
        Recognised.ofLine
          (context.openBlock line (some (objectHead name (baseList rest) transient))) reader
      else Recognised.ofLine (none, context) reader
  | .call name rest interfaceOnly =>
      context.recogniseCall indent line name rest interfaceOnly reader
  | .braced name rest interfaceOnly =>
      context.recogniseMethod indent line name ('\x7b' :: rest) interfaceOnly reader
  | .other => Recognised.ofLine (none, context) reader

end Context

end TadsReference
