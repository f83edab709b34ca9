import TadsReference.Macro.Pasting
import TadsReference.Macro.Quoting

/-!
# Macro definitions

A definition expands to its body, in which the parameters are replaced by the arguments, the
quoting operators are applied and then the pasting operator.
-/

namespace TadsReference

/-- A macro: its name, its parameters and its body. -/
structure MacroDefinition where
  name : String
  parameters : List String
  body : String
deriving Repr, DecidableEq, Inhabited

namespace MacroDefinition

/-- The argument for an identifier of the body: that of the first parameter of this name. Other
identifiers stand for themselves. -/
def argumentFor (parameters : List String) (arguments : List (List Char)) (run : List Char) :
    List Char :=
  let name := String.ofList run
  match (parameters.zip arguments).find? (·.1 == name) with
  | some (_, argument) => argument
  | none => run

/-- The body with the arguments in the place of the parameters. -/
def substitute (definition : MacroDefinition) (arguments : List (List Char)) : List Char :=
  Identifier.mapRuns (argumentFor definition.parameters arguments) definition.body.toList

/-- The expansion for a list of arguments. If their number is not that of the parameters, it is
the bare body. -/
def expand (definition : MacroDefinition) (arguments : List (List Char)) : List Char :=
  if arguments.length == definition.parameters.length then
    Macro.applyPasting (Macro.applyQuoting (definition.substitute arguments))
  else definition.body.toList

end MacroDefinition

end TadsReference
