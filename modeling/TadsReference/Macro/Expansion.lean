import TadsReference.Failure
import TadsReference.Macro.Invocation
import TadsReference.Macro.Scope

/-!
# Expansion of a line

A pass replaces every invocation in a line once, from left to right. Passes are repeated until one
finds nothing to replace. A line whose macros do not come to rest within the limit is a failure.
-/

namespace TadsReference

/-- What one pass makes of a line. -/
structure ExpansionPass where
  text : List Char
  /-- The name of the last macro that was expanded. -/
  expanded : Option String
  /-- Whether an invocation's argument list does not end within the line. -/
  unclosed : Bool
deriving Repr, DecidableEq

namespace ExpansionPass

/-- What has been done when no text has been looked at. -/
def nothing : ExpansionPass where
  text := []
  expanded := none
  unclosed := false

/-- Puts text that stays as it is before the result of a pass. -/
def keep (text : List Char) (pass : ExpansionPass) : ExpansionPass :=
  { pass with text := text ++ pass.text }

/-- Puts the expansion of a macro before the result of a pass. -/
def insertExpansion (name : String) (text : List Char) (pass : ExpansionPass) : ExpansionPass :=
  { pass with text := text ++ pass.text, expanded := pass.expanded <|> some name }

end ExpansionPass

/-- What becomes of a line that may be continued on the next ones. -/
inductive Expansion where
  | complete (text : List Char)
  /-- An argument list is still open at the end of the line. -/
  | incomplete
deriving Repr, DecidableEq

namespace MacroScope

/-- One pass over a text. A macro without parameters is replaced by its body, one with parameters
together with the argument list behind its name. -/
def expandOnce (scope : MacroScope) : List Char → ExpansionPass
  | [] => .nothing
  | character :: tail =>
      if isIdentifierCharacter character then
        let run := character :: tail.takeWhile isIdentifierCharacter
        let rest := tail.dropWhile isIdentifierCharacter
        match scope.lookup? run with
        | none => (scope.expandOnce rest).keep run
        | some definition =>
            if definition.parameters.isEmpty then
              (scope.expandOnce rest).insertExpansion definition.name definition.body.toList
            else
              match _found : Macro.Invocation.read rest with
              | .closed arguments remaining =>
                  (scope.expandOnce remaining).insertExpansion definition.name
                    (definition.expand arguments)
              | .unclosed => { (scope.expandOnce rest).keep run with unclosed := true }
              | .absent => (scope.expandOnce rest).keep run
      else (scope.expandOnce tail).keep [character]
termination_by text => text.length
decreasing_by
  all_goals
    have shorter := (List.dropWhile_sublist (l := tail) isIdentifierCharacter).length_le
    simp only [List.length_cons]
  · omega
  · omega
  · have closing := Macro.Invocation.length_lt_of_read _found
    simp only [rest] at closing
    omega
  · omega
  · omega
  · omega

/-- Repeats passes until one changes nothing, at most `passes` of them. `last` names the macro
that was expanded last. -/
def settle (scope : MacroScope) : (passes : Nat) → (last : String) → List Char →
    Except Failure (List Char)
  | 0, last, _ => .error (.endlessExpansion last)
  | passes + 1, _, text =>
      let pass := scope.expandOnce text
      match pass.expanded with
      | none => .ok text
      | some name => scope.settle passes name pass.text

/-- Expands a line. An argument list that is not closed counts as plain text. -/
def expandAvailable (scope : MacroScope) (line : List Char) : Except Failure (List Char) :=
  scope.settle expansionLimit "" line

/-- Expands a line, unless an argument list is still open at its end. -/
def expandLine (scope : MacroScope) (line : List Char) : Except Failure Expansion :=
  if (scope.expandOnce line).unclosed then .ok .incomplete
  else (scope.expandAvailable line).map .complete

end MacroScope

end TadsReference
