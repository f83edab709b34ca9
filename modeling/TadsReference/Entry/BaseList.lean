import TadsReference.Entry.Basic
import TadsReference.Text.Search
import TadsReference.Text.WordCharacter
import TadsReference.Token

/-!
# Heads of classes and objects

The first line of a class, an object or a `modify` block: its name and its base classes.
-/

namespace TadsReference

/-- The names of a list that commas separate, up to the first one that no comma follows. -/
def baseList (line : List Char) : List String :=
  match _first : Token.next? line with
  | none => []
  | some (name, rest) =>
      match _second : Token.next? rest with
      | some (",", remaining) => name :: baseList remaining
      | _ => [name]
termination_by line.length
decreasing_by
  have shorter := Token.length_lt_of_next? _first
  have shortest := Token.length_lt_of_next? _second
  omega

/-- The identifiers of a list, with or without commas between them, up to the first token that is
neither an identifier nor a comma. -/
def looseBaseList (line : List Char) : List String :=
  match _read : Token.next? line with
  | none => []
  | some (token, rest) =>
      if token == "," then looseBaseList rest
      else if token.toList.head?.any isIdentifierCharacter then token :: looseBaseList rest
      else []
termination_by line.length
decreasing_by all_goals exact Token.length_lt_of_next? _read

/-- The text of a line, blanks aside, up to its first closing parenthesis. -/
def upToParenthesis (line : List Char) : String :=
  let text := Text.trim line
  match Text.cut? [')'] text with
  | some (before, _) => String.ofList (before ++ [')'])
  | none => String.ofList text

/-- Whether a line begins with the name of a macro that defines an action. -/
def isActionDefinition (line : List Char) : Bool :=
  let word := (Text.trimStart line).takeWhile Text.isWordCharacter
  "Define".toList.isPrefixOf word &&
    ("Action".toList.isSuffixOf (word.drop 6) || "ActionSub".toList.isSuffixOf (word.drop 6))

/-- The class that `NAME: BASES` declares. `sourceText` is the line as it stands in the source. -/
def classHead? (rest sourceText : List Char) : Option (String × Declared) :=
  match Token.next? rest with
  | none => none
  | some (name, rest) =>
      match Token.next? rest with
      | some (":", bases) =>
          let action := isActionDefinition sourceText
          some (name, .classBlock
            { bases := baseList bases
              action := action
              macroCall := if action then some (upToParenthesis sourceText) else none })
      | _ => none

/-- The class that `NAME 'ID': BASES` declares after `intrinsic class`. -/
def intrinsicClassHead? (rest : List Char) : Option (String × Declared) :=
  (Token.next? rest).map fun found =>
    let bases :=
      match Text.cut? [':'] found.2 with
      | some (_, bases) => looseBaseList bases
      | none => []
    (found.1, .classBlock { bases := bases, intrinsic := true })

/-- The block that `NAME` opens after `modify`. -/
def modifyHead? (rest : List Char) : Option (String × Declared) :=
  (Token.next? rest).map fun found => (found.1, .modifyBlock)

/-- The object that `NAME: BASES` declares. It is an action if one of its bases is. -/
def objectHead (name : String) (bases : List String) (transient : Bool) : String × Declared :=
  (name, .objectBlock
    { bases := bases
      transient := transient
      action := bases.any fun base => Text.containsText "Action".toList base.toList })

/-- The macros whose calls declare an action. -/
def actionMacros : List String :=
  ["DefineIAction", "DefineTAction", "DefineTIAction", "DefineLiteralAction",
   "DefineLiteralTAction", "DefineTopicAction", "DefineTopicTAction", "DefineSystemAction",
   "DefineAction"]

/-- The object that a macro call `DefineKIND(NAME)` declares: `NAME`, of class `KIND`. -/
def actionHead? (macroName : String) (rest : List Char) : Option (String × Declared) :=
  (Token.next? rest).map fun found =>
    (found.1, .objectBlock
      { bases := baseList (macroName.toList.drop 6), action := true })

end TadsReference
