import TadsReference.Text.Blank
import TadsReference.Text.Lines
import TadsReference.Text.Search

/-!
# Include lines

A line that begins with `#include` names another file in double quotes or in angle brackets.
-/

namespace TadsReference

/-- The text between the two delimiters of a name, if the given text begins with the first. -/
def delimitedName? (opening closing : Char) : List Char → Option (List Char)
  | [] => none
  | character :: rest =>
      if character == opening then (Text.cut? [closing] rest).map (·.1) else none

/-- The text that an include line names, blanks around it included. -/
def includeName? (line : List Char) : Option (List Char) :=
  match Text.cut? "#include".toList (Text.trimStart line) with
  | some ([], rest) =>
      delimitedName? '"' '"' (Text.trimStart rest) <|>
        delimitedName? '<' '>' (Text.trimStart rest)
  | _ => none

/-- The names of the files that a source text includes, in order. Empty names are dropped. -/
def includedNames (text : List Char) : List String :=
  (((Text.lines text).filterMap includeName?).map fun name =>
    String.ofList (Text.trim name)).filter (· != "")

end TadsReference
