import TadsReference.Entry.ParameterList

/-!
# Declarations in headers

Macro definitions, enumerations and templates. They are recognised in header files only.
-/

namespace TadsReference

namespace MacroBody

/-- Reads one more line of a macro's body, in which backslashes at the end have the next line
continue it. -/
def continueOn (pieces : List (List Char)) (line : List Char) :
    Progress (List (List Char)) String :=
  let text := Text.trim line
  let piece := Text.trimEnd (Text.dropEndWhile (· == '\\') text)
  let extended := if piece.isEmpty then pieces else pieces ++ [piece]
  if text.getLast? == some '\\' then .waiting extended
  else .complete (String.ofList (['\n'].intercalate extended))

/-- Reads a macro definition behind its name. Parameters count only if their parenthesis directly
follows the name. There is no definition if a blank line breaks off the parameters. -/
def read (rest : List Char) (reader : Reader) :
    Except Failure (Option (List String × String) × Reader) := do
  match rest with
  | '(' :: arguments =>
      match ← ParameterList.read arguments reader with
      | (none, later) => return (none, later)
      | (some (parameters, remaining), later) =>
          let (body, last) ← later.gather continueOn (continueOn [] remaining)
          return (some (parameters, body), last)
  | _ =>
      let (body, later) ← reader.gather continueOn (continueOn [] rest)
      return (some ([], body), later)

end MacroBody

/-- The names of an enumeration up to its semicolon. There is no enumeration without one. -/
def enumNames? (line : List Char) : Option (List String) :=
  match _read : Token.next? line with
  | none => none
  | some (token, rest) =>
      if token == ";" then some []
      else if token == "," then enumNames? rest
      else (enumNames? rest).map (token :: ·)
termination_by line.length
decreasing_by all_goals exact Token.length_lt_of_next? _read

namespace TemplateBody

/-- Reads one more line of a template, which ends with a line that holds a semicolon. -/
def addLine (line body : List Char) : Progress (List Char) (List Char) :=
  if (Token.all line).contains ";" then .complete body else .waiting body

/-- Reads the first line of a template behind its keyword. -/
def start (rest : List Char) : Progress (List Char) (List Char) :=
  addLine (Text.trim rest) (Text.trim rest)

/-- Reads a line of a template behind other ones. -/
def continueOn (body line : List Char) : Progress (List Char) (List Char) :=
  addLine (Text.trim line) (body ++ ' ' :: Text.trim line)

end TemplateBody

end TadsReference
