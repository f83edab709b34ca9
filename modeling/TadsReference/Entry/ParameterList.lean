import TadsReference.Reader.Gather

/-!
# Parameter lists

The parameters of a function, a method or a macro, between parentheses. The list may span lines; a
blank line breaks it off.
-/

namespace TadsReference.ParameterList

/-- Marks the last parameter as one that may be left out. -/
def markOptional (parameters : List String) : List String :=
  match parameters.getLast? with
  | some last => parameters.dropLast ++ [last ++ "?"]
  | none => ["?"]

/-- A complete list is none if it was broken off, or else the parameters and what is left of the
closing line. -/
abbrev Result := Option (List String × List Char)

/-- Reads the parameters on a line behind those read before. A name in brackets is one list
parameter. -/
def scan (parameters : List String) (line : List Char) : Progress (List String) Result :=
  match _read : Token.next? line with
  | none => .waiting parameters
  | some (token, rest) =>
      if token == ")" || token == "\x7b" then .complete (some (parameters, rest))
      else if token == "," then scan parameters rest
      else if token == "?" then scan (markOptional parameters) rest
      else if token == "[" then
        let inner := Token.next rest
        let closing := Token.next inner.2
        scan (parameters ++ [if closing.1 == "]" then "[" ++ inner.1 ++ "]" else inner.1])
          closing.2
      else scan (parameters ++ [token]) rest
termination_by line.length
decreasing_by
  all_goals have shorter := Token.length_lt_of_next? _read
  · exact shorter
  · exact shorter
  · have shorterInner := Token.length_next_le rest
    have shorterClosing := Token.length_next_le (Token.next rest).2
    omega
  · exact shorter

/-- One more line of a parameter list. A blank line breaks the list off, and then there is none. -/
def continueOn (parameters : List String) (line : List Char) : Progress (List String) Result :=
  if Text.isBlankText line then .complete none else scan parameters line

/-- Reads the list behind its opening parenthesis. -/
def read (rest : List Char) (reader : Reader) : Except Failure (Result × Reader) :=
  reader.gather continueOn (scan [] rest)

end TadsReference.ParameterList
