import TadsReference.Entry.Basic
import TadsReference.Reader.Gather
import TadsReference.Text.WordCharacter

/-!
# Message definitions

The calls `BMsg(NAME, TEXT)` and `DMsg(NAME, TEXT)` define a message. The text goes up to the end
of the line that holds the next closing parenthesis.
-/

namespace TadsReference.MessageCall

/-- The call that a text begins with, and what stands behind its opening parenthesis. -/
def opening? (text : List Char) : Option (MessageKind × List Char) :=
  [MessageKind.basic, MessageKind.default].findSome? fun kind =>
    if kind.callName.toList.isPrefixOf text then
      match Text.trimStart (text.drop kind.callName.length) with
      | '(' :: rest => some (kind, rest)
      | _ => none
    else none

/-- The first call in a text that does not continue a word. `previous` is the character before
the text. -/
def find? (previous : Option Char) : List Char → Option (MessageKind × List Char)
  | [] => none
  | character :: rest =>
      let here :=
        if previous.any Text.isWordCharacter then none else opening? (character :: rest)
      here <|> find? (some character) rest

/-- The tokens of a message's name, up to the comma or the end of the line, and what follows. A
call that is closed before that has no name. -/
def nameTokens? (line : List Char) : Option (List String × List Char) :=
  match _read : Token.next? line with
  | none => some ([], [])
  | some (token, rest) =>
      if token == "," then some ([], rest)
      else if token == ")" then none
      else (nameTokens? rest).map fun found => (token :: found.1, found.2)
termination_by line.length
decreasing_by exact Token.length_lt_of_next? _read

/-- One more line of a message call. The call is complete with the first line that has a closing
parenthesis in it. -/
def continueOn (text line : List Char) : Progress (List Char) (List Char) :=
  let extended := text ++ ' ' :: Text.trim line
  if line.contains ')' then .complete extended else .waiting extended

/-- The text of a message call on the line on which it begins. It is complete if a closing
parenthesis follows on this line. -/
def start (rest : List Char) : Progress (List Char) (List Char) :=
  if rest.contains ')' then .complete (Text.trim rest) else .waiting (Text.trim rest)

/-- Reads the message that a line defines, if it defines one. -/
def read (line : List Char) (number : Nat) (reader : Reader) :
    Except Failure (Option Entry × Reader) :=
  match find? none line with
  | none => .ok (none, reader)
  | some (kind, rest) =>
      match nameTokens? rest with
      | none | some ([], _) => .ok (none, reader)
      | some (tokens, rest) =>
          match reader.gather continueOn (start rest) with
          | .error cause => .error cause
          | .ok (text, later) =>
              .ok (some (.declaration (Text.join " " tokens) "" number
                (.message kind (String.ofList text))), later)

theorem notBefore_of_read {line : List Char} {number : Nat} {reader later : Reader}
    {entry : Option Entry} (found : read line number reader = .ok (entry, later)) :
    later.NotBefore reader := by
  unfold read at found
  split at found
  · cases found
    exact Reader.NotBefore.refl _
  · split at found
    · cases found
      exact Reader.NotBefore.refl _
    · cases found
      exact Reader.NotBefore.refl _
    · split at found
      · contradiction
      · next gathered =>
          cases found
          exact Reader.notBefore_of_gather gathered

end TadsReference.MessageCall
