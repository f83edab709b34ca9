import TadsReference.Entry.BaseList
import TadsReference.Reader.Gather

/-!
# Grammar rules

A rule is the text up to the first colon that stands outside quotes. It may span lines, and quotes
stay open across them. A backslash takes the special meaning from the next character of its line.
-/

namespace TadsReference.GrammarRule

/-- The quote that is open behind a quotation mark. -/
def toggle (quote : Option Char) (mark : Char) : Option Char :=
  match quote with
  | some opening => if opening == mark then none else quote
  | none => some mark

/-- What a line of a rule holds. -/
inductive Scan where
  /-- The rule ends on the line, with this text before and after its colon. -/
  | ends (before after : List Char)
  /-- The rule goes on, with this quote open. -/
  | continues (quote : Option Char)
deriving Repr, DecidableEq

/-- Puts text before the end of a rule. -/
def Scan.prepend (text : List Char) : Scan → Scan
  | ends before after => ends (text ++ before) after
  | continues quote => continues quote

/-- Looks for the end of a rule on a line at whose start a quote may be open. -/
def scan (quote : Option Char) : List Char → Scan
  | [] => .continues quote
  | ['\\'] => .continues quote
  | '\\' :: escaped :: rest => (scan quote rest).prepend ['\\', escaped]
  | character :: rest =>
      if character == ':' && quote.isNone then .ends [] rest
      else if character == '\'' || character == '"' then
        (scan (toggle quote character) rest).prepend [character]
      else (scan quote rest).prepend [character]

/-- A rule that has not ended: its lines so far and the quote that is open. -/
structure Open where
  pieces : List (List Char)
  quote : Option Char
deriving Repr, DecidableEq

/-- The pieces of a rule with one more, unless that one is blank. -/
def addPiece (pieces : List (List Char)) (piece : List Char) : List (List Char) :=
  if Text.isBlankText piece then pieces else pieces ++ [Text.trimEnd piece]

/-- Reads one more line of a rule. A complete rule is its lines and the text behind its colon. -/
def continueOn (rule : Open) (line : List Char) :
    Progress Open (List (List Char) × List Char) :=
  match scan rule.quote line with
  | .ends before after => .complete (addPiece rule.pieces before, after)
  | .continues quote => .waiting ⟨addPiece rule.pieces line, quote⟩

/-- The text of a rule, one line of the source a line. -/
def text (pieces : List (List Char)) : String :=
  String.ofList (Text.trim (['\n'].intercalate pieces))

/-- The head of a rule: the name of its class, the macro call it was written as, and the text
behind the name and its colon. -/
structure Head where
  name : String
  macroCall : Option String
  rest : List Char
deriving Repr, DecidableEq

/-- Reads the name of a rule, which may have a tag in parentheses. In a verb rule the tag is all
there is. -/
def name? (verbRule : Bool) (rest sourceText : List Char) : Option Head :=
  match Token.next? rest with
  | none => none
  | some (name, rest) =>
      if name == "(" || Token.peek rest == "(" then
        let (tag, behind) := Token.next (if name == "(" then rest else (Token.next rest).2)
        match Token.next? behind with
        | some (")", rest) =>
            let stem := if verbRule then "VerbRule" else name
            some
              { name := stem ++ "(" ++ tag ++ ")"
                macroCall := if verbRule then some (upToParenthesis sourceText) else none
                rest := rest }
        | _ => none
      else some { name := name, macroCall := none, rest := rest }

/-- Reads the head of a rule. Only a verb rule may lack the colon. -/
def head? (rest sourceText : List Char) : Option Head :=
  let verbRule := Token.peek sourceText == "VerbRule"
  (name? verbRule rest sourceText).bind fun head =>
    if Token.peek head.rest == ":" then some { head with rest := (Token.next head.rest).2 }
    else if verbRule then some head
    else none

/-- What a grammar rule declares once it has been read to its end: a class with the bases that stand
behind the rule. -/
def declared (head : Head) (pieces : List (List Char)) (bases : List Char) :
    String × Declared :=
  (head.name, .classBlock
    { bases := baseList bases
      macroCall := head.macroCall
      rule := some (text pieces) })

end TadsReference.GrammarRule
