import TadsReference.Reader.Gather

/-!
# Block comments

A comment that ends on its first line is kept as it stands. In a longer one the decoration of the
lines is dropped and the words are gathered into paragraphs. Copyright notices do not count.
-/

namespace TadsReference.BlockComment

/-- Whether a line of a comment belongs to a copyright notice. -/
def isNotice (line : List Char) : Bool :=
  let notice := "This file is part of TADS 3".toList
  "Copyright ".toList.isPrefixOf line || notice.isPrefixOf line ||
    (line.head? == some '.' && line.tail.head?.any Text.isBlank &&
      notice.isPrefixOf (Text.trimStart line.tail))

/-- What a line of a comment adds to it. -/
inductive Item where
  | word (letters : List Char)
  | paragraph
deriving Repr, DecidableEq

/-- Whether an item is a word. -/
def Item.letters? : Item → Option (List Char)
  | word letters => some letters
  | paragraph => none

/-- Takes the decoration off a line. A star alone, or one with a full stop, begins a
paragraph. -/
def undecorate (line : List Char) : List Item × List Char :=
  match Text.trim line with
  | ['*'] => ([.paragraph], [])
  | '*' :: '.' :: ' ' :: rest => ([.paragraph], rest)
  | '*' :: ' ' :: rest => ([], rest)
  | text => ([], text)

/-- What a line of a comment adds to it: perhaps a paragraph, and its words. -/
def lineItems (line : List Char) : List Item :=
  let (start, rest) := undecorate line
  let text := Text.trim rest
  if isNotice text then start else start ++ (Text.words text).map .word

/-- The paragraphs of a comment that hold words. -/
def paragraphs (items : List Item) : List (List (List Char)) :=
  ((items.splitOnP (· == .paragraph)).map (·.filterMap Item.letters?)).filter (!·.isEmpty)

/-- The text of a comment: the words of a paragraph with spaces, the paragraphs with empty lines
between them. -/
def text (lines : List (List Char)) : String :=
  String.ofList (['\n', '\n'].intercalate
    ((paragraphs (lines.flatMap lineItems)).map ([' '].intercalate ·)))

/-- One more line of a comment. The comment is complete where the mark that closes it is found, and
what stands behind the mark is dropped. -/
def continueOn (lines : List (List Char)) (line : List Char) :
    Progress (List (List Char)) String :=
  match Text.cut? ['*', '/'] line with
  | some (before, _) => .complete (text (lines ++ [before]))
  | none => .waiting (lines ++ [line])

/-- Reads the first line of a comment behind its opening. -/
def start (rest : List Char) : Progress (List (List Char)) String :=
  match Text.cut? ['*', '/'] rest with
  | some (before, _) => .complete (String.ofList (Text.trim before))
  | none => .waiting [rest]

end TadsReference.BlockComment
