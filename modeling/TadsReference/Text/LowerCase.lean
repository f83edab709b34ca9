import TadsReference.Text.LetterCase

/-!
# Lower case

The full lower-case form of a text. It depends on the place of a letter in one case only: a
capital sigma at the end of a word becomes a final sigma.
-/

namespace TadsReference.Text

/-- Whether the nearest character that is not ignored for case is cased. -/
def meetsCased (characters : List Char) : Bool :=
  match characters.dropWhile caseIgnorableCharacters.contains with
  | [] => false
  | nearest :: _ => casedCharacters.contains nearest

/-- The lower-case form of a character apart from its neighbours. Only a capital I with a dot
above has a form of two characters. -/
def lowerCharacter (character : Char) : List Char :=
  if character.toNat < 0x80 then [character.toLower]
  else if character == '\u0130' then ['i', '\u0307']
  else [(lowerCaseIntervals.findSome? (·.lower? character.toNat)).getD character]

/-- The lower-case form of a text, where `before` holds the characters before it, nearest
first. -/
def lowerAfter (before : List Char) : List Char → List Char
  | [] => []
  | character :: rest =>
      let lowered :=
        if character == '\u03A3' then
          if meetsCased before && !meetsCased rest then ['\u03C2'] else ['\u03C3']
        else lowerCharacter character
      lowered ++ lowerAfter (character :: before) rest

/-- A text in lower case. -/
def lowerCase (text : String) : String :=
  String.ofList (lowerAfter [] text.toList)

end TadsReference.Text
