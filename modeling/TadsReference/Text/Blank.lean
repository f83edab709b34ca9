import TadsReference.Text.CodePoints

/-!
# Blank characters

Blanks are the characters with the Unicode property `White_Space`. Trimming and the division of
a text into words are defined by them.
-/

namespace TadsReference.Text

/-- The characters with the Unicode property `White_Space`. -/
def blankCharacters : CodePointSet where
  intervals :=
    [(0x9, 0xD), (0x20, 0x20), (0x85, 0x85), (0xA0, 0xA0), (0x1680, 0x1680), (0x2000, 0x200A),
     (0x2028, 0x2029), (0x202F, 0x202F), (0x205F, 0x205F), (0x3000, 0x3000)]

/-- Whether a character is white space. -/
def isBlank (character : Char) : Bool :=
  blankCharacters.contains character

/-- A text without the white space in front of it. -/
def trimStart (text : List Char) : List Char :=
  text.dropWhile isBlank

/-- The text without its last characters as long as they satisfy a predicate. -/
def dropEndWhile (drops : Char → Bool) (text : List Char) : List Char :=
  (text.reverse.dropWhile drops).reverse

/-- A text without the white space behind it. -/
def trimEnd (text : List Char) : List Char :=
  dropEndWhile isBlank text

/-- A text without the white space at its ends. -/
def trim (text : List Char) : List Char :=
  trimEnd (trimStart text)

/-- Whether a text consists of blanks only. -/
def isBlankText (text : List Char) : Bool :=
  text.all isBlank

/-- The maximal runs of characters that are not blanks. -/
def words (text : List Char) : List (List Char) :=
  (text.splitOnP isBlank).filter fun word => !word.isEmpty

theorem length_trimStart_le (text : List Char) : (trimStart text).length ≤ text.length :=
  (List.dropWhile_sublist _).length_le

end TadsReference.Text
