import TadsReference.Text.Search

/-!
# JSON values

Values are written with one item a line, each level indented by two spaces, and with the fields of
an object in the order of their names.
-/

namespace TadsReference

/-- A value of JSON. An object keeps its fields in the order in which they are written. -/
inductive JsonValue where
  | null
  | bool (value : Bool)
  | number (value : Nat)
  | string (value : String)
  | array (items : List JsonValue)
  | object (fields : List (String × JsonValue))

namespace JsonValue

/-- The object with given fields, sorted by their names. -/
def ofFields (fields : List (String × JsonValue)) : JsonValue :=
  .object (fields.mergeSort fun left right => (compare left.1 right.1).isLE)

/-- The array of what is made of each item of a list. -/
def ofList {Item : Type} (encode : Item → JsonValue) (items : List Item) : JsonValue :=
  .array (items.map encode)

/-- The array of some texts. -/
def ofStrings (texts : List String) : JsonValue :=
  ofList .string texts

/-- What is made of an item, or null if there is none. -/
def ofOption {Item : Type} (encode : Item → JsonValue) : Option Item → JsonValue
  | some item => encode item
  | none => .null

/-- The digit of a value below 16. -/
def hexDigit (value : Nat) : Char :=
  if value < 10 then Char.ofNat ('0'.toNat + value) else Char.ofNat ('a'.toNat + (value - 10))

/-- A character as it is written between quotes. -/
def escape (character : Char) : List Char :=
  match character with
  | '"' => ['\\', '"']
  | '\\' => ['\\', '\\']
  | '\x08' => ['\\', 'b']
  | '\x0c' => ['\\', 'f']
  | '\n' => ['\\', 'n']
  | '\x0d' => ['\\', 'r']
  | '\t' => ['\\', 't']
  | _ =>
      if character.toNat < 0x20 then
        ['\\', 'u', '0', '0', hexDigit (character.toNat / 16), hexDigit (character.toNat % 16)]
      else [character]

/-- A string between quotes. -/
def quoted (text : String) : String :=
  String.ofList ('"' :: text.toList.flatMap escape ++ ['"'])

/-- The line feed and the blanks in front of an item at a level. -/
def indentation (level : Nat) : String :=
  String.ofList ('\n' :: List.replicate (2 * level) ' ')

/-- Puts items between brackets, each on a line of its own. -/
def bracketed (level : Nat) (opening closing : String) (items : List String) : String :=
  if items.isEmpty then opening ++ closing
  else
    opening ++ Text.join "," (items.map (indentation (level + 1) ++ ·)) ++ indentation level ++
      closing

mutual

/-- Writes a value at a level. -/
def writeAt (level : Nat) : JsonValue → String
  | null => "null"
  | bool value => if value then "true" else "false"
  | number value => toString value
  | string value => quoted value
  | array items => bracketed level "[" "]" (writeItems (level + 1) items)
  | object fields => bracketed level "\x7b" "\x7d" (writeFields (level + 1) fields)

/-- The texts of the items of an array, each at the same level. -/
def writeItems (level : Nat) : List JsonValue → List String
  | [] => []
  | item :: items => writeAt level item :: writeItems level items

/-- The texts of the fields of an object, each with its name. -/
def writeFields (level : Nat) : List (String × JsonValue) → List String
  | [] => []
  | (name, value) :: fields =>
      (quoted name ++ ": " ++ writeAt level value) :: writeFields level fields

end

/-- Writes a value as a text that a line feed ends. -/
def write (value : JsonValue) : String :=
  writeAt 0 value ++ "\n"

end JsonValue

end TadsReference
