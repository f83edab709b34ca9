import TadsReference.Text.Blank

/-!
# Tokens

A line is read token by token. A token is one of the fixed operators, a longest run of identifier
characters, or any other single character. Blanks separate tokens and belong to none.
-/

namespace TadsReference

/-- Whether a character can stand in an identifier or a number: an ASCII letter, an ASCII digit or
an underscore. -/
def isIdentifierCharacter (character : Char) : Bool :=
  character.isAlphanum || character == '_'

namespace Token

/-- The fixed operators. None begins with one that is listed before it. -/
def operators : List String :=
  ["(", ")", "[", "]", "=", ":", ";", "...", "/*", "*/", "//", "\x7b", "\x7d", "##", "#"]

/-- Takes the token at the front of a text that does not begin with a blank. -/
def scan? (text : List Char) : Option (String × List Char) :=
  match operators.find? (·.toList.isPrefixOf text) with
  | some operator => some (operator, text.drop operator.length)
  | none =>
      match text with
      | [] => none
      | character :: rest =>
          if isIdentifierCharacter character then
            some (String.ofList (character :: rest.takeWhile isIdentifierCharacter),
              rest.dropWhile isIdentifierCharacter)
          else some (String.singleton character, rest)

/-- The first token of a line and what follows it, if the line has a token. -/
def next? (line : List Char) : Option (String × List Char) :=
  scan? (Text.trimStart line)

/-- The first token of a line, which is empty at the end of the line, and what follows it. -/
def next (line : List Char) : String × List Char :=
  (next? line).getD ("", [])

/-- The first token of a line, left in place. -/
def peek (line : List Char) : String :=
  (next line).1

theorem length_lt_of_scan? {text rest : List Char} {token : String}
    (scanned : scan? text = some (token, rest)) : rest.length < text.length := by
  unfold scan? at scanned
  split at scanned
  · next operator found =>
      have starts : operator.toList.isPrefixOf text := by
        simpa using List.find?_some found
      have positive : 0 < operator.length := by
        have member := List.mem_of_find?_eq_some found
        simp only [operators, List.mem_cons, List.not_mem_nil, or_false] at member
        rcases member with rfl | rfl | rfl | rfl | rfl | rfl | rfl | rfl | rfl | rfl | rfl | rfl |
          rfl | rfl | rfl <;> decide
      obtain ⟨tail, shape⟩ := List.isPrefixOf_iff_prefix.mp starts
      have measure : text.length = operator.length + tail.length := by
        simp [← shape, String.length_toList]
      simp only [Option.some.injEq, Prod.mk.injEq] at scanned
      rw [← scanned.2, List.length_drop]
      omega
  · split at scanned
    · contradiction
    · next character tail _ =>
        have shorter := (List.dropWhile_sublist (l := tail) isIdentifierCharacter).length_le
        split at scanned
        · simp only [Option.some.injEq, Prod.mk.injEq] at scanned
          rw [← scanned.2, List.length_cons]
          omega
        · simp only [Option.some.injEq, Prod.mk.injEq] at scanned
          rw [← scanned.2, List.length_cons]
          omega

theorem length_lt_of_next? {line rest : List Char} {token : String}
    (read : next? line = some (token, rest)) : rest.length < line.length :=
  Nat.lt_of_lt_of_le (length_lt_of_scan? read) (Text.length_trimStart_le line)

theorem length_next_le (line : List Char) : (next line).2.length ≤ line.length := by
  unfold next
  cases read : next? line with
  | none => simp
  | some found => exact Nat.le_of_lt (length_lt_of_next? read)

/-- All tokens of a line in order. -/
def all (line : List Char) : List String :=
  match _read : next? line with
  | none => []
  | some (token, rest) => token :: all rest
termination_by line.length
decreasing_by exact length_lt_of_next? _read

/-- At most `limit` tokens of a line, and what follows them. -/
def take : (limit : Nat) → (line : List Char) → List String × List Char
  | 0, line => ([], line)
  | limit + 1, line =>
      match next? line with
      | none => ([], [])
      | some (token, rest) => (token :: (take limit rest).1, (take limit rest).2)

end Token

end TadsReference
