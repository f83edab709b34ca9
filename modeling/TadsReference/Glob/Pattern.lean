import TadsReference.Text.Search

/-!
# Wildcard patterns

A pattern stands for the names that it matches. A question mark matches any character, a star any
text, a class in brackets one character, and two stars any number of directories.
-/

namespace TadsReference.Glob

/-- Why a text is no pattern of file names. -/
inductive Fault where
  /-- More than two stars stand together. -/
  | longStars
  /-- Two stars stand beside something other than a slash. -/
  | strayStars
  | openClass
deriving Repr, DecidableEq

/-- Where and why a text is no pattern. -/
structure PatternError where
  position : Nat
  fault : Fault
deriving Repr, DecidableEq

namespace Fault

/-- The text in which a fault of a pattern is reported. -/
def message : Fault → String
  | longStars => "wildcards are either regular `*` or recursive `**`"
  | strayStars => "recursive wildcards must form a single path component"
  | openClass => "invalid range pattern"

end Fault

namespace PatternError

/-- The text in which a fault is reported with the place where it occurs. -/
def message (error : PatternError) : String :=
  s!"Pattern syntax error near position {error.position}: " ++ error.fault.message

end PatternError

/-- What one part of a pattern accepts. -/
inductive Piece where
  | character (expected : Char)
  | anyCharacter
  | anyText
  | anyDirectories
  /-- One character between the bounds of one of the ranges. -/
  | oneOf (ranges : List (Char × Char))
  /-- One character outside all ranges. -/
  | noneOf (ranges : List (Char × Char))
deriving Repr, DecidableEq

/-- A pattern of file names as the sequence of its parts. -/
abbrev Pattern := List Piece

/-! ### Matching -/

/-- Whether a character lies between the bounds of one of some ranges, which belong to them. -/
def inRanges (ranges : List (Char × Char)) (character : Char) : Bool :=
  ranges.any fun range => range.1 ≤ character && character ≤ range.2

/-- Whether a part of a pattern matches a single character. -/
def Piece.accepts : Piece → Char → Bool
  | .character expected, actual => actual == expected
  | .anyCharacter, _ => true
  | .oneOf ranges, actual => inRanges ranges actual
  | .noneOf ranges, actual => !inRanges ranges actual
  | .anyText, _ | .anyDirectories, _ => false

/-- A text, and what is left of it when its first characters are dropped one by one. -/
def suffixes : List Char → List (List Char)
  | [] => [[]]
  | character :: rest => (character :: rest) :: suffixes rest

/-- What a part of a pattern that matches single characters leaves of a text. -/
def Piece.drop? (piece : Piece) : List Char → Option (List Char)
  | [] => none
  | actual :: rest => if piece.accepts actual then some rest else none

/-- What a part of a pattern leaves of several ends of one text. The ends are given and left longest
first. A star leaves of a longer end whatever it leaves of a shorter one. -/
def Piece.leave : Piece → List (List Char) → List (List Char)
  | .anyText, [] => []
  | .anyText, longest :: _ => suffixes longest
  | piece, ends => ends.filterMap piece.drop?

namespace Pattern

/-- Whether a pattern matches a whole name: its parts, one after the other, can leave nothing of
it. -/
def accepts (pattern : Pattern) (name : List Char) : Bool :=
  (pattern.foldl (fun ends piece => piece.leave ends) [name]).contains []

/-- The name that a pattern without wildcards stands for. -/
def plain? : Pattern → Option (List Char)
  | [] => some []
  | .character expected :: pieces => (plain? pieces).map (expected :: ·)
  | _ :: _ => none

/-! ### Reading -/

/-- The ranges that the members of a class stand for. -/
def ranges : List Char → List (Char × Char)
  | low :: '-' :: high :: members => (low, high) :: ranges members
  | single :: members => (single, single) :: ranges members
  | [] => []

/-- The members of a class and the text behind it. A bracket that comes first is a member. -/
def members? : List Char → Option (List Char × List Char)
  | [] => none
  | first :: rest =>
      match rest.dropWhile (· != ']') with
      | [] => none
      | _ :: behind => some (first :: rest.takeWhile (· != ']'), behind)

/-- The class whose opening bracket stands before a text, and the text behind it. -/
def class? : List Char → Option (Piece × List Char)
  | '!' :: text => (members? text).map fun found => (.noneOf (ranges found.1), found.2)
  | text => (members? text).map fun found => (.oneOf (ranges found.1), found.2)

theorem length_lt_of_members? {text members behind : List Char}
    (found : members? text = some (members, behind)) : behind.length < text.length := by
  cases text with
  | nil => contradiction
  | cons first rest =>
      simp only [members?] at found
      split at found
      · contradiction
      · next closing later shape =>
          simp only [Option.some.injEq, Prod.mk.injEq] at found
          have shorter := (List.dropWhile_sublist (l := rest) (· != ']')).length_le
          rw [shape] at shorter
          simp only [List.length_cons, ← found.2] at shorter ⊢
          omega

theorem length_lt_of_class? {text behind : List Char} {piece : Piece}
    (found : class? text = some (piece, behind)) : behind.length < text.length := by
  unfold class? at found
  split at found
  · obtain ⟨⟨members, later⟩, read, shape⟩ := Option.map_eq_some_iff.mp found
    simp only [Prod.mk.injEq] at shape
    have shorter := length_lt_of_members? read
    simp only [List.length_cons, ← shape.2]
    omega
  · obtain ⟨⟨members, later⟩, read, shape⟩ := Option.map_eq_some_iff.mp found
    simp only [Prod.mk.injEq] at shape
    simpa only [← shape.2] using length_lt_of_members? read

/-- Reads the rest of a pattern. `position` counts the characters before it, of which `before` is
the last one. -/
def readFrom (position : Nat) (before : Option Char) (text : List Char) :
    Except PatternError Pattern :=
  match text with
  | [] => .ok []
  | '?' :: rest => (readFrom (position + 1) (some '?') rest).map (.anyCharacter :: ·)
  | '*' :: '*' :: '*' :: _ => .error ⟨position + 2, .longStars⟩
  | '*' :: '*' :: rest =>
      if before.all (· == '/') then
        match rest with
        | [] => .ok [.anyDirectories]
        | '/' :: later => (readFrom (position + 3) (some '/') later).map (.anyDirectories :: ·)
        | _ => .error ⟨position + 2, .strayStars⟩
      else .error ⟨position - 1, .strayStars⟩
  | '*' :: rest => (readFrom (position + 1) (some '*') rest).map (.anyText :: ·)
  | '[' :: rest =>
      match _found : class? rest with
      | some (piece, behind) =>
          (readFrom (position + 1 + (rest.length - behind.length)) (some ']') behind).map
            (piece :: ·)
      | none => .error ⟨position, .openClass⟩
  | character :: rest =>
      (readFrom (position + 1) (some character) rest).map (.character character :: ·)
termination_by text.length
decreasing_by
  all_goals simp only [List.length_cons]
  · omega
  · omega
  · omega
  · have shorter := length_lt_of_class? _found
    omega
  · omega

/-- The pattern that a text stands for, or the place at which it fails to be one. -/
def ofText (text : List Char) : Except PatternError Pattern :=
  readFrom 0 none text

/-- The parts of a path pattern between its slashes. A slash at the end ends the last part. -/
def parts (text : List Char) : List (List Char) :=
  let split := text.splitOn '/'
  if split.getLast? == some [] then split.dropLast else split

/-- The patterns of the parts of a path pattern. The whole must be a pattern, and each part. -/
def ofPath (text : List Char) : Except PatternError (List Pattern) := do
  let _ ← ofText text
  (parts (if text.head? == some '/' then text.tail else text)).mapM ofText

end Pattern

end TadsReference.Glob
