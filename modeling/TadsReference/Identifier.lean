import TadsReference.Token

/-!
# Identifiers in a text

An identifier occurs in a text where a maximal run of identifier characters spells it. Positions
count the bytes of the text's UTF-8 form.
-/

namespace TadsReference.Identifier

/-- A maximal run of identifier characters and the positions at which it begins and ends. -/
structure Run where
  start : Nat
  stop : Nat
  name : List Char
deriving Repr, DecidableEq

/-- The runs of a text that itself begins at a given position. -/
def runsFrom (position : Nat) : List Char → List Run
  | [] => []
  | character :: rest =>
      if isIdentifierCharacter character then
        let name := character :: rest.takeWhile isIdentifierCharacter
        ⟨position, position + name.length, name⟩ ::
          runsFrom (position + name.length) (rest.dropWhile isIdentifierCharacter)
      else runsFrom (position + character.utf8Size) rest
termination_by text => text.length
decreasing_by
  · have shorter := (List.dropWhile_sublist (l := rest) isIdentifierCharacter).length_le
    simp
    omega
  · simp

/-- The identifiers of a text in order, with the positions at which they begin and end. -/
def runs (text : List Char) : List Run :=
  runsFrom 0 text

/-- The identifiers of a text that begin at a position or behind it. -/
def runsAfter (text : List Char) (position : Nat) : List Run :=
  (runs text).filter fun run => position ≤ run.start

/-- The first run that begins at or after a position. -/
def find? (text : List Char) (position : Nat) : Option Run :=
  (runsAfter text position).head?

/-- Whether a text contains a name as a whole identifier. -/
def occursIn (name : String) (text : List Char) : Bool :=
  (runs text).any fun run => run.name == name.toList

/-- The first run of a text and what follows it. What stands before the run is dropped. -/
def first? (text : List Char) : Option (List Char × List Char) :=
  match text.dropWhile fun character => !isIdentifierCharacter character with
  | [] => none
  | character :: rest =>
      some (character :: rest.takeWhile isIdentifierCharacter,
        rest.dropWhile isIdentifierCharacter)

/-- The text with every run replaced by what a function makes of it. -/
def mapRuns (replace : List Char → List Char) : List Char → List Char
  | [] => []
  | character :: rest =>
      if isIdentifierCharacter character then
        replace (character :: rest.takeWhile isIdentifierCharacter) ++
          mapRuns replace (rest.dropWhile isIdentifierCharacter)
      else character :: mapRuns replace rest
termination_by text => text.length
decreasing_by
  · have shorter := (List.dropWhile_sublist (l := rest) isIdentifierCharacter).length_le
    simp
    omega
  · simp

theorem first?_eq_some {text run rest : List Char} (found : first? text = some (run, rest)) :
    ∃ gap, text = gap ++ run ++ rest ∧ run ≠ [] ∧
      ∀ character ∈ run, isIdentifierCharacter character := by
  unfold first? at found
  split at found
  · contradiction
  · next character tail remaining =>
      simp only [Option.some.injEq, Prod.mk.injEq] at found
      have whole := List.takeWhile_append_dropWhile
        (p := fun character => !isIdentifierCharacter character) (l := text)
      refine ⟨text.takeWhile fun character => !isIdentifierCharacter character, ?_, ?_, ?_⟩
      · rw [← found.1, ← found.2, List.append_assoc, List.cons_append,
          List.takeWhile_append_dropWhile, ← remaining, whole]
      · simp [← found.1]
      · intro symbol member
        have begins : isIdentifierCharacter character := by
          have failing := List.head?_dropWhile_not
            (fun character => !isIdentifierCharacter character) text
          simpa [remaining] using failing
        rw [← found.1] at member
        rcases List.mem_cons.mp member with rfl | member
        · exact begins
        · exact List.all_eq_true.mp List.all_takeWhile symbol member

theorem length_lt_of_first? {text run rest : List Char} (found : first? text = some (run, rest)) :
    rest.length < text.length := by
  obtain ⟨gap, shape, nonempty, _⟩ := first?_eq_some found
  have positive := List.length_pos_iff.mpr nonempty
  simp [shape]
  omega

end TadsReference.Identifier
