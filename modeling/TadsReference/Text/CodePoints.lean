/-!
# Sets of code points

Character classes of the Unicode standard are given as lists of intervals.
-/

namespace TadsReference

/-- A set of characters, listed by the first and last code point of each of its intervals. -/
structure CodePointSet where
  intervals : List (Nat × Nat)

namespace CodePointSet

/-- Whether a character belongs to a set of code points. -/
def contains (set : CodePointSet) (character : Char) : Bool :=
  set.intervals.any fun interval =>
    interval.1 ≤ character.toNat && character.toNat ≤ interval.2

theorem contains_iff {set : CodePointSet} {character : Char} :
    set.contains character ↔
      ∃ interval ∈ set.intervals,
        interval.1 ≤ character.toNat ∧ character.toNat ≤ interval.2 := by
  simp [contains]

end CodePointSet

end TadsReference
