import TadsReference.Text.Blank
import TadsReference.Text.Search

/-!
# The pasting operator of macro bodies

The operator `##` joins what stands on its two sides and takes the blanks around it away. Two
string literals that meet become one.
-/

namespace TadsReference.Macro

/-- Joins two texts. Where they meet with the same kind of quote, both quotes go. -/
def joinLiterals (left right : List Char) : List Char :=
  if ['"', '\''].any fun quote => left.getLast? == some quote && right.head? == some quote then
    left.dropLast ++ right.tail
  else left ++ right

theorem count_joinLiterals_le (left right : List Char) :
    (joinLiterals left right).count '#' ≤ left.count '#' + right.count '#' := by
  unfold joinLiterals
  split
  · rw [List.count_append]
    exact Nat.add_le_add ((List.dropLast_sublist left).count_le _)
      ((List.tail_sublist right).count_le _)
  · simp

theorem count_trimStart_le (text : List Char) :
    (Text.trimStart text).count '#' ≤ text.count '#' :=
  (List.dropWhile_sublist _).count_le _

theorem count_trimEnd_le (text : List Char) :
    (Text.trimEnd text).count '#' ≤ text.count '#' := by
  have fewer := (List.dropWhile_sublist (l := text.reverse) Text.isBlank).count_le '#'
  simpa [Text.trimEnd, Text.dropEndWhile] using fewer

/-- Applies every `##`, always the leftmost one first. -/
def applyPasting (text : List Char) : List Char :=
  match _found : Text.cut? ['#', '#'] text with
  | none => text
  | some (before, after) =>
      applyPasting (joinLiterals (Text.trimEnd before) (Text.trimStart after))
termination_by text.count '#'
decreasing_by
  have shape := Text.eq_append_of_cut? _found
  have fewer := count_joinLiterals_le (Text.trimEnd before) (Text.trimStart after)
  have fewerBefore := count_trimEnd_le before
  have fewerAfter := count_trimStart_le after
  simp [shape]
  omega

end TadsReference.Macro
