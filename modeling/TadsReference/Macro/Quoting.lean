import TadsReference.Identifier
import TadsReference.Text.Search

/-!
# The quoting operators of macro bodies

The operators `#@` and `#` put the identifier that follows them into single quotes. An operator
that no identifier follows disappears. A `#` beside another one belongs to the pasting operator
and stays.
-/

namespace TadsReference.Macro

/-- The text behind a quoting operator: its first identifier in quotes, and what follows. What
stands before the identifier is dropped. -/
def quoteFirst (text : List Char) : List Char :=
  match Identifier.first? text with
  | some (run, rest) => '\'' :: run ++ '\'' :: rest
  | none => text

theorem count_quoteFirst_le (text : List Char) :
    (quoteFirst text).count '#' ≤ text.count '#' := by
  unfold quoteFirst
  split
  · next run rest found =>
      rcases Identifier.first?_eq_some found with ⟨gap, shape, _, _⟩
      simp [shape]
  · exact Nat.le_refl _

/-- Applies every `#@`, always the leftmost one first. -/
def quoteMarked (text : List Char) : List Char :=
  match _found : Text.cut? ['#', '@'] text with
  | none => text
  | some (before, after) => quoteMarked (before ++ quoteFirst after)
termination_by text.count '#'
decreasing_by
  have shape := Text.eq_append_of_cut? _found
  have fewer := count_quoteFirst_le after
  simp [shape]
  omega

/-- Applies every `#` that stands alone, in one passage from left to right. `afterHash` tells
whether the character before the text is a `#`. -/
def quoteSingle (afterHash : Bool) : List Char → List Char
  | [] => []
  | character :: rest =>
      if character == '#' && !afterHash && rest.head? != some '#' then
        match _found : Identifier.first? rest with
        | some (run, remaining) => '\'' :: run ++ '\'' :: quoteSingle false remaining
        | none => quoteSingle false rest
      else character :: quoteSingle (character == '#') rest
termination_by text => text.length
decreasing_by
  · have shorter := Identifier.length_lt_of_first? _found
    simp
    omega
  · simp
  · simp

/-- Applies both quoting operators. -/
def applyQuoting (text : List Char) : List Char :=
  quoteSingle false (quoteMarked text)

end TadsReference.Macro
