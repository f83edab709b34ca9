/-!
# Finding a pattern in a text

A text is cut at the first place where a pattern stands. Every other search is built on that.
-/

namespace TadsReference.Text

/-- What stands before and after the first occurrence of a pattern. -/
def cut? (pattern : List Char) : (text : List Char) → Option (List Char × List Char)
  | [] => if pattern.isEmpty then some ([], []) else none
  | character :: rest =>
      if pattern.isPrefixOf (character :: rest) then
        some ([], (character :: rest).drop pattern.length)
      else
        (cut? pattern rest).map fun found => (character :: found.1, found.2)

/-- A cut loses the pattern and nothing else. The induction is on the text, since the search goes on
behind its first character where it does not begin with the pattern. -/
theorem eq_append_of_cut? {pattern text before after : List Char}
    (found : cut? pattern text = some (before, after)) : text = before ++ pattern ++ after := by
  induction text generalizing before with
  | nil =>
      simp only [cut?] at found
      split at found
      · next empty => simp_all
      · contradiction
  | cons character rest ih =>
      simp only [cut?] at found
      split at found
      · next starts =>
          obtain ⟨tail, shape⟩ := List.isPrefixOf_iff_prefix.mp starts
          simp only [Option.some.injEq, Prod.mk.injEq] at found
          obtain ⟨rfl, rfl⟩ := found
          simp [← shape]
      · obtain ⟨⟨before', after'⟩, foundRest, shape⟩ := Option.map_eq_some_iff.mp found
        simp only [Prod.mk.injEq] at shape
        obtain ⟨rfl, rfl⟩ := shape
        simpa using ih foundRest

/-- Whether a text contains another one. -/
def containsText (pattern text : List Char) : Bool :=
  (cut? pattern text).isSome

/-- The text with every occurrence of a pattern replaced, found from left to right. -/
def replaceAll (pattern replacement text : List Char) : List Char :=
  if pattern.isEmpty then text
  else
    match _found : cut? pattern text with
    | none => text
    | some (before, after) => before ++ replacement ++ replaceAll pattern replacement after
termination_by text.length
decreasing_by
  have shape := eq_append_of_cut? _found
  have nonempty : pattern ≠ [] := by simpa using ‹¬pattern.isEmpty = true›
  have positive := List.length_pos_iff.mpr nonempty
  simp [shape]
  omega

/-- Texts one behind the other, with a separator between them. -/
def join (separator : String) (texts : List String) : String :=
  String.intercalate separator texts

end TadsReference.Text
