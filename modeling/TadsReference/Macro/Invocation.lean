import TadsReference.Text.Blank

/-!
# Argument lists of macro invocations

An argument list begins with a parenthesis right behind the macro's name and ends at the
parenthesis that closes it. The commas at its top level separate the arguments. Quotes have no
meaning here.
-/

namespace TadsReference.Macro

/-- What stands behind a macro's name. -/
inductive Invocation where
  /-- No argument list. -/
  | absent
  /-- An argument list that does not end. -/
  | unclosed
  /-- The arguments of a list and the text behind it. -/
  | closed (arguments : List (List Char)) (rest : List Char)
deriving Repr, DecidableEq

/-- The segments between top-level commas up to the closing parenthesis, and the text behind it.
`depth` counts the inner parentheses that are open. -/
def segments? (depth : Nat) : List Char → Option (List (List Char) × List Char)
  | [] => none
  | character :: rest =>
      if character == ')' && depth == 0 then some ([[]], rest)
      else if character == ',' && depth == 0 then
        (segments? 0 rest).map fun found => ([] :: found.1, found.2)
      else
        let inner :=
          if character == '(' then depth + 1
          else if character == ')' then depth - 1
          else depth
        (segments? inner rest).map fun found =>
          (found.1.modifyHead (character :: ·), found.2)

theorem length_lt_of_segments? {text rest : List Char} {depth : Nat}
    {segments : List (List Char)} (found : segments? depth text = some (segments, rest)) :
    rest.length < text.length := by
  induction text generalizing depth segments with
  | nil => contradiction
  | cons character tail ih =>
      simp only [segments?] at found
      split at found
      · simp only [Option.some.injEq, Prod.mk.injEq] at found
        simp [← found.2]
      · split at found
        all_goals
          rcases Option.map_eq_some_iff.mp found with ⟨⟨inner, remaining⟩, foundRest, shape⟩
          simp only [Prod.mk.injEq] at shape
          rcases shape with ⟨_, rfl⟩
          have shorter := ih foundRest
          simp only [List.length_cons]
          omega

/-- Reads the argument list that begins a text. -/
def Invocation.read : List Char → Invocation
  | '(' :: text =>
      match segments? 0 text with
      | some (segments, rest) => .closed (segments.map Text.trim) rest
      | none => .unclosed
  | _ => .absent

theorem Invocation.length_lt_of_read {text rest : List Char} {arguments : List (List Char)}
    (found : Invocation.read text = .closed arguments rest) : rest.length < text.length := by
  unfold Invocation.read at found
  split at found
  · next tail =>
      split at found
      · next segments remaining inner =>
          simp only [Invocation.closed.injEq] at found
          have shorter := length_lt_of_segments? inner
          simp only [← found.2, List.length_cons]
          omega
      · contradiction
  · contradiction

end TadsReference.Macro
