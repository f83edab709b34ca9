import Mathlib.Data.List.Forall2
import Mathlib.Data.List.TakeWhile
import TadsReference.Proofs.Text.Words

/-!
# Lines of tokens

Tokens that are written with blanks between them are the tokens of the line, since no token goes on
behind a blank: `all_of_spaced`.
-/

namespace TadsReference

/-- A run that begins in a text ends there, if what follows does not go on with it. -/
theorem Identifier.takeWhile_append_apart {rest : List Char} (apart : Apart rest)
    (text : List Char) :
    (text ++ rest).takeWhile isIdentifierCharacter = text.takeWhile isIdentifierCharacter ∧
      (text ++ rest).dropWhile isIdentifierCharacter =
        text.dropWhile isIdentifierCharacter ++ rest := by
  induction text with
  | nil => exact takeWhile_append_of_apart nofun apart
  | cons character text ih => cases same : isIdentifierCharacter character <;> simp [same, ih]

namespace Token

variable {text line rest : List Char} {token : String} {tokens : List String}

/-! ### All tokens of a line -/

theorem all_of_next? (first : next? line = some (token, rest)) : all line = token :: all rest := by
  rw [all]
  split
  · simp_all
  · next found =>
      obtain ⟨rfl, rfl⟩ := Prod.mk.inj (Option.some.inj (first.symm.trans found))
      rfl

theorem all_of_end (ended : next? line = none) : all line = [] := by
  rw [all]
  split <;> simp_all

/-- The first token is empty where there is none. -/
theorem next_fst (line : List Char) : (next line).1 = (all line).headD "" := by
  rw [next]
  cases first : next? line with
  | none =>
      rw [all_of_end first]
      rfl
  | some found =>
      rw [all_of_next? first]
      rfl

/-- Taking one token leaves the others. -/
theorem all_next_snd (line : List Char) : all (next line).2 = (all line).tail := by
  rw [next]
  cases first : next? line with
  | none =>
      rw [all_of_end first]
      exact all_of_end rfl
  | some found =>
      rw [all_of_next? first]
      rfl

theorem all_of_blank (blank : ∀ character ∈ line, Text.isBlank character = true) :
    all line = [] := by
  apply all_of_end
  rw [← List.append_nil line, next?_append blank]
  rfl

/-! ### Tokens with blanks between them -/

/-- The lexer reads a text as one token. -/
def IsToken (token : String) : Prop :=
  next? token.toList = some (token, [])

/-- A line is written with blanks between its tokens. There may be others before and behind them. -/
inductive Spaced : List String → List Char → Prop
  | blank {gap : List Char} (isGap : ∀ character ∈ gap, Text.isBlank character = true) :
      Spaced [] gap
  | token {gap rest : List Char} {token : String} {tokens : List String}
      (isGap : ∀ character ∈ gap, Text.isBlank character = true) (isToken : IsToken token)
      (apart : ∀ character ∈ rest.head?, Text.isBlank character = true)
      (spaced : Spaced tokens rest) :
      Spaced (token :: tokens) (gap ++ (token.toList ++ rest))

theorem isBlank_of_mem_operators :
    ∀ operator ∈ operators, ∀ character ∈ operator.toList, Text.isBlank character = false := by
  have none : ∀ operator ∈ operators, operator.toList.any Text.isBlank = false := by
    decide
  intro operator isOperator
  simpa using none operator isOperator

/-- No token goes on with a character. -/
structure Separates (character : Char) : Prop where
  notIdentifier : isIdentifierCharacter character = false
  notOperator : ∀ operator ∈ operators, character ∉ operator.toList

theorem separates_of_isBlank {character : Char} (blank : Text.isBlank character = true) :
    Separates character := by
  refine ⟨Text.isIdentifierCharacter_of_isBlank blank, fun operator isOperator isPart => ?_⟩
  rw [isBlank_of_mem_operators operator isOperator character isPart] at blank
  contradiction

theorem separates_comma : Separates ',' :=
  ⟨by decide, by decide⟩

theorem subset_of_next? (first : next? text = some (token, rest)) :
    token.toList ++ rest ⊆ text := by
  rw [← eq_append_of_scan? first]
  exact (List.dropWhile_suffix _).subset

/-- What no token goes on with does not change the first token of the text before it. No operator
and no identifier goes on with it, so the same operators are found in front, and the same run. -/
theorem scan?_append (filled : text ≠ []) (apart : ∀ character ∈ rest.head?, Separates character) :
    scan? (text ++ rest) = (scan? text).map fun found => (found.1, found.2 ++ rest) := by
  have same : operators.find? (·.toList.isPrefixOf (text ++ rest)) =
      operators.find? (·.toList.isPrefixOf text) := by
    rw [← List.head?_filter, ← List.head?_filter]
    congr 1
    apply List.filter_congr
    intro operator isOperator
    apply Text.isPrefixOf_append
    exact fun character isHead => (apart character isHead).notOperator operator isOperator
  simp only [scan?, same]
  cases found : operators.find? (·.toList.isPrefixOf text) with
  | some operator =>
      have starts : operator.toList.isPrefixOf text := by
        simpa using List.find?_some found
      have shorter := (List.isPrefixOf_iff_prefix.mp starts).length_le
      simp [List.drop_append_of_le_length (String.length_toList ▸ shorter)]
  | none =>
      have others : Identifier.Apart rest :=
        fun character isHead => (apart character isHead).notIdentifier
      cases text with
      | nil => contradiction
      | cons character text =>
          have run := Identifier.takeWhile_append_apart others text
          cases isIdentifier : isIdentifierCharacter character <;> simp [isIdentifier, run]

/-- Every text that is not empty begins with a token, as a single character is one if nothing longer
is. -/
theorem exists_scan? (filled : text ≠ []) : ∃ token rest, scan? text = some (token, rest) := by
  obtain ⟨character, rest, rfl⟩ := List.exists_cons_of_ne_nil filled
  unfold scan?
  split
  · exact ⟨_, _, rfl⟩
  · split
    · contradiction
    · split_ifs <;> exact ⟨_, _, rfl⟩

/-- A line has no token just if it is blank. -/
theorem next?_eq_none_iff :
    next? text = none ↔ ∀ character ∈ text, Text.isBlank character = true := by
  rw [← List.dropWhile_eq_nil_iff]
  constructor
  · intro ended
    by_contra filled
    obtain ⟨token, rest, scanned⟩ := exists_scan? filled
    rw [next?, Text.trimStart, scanned] at ended
    contradiction
  · intro blank
    rw [next?, Text.trimStart, blank]
    rfl

/-- What no token goes on with does not change the first token of a line before it. -/
theorem next?_append_of_separates (first : next? text = some (token, line))
    (apart : ∀ character ∈ rest.head?, Separates character) :
    next? (text ++ rest) = some (token, line ++ rest) := by
  have filled : Text.trimStart text ≠ [] := by
    intro empty
    rw [next?, empty] at first
    contradiction
  have starts : Text.trimStart (text ++ rest) = Text.trimStart text ++ rest := by
    unfold Text.trimStart at filled ⊢
    rw [List.dropWhile_append, if_neg (by simpa using filled)]
  rw [next?] at first
  rw [next?, starts, scan?_append filled apart, first]
  rfl

/-- A token that a blank follows is read back. -/
theorem IsToken.next?_append (isToken : IsToken token)
    (apart : ∀ character ∈ rest.head?, Text.isBlank character = true) :
    next? (token.toList ++ rest) = some (token, rest) :=
  next?_append_of_separates isToken fun character isHead =>
    separates_of_isBlank (apart character isHead)

/-- The tokens of a line are those that were written with blanks between them, by induction on the
way in which it was written. -/
theorem all_of_spaced (spaced : Spaced tokens line) : all line = tokens := by
  induction spaced with
  | blank isGap => exact all_of_blank isGap
  | token isGap isToken apart _ ih =>
      rw [all_of_next? ((Token.next?_append isGap _).trans (isToken.next?_append apart)), ih]

theorem Spaced.space (spaced : Spaced tokens line) : Spaced tokens (' ' :: line) := by
  have isBlank : Text.isBlank ' ' = true := by decide
  cases spaced with
  | blank isGap => exact .blank (List.forall_mem_cons.mpr ⟨isBlank, isGap⟩)
  | token isGap isToken apart spaced =>
      exact .token (List.forall_mem_cons.mpr ⟨isBlank, isGap⟩) isToken apart spaced

/-- Tokens that are joined by blanks make up a line. The induction is on the tokens, with a case of
its own for the last one, behind which no blank stands. -/
theorem spaced_join (areTokens : ∀ token ∈ tokens, IsToken token) :
    Spaced tokens (Text.join " " tokens).toList := by
  induction tokens with
  | nil => exact .blank (by simp [Text.join])
  | cons token tokens ih =>
      obtain ⟨isToken, areTokens⟩ := List.forall_mem_cons.mp areTokens
      cases tokens with
      | nil =>
          have spelling : (Text.join " " [token]).toList = [] ++ (token.toList ++ []) := by
            simp [Text.join]
          rw [spelling]
          exact .token nofun isToken nofun (.blank nofun)
      | cons second tokens =>
          have spelling : (Text.join " " (token :: second :: tokens)).toList =
              [] ++ (token.toList ++ ' ' :: (Text.join " " (second :: tokens)).toList) := by
            simp [Text.join, String.intercalate_cons_cons]
          rw [spelling]
          exact .token nofun isToken (by simp; decide) (ih areTokens).space

theorem map_all_of_spaced {chunks : List (List String)} {texts : List (List Char)}
    (spaced : List.Forall₂ Spaced chunks texts) : texts.map all = chunks := by
  induction spaced with
  | nil => rfl
  | cons first _ ih => rw [List.map_cons, all_of_spaced first, ih]

end Token

end TadsReference
