import Mathlib.Data.List.Basic
import TadsReference.Proofs.Text.Tokens
import TadsReference.Text.Search

/-!
# Words that are written with spaces

A text without blanks at its ends is left of it when blanks around it are trimmed: `trim_between`.
Words that are joined by spaces are the words of the text: `words_joined`.
-/

namespace TadsReference.Text

variable {drops : Char → Bool} {gap before after text dropped pattern word rest : List Char}
  {written : List (List Char)}

/-! ### Trimming -/

theorem isBlank_space : isBlank ' ' = true := by
  decide

theorem isBlank_return : isBlank '\r' = true := by
  decide

theorem dropEndWhile_behind (goes : ∀ character ∈ dropped, drops character = true)
    (text : List Char) : dropEndWhile drops (text ++ dropped) = dropEndWhile drops text := by
  rw [dropEndWhile, List.reverse_append, List.dropWhile_append_of_pos (by simpa using goes)]
  rfl

theorem dropEndWhile_self (stays : ∀ character ∈ text.getLast?, drops character = false) :
    dropEndWhile drops text = text := by
  rcases List.eq_nil_or_concat' text with rfl | ⟨front, last, rfl⟩
  · rfl
  · have staysLast : drops last = false := stays last (by simp)
    rw [dropEndWhile_append staysLast]
    rfl

/-- What is to be dropped at the end goes, and no more. -/
theorem dropEndWhile_append_dropped (stays : ∀ character ∈ text.getLast?, drops character = false)
    (goes : ∀ character ∈ dropped, drops character = true) :
    dropEndWhile drops (text ++ dropped) = text := by
  rw [dropEndWhile_behind goes, dropEndWhile_self stays]

theorem dropEndWhile_of_getLast?_ne {character : Char} (other : text.getLast? ≠ some character) :
    dropEndWhile (· == character) text = text := by
  apply dropEndWhile_self
  intro last isLast
  rw [beq_eq_false_iff_ne]
  rintro rfl
  exact other isLast

/-- A text has no blanks at its ends. -/
structure Trimmed (text : List Char) : Prop where
  first : ∀ character ∈ text.head?, isBlank character = false
  last : ∀ character ∈ text.getLast?, isBlank character = false

/-- Whether a text has blanks at its ends can be checked. -/
instance (text : List Char) : Decidable (Trimmed text) :=
  decidable_of_iff
    (text.head?.all (!isBlank ·) = true ∧ text.getLast?.all (!isBlank ·) = true) <| by
    simp only [Option.all_eq_true, Bool.not_eq_true']
    exact ⟨fun both => ⟨both.1, both.2⟩, fun trimmed => ⟨trimmed.first, trimmed.last⟩⟩

theorem trim_of_blank (blank : ∀ character ∈ text, isBlank character = true) : trim text = [] := by
  have starts : trimStart text = [] := by
    rw [← List.append_nil text, trimStart_append blank]
    rfl
  rw [trim, starts]
  rfl

/-- Blanks around a text that has none at its ends are trimmed, and no more. -/
theorem Trimmed.trim_between (trimmed : Trimmed text)
    (isBefore : ∀ character ∈ before, isBlank character = true)
    (isAfter : ∀ character ∈ after, isBlank character = true) :
    trim (before ++ (text ++ after)) = text := by
  cases text with
  | nil => exact trim_of_blank (List.forall_mem_append.mpr ⟨isBefore, isAfter⟩)
  | cons character rest =>
      have visible : isBlank character = false := trimmed.first character rfl
      rw [trim, trimStart_append isBefore, List.cons_append, trimStart_of_not_isBlank visible,
        ← List.cons_append, trimEnd, dropEndWhile_append_dropped trimmed.last isAfter]

theorem Trimmed.trim_append (trimmed : Trimmed text)
    (isGap : ∀ character ∈ gap, isBlank character = true) : trim (gap ++ text) = text := by
  have between := trimmed.trim_between isGap (List.forall_mem_nil _)
  rwa [List.append_nil] at between

theorem not_isBlank_of_head?_trimStart :
    ∀ character ∈ (trimStart text).head?, isBlank character = false := by
  intro character isHead
  have ends := List.head?_dropWhile_not isBlank text
  rw [← trimStart, isHead] at ends
  exact ends

/-- What is left when blanks are trimmed has none at its ends. -/
theorem trimmed_trim (text : List Char) : Trimmed (trim text) := by
  constructor
  · intro character isHead
    obtain ⟨behind, shape⟩ := trimEnd_prefix (trimStart text)
    apply not_isBlank_of_head?_trimStart
    rw [← shape]
    exact List.mem_head?_append_of_mem_head? isHead
  · rw [trim, trimEnd, dropEndWhile, List.getLast?_reverse]
    exact not_isBlank_of_head?_trimStart

/-- Trimming takes blanks off both ends. -/
theorem exists_trim (text : List Char) :
    ∃ before after, text = before ++ (trim text ++ after) ∧
      (∀ character ∈ before, isBlank character = true) ∧
      ∀ character ∈ after, isBlank character = true := by
  obtain ⟨after, shape, isAfter⟩ := exists_dropEndWhile_append isBlank (trimStart text)
  refine ⟨text.takeWhile isBlank, after, ?_, List.all_eq_true.mp List.all_takeWhile, isAfter⟩
  rw [trim, trimEnd, ← shape, trimStart, List.takeWhile_append_dropWhile]

/-- Blanks around a text make no difference when it is trimmed. -/
theorem trim_surrounded
    (isBefore : ∀ character ∈ before, isBlank character = true)
    (isAfter : ∀ character ∈ after, isBlank character = true) :
    trim (before ++ (text ++ after)) = trim text := by
  obtain ⟨left, right, shape, isLeft, isRight⟩ := exists_trim text
  have spelled : before ++ (text ++ after) =
      (before ++ left) ++ (trim text ++ (right ++ after)) := by
    conv_lhs => rw [shape]
    simp
  rw [spelled]
  exact (trimmed_trim text).trim_between (List.forall_mem_append.mpr ⟨isBefore, isLeft⟩)
    (List.forall_mem_append.mpr ⟨isRight, isAfter⟩)

/-! ### Words -/

/-- A word is not empty and holds no blank. -/
structure IsWord (word : List Char) : Prop where
  nonempty : word ≠ []
  visible : ∀ character ∈ word, isBlank character = false

/-- Whether a text is a word can be checked character by character. -/
instance : Decidable (IsWord word) :=
  decidable_of_iff (word ≠ [] ∧ word.all (!isBlank ·) = true) <| by
    simp only [List.all_eq_true, Bool.not_eq_true']
    exact ⟨fun both => ⟨both.1, both.2⟩, fun isWord => ⟨isWord.nonempty, isWord.visible⟩⟩

theorem words_word (isWord : IsWord word) : words word = [word] := by
  have whole : word.splitOnP isBlank = [word] :=
    List.splitOnP_eq_singleton (by simpa using isWord.visible)
  simp [words, whole, isWord.nonempty]

theorem words_word_cons (isWord : IsWord word) (rest : List Char) :
    words (word ++ ' ' :: rest) = word :: words rest := by
  have divided : (word ++ ' ' :: rest).splitOnP isBlank =
      word.splitOnP isBlank ++ rest.splitOnP isBlank :=
    List.splitOnP_append_cons word rest (by decide)
  rw [words, divided, List.filter_append]
  exact congrArg (· ++ words rest) (words_word isWord)

/-- Words that are joined by spaces are the words of the text. -/
theorem words_joined (areWords : ∀ word ∈ written, IsWord word) :
    words ([' '].intercalate written) = written := by
  induction written with
  | nil => rfl
  | cons word others ih =>
      obtain ⟨isWord, areWords⟩ := List.forall_mem_cons.mp areWords
      cases others with
      | nil => simpa using words_word isWord
      | cons second others =>
          rw [List.intercalate_cons_cons, List.append_assoc, List.singleton_append,
            words_word_cons isWord, ih areWords]

theorem joined_ne_nil (areWords : ∀ word ∈ written, IsWord word) (filled : written ≠ []) :
    [' '].intercalate written ≠ [] := by
  intro none
  have found := words_joined areWords
  rw [none] at found
  exact filled found.symm

/-- Words that are joined have no blanks at their ends, as the first one begins the text and the
last one ends it. -/
theorem trimmed_joined (areWords : ∀ word ∈ written, IsWord word) :
    Trimmed ([' '].intercalate written) := by
  induction written with
  | nil => exact ⟨nofun, nofun⟩
  | cons word others ih =>
      obtain ⟨isWord, areOthers⟩ := List.forall_mem_cons.mp areWords
      cases others with
      | nil =>
          rw [List.intercalate_singleton]
          exact ⟨fun character isHead => isWord.visible character (List.mem_of_head? isHead),
            fun character isLast => isWord.visible character (List.mem_of_getLast? isLast)⟩
      | cons second others =>
          have filled := joined_ne_nil areOthers (by simp)
          rw [List.intercalate_cons_cons]
          constructor
          · intro character isHead
            rw [List.append_assoc, List.head?_append_of_ne_nil _ isWord.nonempty] at isHead
            exact isWord.visible character (List.mem_of_head? isHead)
          · intro character isLast
            rw [List.getLast?_append_of_ne_nil _ filled] at isLast
            exact (ih areOthers).last character isLast

/-! ### Sequences with separators -/

section

variable {α β : Type} {separator : List α}

/-- What is made of a sequence with separators is what is made of its parts, with what is made of
the separator between them. -/
theorem flatMap_intercalate (adds : α → List β) (separator : List α) (parts : List (List α)) :
    (separator.intercalate parts).flatMap adds =
      (separator.flatMap adds).intercalate (parts.map (·.flatMap adds)) := by
  induction parts with
  | nil => rfl
  | cons part parts ih =>
      cases parts with
      | nil => simp
      | cons second parts => simp_all [List.intercalate_cons_cons]

/-- What holds of a separator and of the parts holds of all that stands between the ends. -/
theorem forall_mem_intercalate {holds : α → Prop} {parts : List (List α)}
    (ofSeparator : ∀ item ∈ separator, holds item)
    (ofParts : ∀ part ∈ parts, ∀ item ∈ part, holds item) :
    ∀ item ∈ separator.intercalate parts, holds item := by
  induction parts with
  | nil => nofun
  | cons part parts ih =>
      obtain ⟨ofPart, ofParts⟩ := List.forall_mem_cons.mp ofParts
      cases parts with
      | nil => simpa using ofPart
      | cons second parts =>
          rw [List.intercalate_cons_cons]
          intro item isItem
          rcases List.mem_append.mp isItem with isBefore | isBehind
          · exact (List.mem_append.mp isBefore).elim (ofPart item) (ofSeparator item)
          · exact ih ofParts item isBehind

end

/-! ### Patterns in a text -/

/-- A pattern is not found just if it stands nowhere in the text. -/
theorem cut?_eq_none_iff (filled : pattern ≠ []) :
    cut? pattern text = none ↔ ¬pattern <:+: text := by
  induction text with
  | nil => simp [cut?, filled]
  | cons character rest ih =>
      rw [cut?, List.infix_cons_iff]
      split
      · next starts => simp [List.isPrefixOf_iff_prefix.mp starts]
      · next other =>
          have noPrefix : ¬pattern <+: character :: rest := by simpa using other
          simp [noPrefix, ih]

theorem cut?_eq_none_of_not_mem {first : Char} (absent : first ∉ text) (pattern : List Char) :
    cut? (first :: pattern) text = none := by
  rw [cut?_eq_none_iff (List.cons_ne_nil _ _)]
  exact fun isInfix => absent (isInfix.subset List.mem_cons_self)

/-- A pattern is found behind a text in which no pattern can begin. It is enough that its first
character does not occur there. -/
theorem cut?_behind {first : Char} (absent : first ∉ text) (rest : List Char) :
    cut? (first :: pattern) (text ++ (first :: pattern) ++ rest) = some (text, rest) := by
  induction text with
  | nil =>
      have starts : (first :: pattern).isPrefixOf (first :: pattern ++ rest) = true := by simp
      rw [List.nil_append, List.cons_append, cut?, ← List.cons_append, if_pos starts,
        List.drop_left]
  | cons character text ih =>
      rw [List.mem_cons, not_or] at absent
      obtain ⟨differs, absent⟩ := absent
      have other : ¬(first :: pattern).isPrefixOf
          (character :: (text ++ (first :: pattern) ++ rest)) = true := by
        simp [differs]
      rw [List.cons_append, List.cons_append, cut?, if_neg other, ih absent]
      rfl

/-- A pattern that lacks the first character behind a text begins the longer text only if it begins
the text itself. -/
theorem isPrefixOf_append (absent : ∀ character ∈ rest.head?, character ∉ pattern)
    (text : List Char) :
    pattern.isPrefixOf (text ++ rest) = pattern.isPrefixOf text := by
  induction pattern generalizing text with
  | nil => simp
  | cons first pattern ih =>
      have absentLater : ∀ character ∈ rest.head?, character ∉ pattern :=
        fun character isHead isLater => absent character isHead (List.mem_cons_of_mem _ isLater)
      cases text with
      | cons character text =>
          rw [List.cons_append, List.isPrefixOf_cons_cons, List.isPrefixOf_cons_cons,
            ih absentLater]
      | nil =>
          cases rest with
          | nil => rfl
          | cons character rest =>
              have differs : first ≠ character := by
                rintro rfl
                exact absent first rfl List.mem_cons_self
              simp [List.isPrefixOf, differs]

/-- A pattern that does not occur in a text is found behind it, if it does not begin in the text. -/
theorem cut?_append (absent : ∀ character ∈ rest.head?, character ∉ pattern)
    (none : cut? pattern text = none) :
    cut? pattern (text ++ rest) =
      (cut? pattern rest).map fun found => (text ++ found.1, found.2) := by
  induction text with
  | nil => simp
  | cons character text ih =>
      rw [cut?] at none
      split at none
      · contradiction
      · next other =>
          have noneBehind : cut? pattern text = Option.none := Option.map_eq_none_iff.mp none
          have stillOther : ¬pattern.isPrefixOf (character :: (text ++ rest)) = true := by
            rwa [← List.cons_append, isPrefixOf_append absent]
          rw [List.cons_append, cut?, if_neg stillOther, ih noneBehind, Option.map_map]
          rfl

end TadsReference.Text
