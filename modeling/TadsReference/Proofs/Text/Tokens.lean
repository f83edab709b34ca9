import TadsReference.Proofs.Text.Identifiers

/-!
# Tokens of written text

What the lexer finds in a text of which some parts are known: blanks are passed over, and an
identifier that nothing continues is one token. No identifier is lost between the tokens of a line:
`names_of_next?`.
-/

namespace TadsReference

namespace Text

theorem trimEnd_prefix (text : List Char) : trimEnd text <+: text := by
  have shorter := List.reverse_prefix.mpr (List.dropWhile_suffix isBlank (l := text.reverse))
  rwa [List.reverse_reverse] at shorter

/-- What is dropped at the end of a text are characters to be dropped. -/
theorem exists_dropEndWhile_append (drops : Char → Bool) (text : List Char) :
    ∃ dropped, text = dropEndWhile drops text ++ dropped ∧
      ∀ character ∈ dropped, drops character = true := by
  refine ⟨(text.reverse.takeWhile drops).reverse, ?_, ?_⟩
  · rw [dropEndWhile, ← List.reverse_append, List.takeWhile_append_dropWhile, List.reverse_reverse]
  · intro character isDropped
    exact List.all_eq_true.mp List.all_takeWhile character (List.mem_reverse.mp isDropped)

/-- Nothing is dropped before a character that stays. -/
theorem dropEndWhile_append {drops : Char → Bool} {character : Char}
    (stays : drops character = false) (left right : List Char) :
    dropEndWhile drops (left ++ character :: right) =
      left ++ character :: dropEndWhile drops right := by
  have ends : (right.reverse ++ character :: left.reverse).dropWhile drops =
      right.reverse.dropWhile drops ++ character :: left.reverse := by
    rw [List.dropWhile_append]
    split
    · next all => simp [List.isEmpty_iff.mp all, stays]
    · rfl
  simp [dropEndWhile, ends]

/-- A text that is cut at its end is cut behind an identifier that stays. -/
theorem dropEndWhile_run {drops : Char → Bool} {run left right : List Char}
    (isRun : Identifier.IsRun run)
    (stays : ∀ character, isIdentifierCharacter character = true → drops character = false) :
    dropEndWhile drops (left ++ (run ++ right)) = left ++ (run ++ dropEndWhile drops right) := by
  rcases List.eq_nil_or_concat run with rfl | ⟨others, last, rfl⟩
  · exact absurd rfl isRun.nonempty
  · have staysLast := stays last (isRun.all last (by simp))
    simpa using dropEndWhile_append staysLast (left ++ others) right

/-- The first of the parts into which a text is divided. -/
theorem headD_splitOn (separator : Char) (text : List Char) :
    (text.splitOn separator).headD [] = text.takeWhile (· != separator) := by
  induction text with
  | nil => rfl
  | cons character rest ih =>
      rw [List.splitOn_cons_eq_if_modifyHead]
      by_cases same : character = separator
      · simp [same]
      · cases parts : rest.splitOn separator with
        | nil => exact absurd parts (List.splitOn_ne_nil _ _)
        | cons first others => simp_all

theorem trimStart_append {gap : List Char} (blank : ∀ character ∈ gap, isBlank character = true)
    (text : List Char) : trimStart (gap ++ text) = trimStart text :=
  List.dropWhile_append_of_pos blank

theorem trimStart_of_not_isBlank {character : Char} (visible : isBlank character = false)
    (rest : List Char) : trimStart (character :: rest) = character :: rest := by
  simp [trimStart, visible]

/-- The characters of identifiers are ASCII. -/
theorem toNat_of_isIdentifierCharacter {character : Char}
    (isIdentifier : isIdentifierCharacter character = true) :
    48 ≤ character.toNat ∧ character.toNat ≤ 122 := by
  delta isIdentifierCharacter Char.isAlphanum Char.isAlpha Char.isUpper Char.isLower Char.isDigit
    at isIdentifier
  simp only [Bool.or_eq_true, Bool.and_eq_true, decide_eq_true_eq, beq_iff_eq,
    UInt32.le_iff_toNat_le, ge_iff_le] at isIdentifier
  rcases isIdentifier with (((upper | lower) | digit) | rfl)
  · exact ⟨Nat.le_trans (by decide) upper.1, Nat.le_trans upper.2 (by decide)⟩
  · exact ⟨Nat.le_trans (by decide) lower.1, Nat.le_trans lower.2 (by decide)⟩
  · exact ⟨Nat.le_trans (by decide) digit.1, Nat.le_trans digit.2 (by decide)⟩
  · decide

/-- No blank stands in an identifier. -/
theorem isBlank_of_isIdentifierCharacter {character : Char}
    (isIdentifier : isIdentifierCharacter character = true) : isBlank character = false := by
  have ascii := toNat_of_isIdentifierCharacter isIdentifier
  rw [isBlank, Bool.eq_false_iff, Ne, CodePointSet.contains_iff]
  simp only [blankCharacters, List.mem_cons, List.not_mem_nil, or_false]
  rintro ⟨interval, member, inside⟩
  rcases member with rfl | rfl | rfl | rfl | rfl | rfl | rfl | rfl | rfl | rfl <;>
    simp only at inside <;> omega

theorem isIdentifierCharacter_of_isBlank {character : Char}
    (blank : isBlank character = true) : isIdentifierCharacter character = false := by
  rw [Bool.eq_false_iff]
  intro isIdentifier
  rw [isBlank_of_isIdentifierCharacter isIdentifier] at blank
  contradiction

end Text

namespace Identifier

variable {others text : List Char}

/-- An identifier is spelled differently from what holds another character. -/
theorem IsRun.ne {word symbol : String} (isRun : IsRun word.toList)
    (other : ∃ character ∈ symbol.toList, isIdentifierCharacter character = false) :
    word ≠ symbol := by
  rintro rfl
  obtain ⟨character, member, fails⟩ := other
  simp [isRun.all character member] at fails

/-- An identifier is none of some symbols. -/
theorem IsRun.not_mem {word : String} {symbols : List String} (isRun : IsRun word.toList)
    (others : ∀ symbol ∈ symbols, symbol.toList.any (!isIdentifierCharacter ·) = true) :
    word ∉ symbols := by
  intro isSymbol
  obtain ⟨character, member, fails⟩ := List.any_eq_true.mp (others word isSymbol)
  exact isRun.ne ⟨character, member, by simpa using fails⟩ rfl

theorem names_append_left (isOther : ∀ character ∈ others, isIdentifierCharacter character = false)
    (text : List Char) : names (others ++ text) = names text := by
  induction others with
  | nil => rfl
  | cons character others ih =>
      obtain ⟨isFirst, isOther⟩ := List.forall_mem_cons.mp isOther
      rw [List.cons_append, names_other isFirst]
      exact ih isOther

theorem names_eq_nil (isOther : ∀ character ∈ others, isIdentifierCharacter character = false) :
    names others = [] := by
  simpa [names_nil] using names_append_left isOther []

theorem names_append_right (isOther : ∀ character ∈ others, isIdentifierCharacter character = false)
    (text : List Char) : names (text ++ others) = names text := by
  have apart : Apart others :=
    fun character isHead => isOther character (List.mem_of_mem_head? isHead)
  rw [names_append apart, names_eq_nil isOther, List.append_nil]

end Identifier

namespace Token

open Identifier

variable {word rest : List Char} {character : Char}

theorem ne_nil_of_mem_operators : ∀ operator ∈ operators, operator.toList ≠ [] := by
  decide

theorem isIdentifierCharacter_of_mem_operators :
    ∀ operator ∈ operators, ∀ character ∈ operator.toList,
      isIdentifierCharacter character = false := by
  have none : ∀ operator ∈ operators, operator.toList.any isIdentifierCharacter = false := by
    decide
  intro operator isOperator
  simpa using none operator isOperator

theorem head?_of_starts {operator : String} (isOperator : operator ∈ operators)
    (starts : operator.toList.isPrefixOf (character :: rest) = true) :
    operator.toList.head? = some character := by
  cases spelling : operator.toList with
  | nil => exact absurd spelling (ne_nil_of_mem_operators operator isOperator)
  | cons first behind =>
      simp only [spelling, List.isPrefixOf_cons_cons, Bool.and_eq_true, beq_iff_eq] at starts
      rw [starts.1]
      rfl

theorem next?_append {gap : List Char}
    (blank : ∀ character ∈ gap, Text.isBlank character = true) (text : List Char) :
    next? (gap ++ text) = next? text := by
  rw [next?, Text.trimStart_append blank, ← next?]

theorem next?_space (text : List Char) : next? (' ' :: text) = next? text :=
  next?_append (List.forall_mem_singleton.mpr (by decide)) text

/-- An identifier that does not go on is a token. Operators contain no identifier characters, so
none of them is found in its place. -/
theorem next?_word (isRun : IsRun word) (apart : Apart rest) :
    next? (word ++ rest) = some (String.ofList word, rest) := by
  rcases word with _ | ⟨character, others⟩
  · exact absurd rfl isRun.nonempty
  · have isIdentifier := isRun.all character List.mem_cons_self
    have visible := Text.isBlank_of_isIdentifierCharacter isIdentifier
    have none : operators.find? (·.toList.isPrefixOf (character :: (others ++ rest))) = none := by
      rw [List.find?_eq_none]
      intro operator isOperator starts
      have begins := List.mem_of_mem_head? (head?_of_starts isOperator starts)
      rw [isIdentifierCharacter_of_mem_operators operator isOperator character begins]
        at isIdentifier
      contradiction
    have spans := takeWhile_append_of_apart
      (fun symbol isSymbol => isRun.all symbol (List.mem_cons_of_mem _ isSymbol)) apart
    rw [List.cons_append, next?, Text.trimStart_of_not_isBlank visible, scan?, none]
    simp [isIdentifier, spans.1, spans.2]

/-- A character that belongs to no identifier is a token, unless it begins a longer operator. -/
theorem next?_symbol (other : isIdentifierCharacter character = false)
    (visible : Text.isBlank character = false)
    (single : ∀ operator ∈ operators, operator.toList.isPrefixOf (character :: rest) = true →
      operator = String.singleton character) :
    next? (character :: rest) = some (String.singleton character, rest) := by
  rw [next?, Text.trimStart_of_not_isBlank visible, scan?]
  cases found : operators.find? (·.toList.isPrefixOf (character :: rest)) with
  | none => simp [other]
  | some operator =>
      have starts := List.find?_some found
      obtain rfl := single operator (List.mem_of_find?_eq_some found) starts
      simp

/-- A `#` is a token by itself, unless another one follows it. The only operators that begin like it
are `##` and itself. -/
theorem next?_hash (single : rest.head? ≠ some '#') : next? ('#' :: rest) = some ("#", rest) := by
  have candidates : ∀ operator ∈ operators, operator.toList.head? = some '#' →
      operator = "##" ∨ operator = "#" := by
    decide
  apply next?_symbol (by decide) (by decide)
  intro operator isOperator starts
  rcases candidates operator isOperator (head?_of_starts isOperator starts) with rfl | rfl
  · cases rest with
    | nil => contradiction
    | cons first rest =>
        have starts : ['#', '#'].isPrefixOf ('#' :: first :: rest) = true := starts
        obtain rfl : '#' = first := by simpa using starts
        exact absurd rfl single
  · rfl

/-- A character with which no longer operator begins is a token, whatever follows. -/
theorem next?_single (other : isIdentifierCharacter character = false)
    (visible : Text.isBlank character = false)
    (single : ∀ operator ∈ operators, operator.toList.head? = some character →
      operator = String.singleton character) (rest : List Char) :
    next? (character :: rest) = some (String.singleton character, rest) := by
  apply next?_symbol other visible
  exact fun operator isOperator starts =>
    single operator isOperator (head?_of_starts isOperator starts)

theorem next?_colon (rest : List Char) : next? (':' :: rest) = some (":", rest) :=
  next?_single (by decide) (by decide) (by decide) rest

theorem next?_comma (rest : List Char) : next? (',' :: rest) = some (",", rest) :=
  next?_single (by decide) (by decide) (by decide) rest

/-! ### Identifiers of tokens -/

variable {text : List Char} {token : String}

/-- The first token of a text is the first operator that begins it, or else the identifier that
begins it, or else its first character. -/
theorem scan?_cases (scanned : scan? text = some (token, rest)) :
    (operators.find? (·.toList.isPrefixOf text) = some token ∧ text = token.toList ++ rest) ∨
    (operators.find? (·.toList.isPrefixOf text) = none ∧
      ((∃ run, IsRun run ∧ Apart rest ∧ token = String.ofList run ∧ text = run ++ rest) ∨
        ∃ character, isIdentifierCharacter character = false ∧
          token = String.singleton character ∧ text = character :: rest)) := by
  unfold scan? at scanned
  split at scanned
  · next operator found =>
      have starts : operator.toList.isPrefixOf text := by
        simpa using List.find?_some found
      obtain ⟨tail, rfl⟩ := List.isPrefixOf_iff_prefix.mp starts
      obtain ⟨rfl, rfl⟩ : operator = token ∧ tail = rest := by
        simpa [← String.length_toList] using scanned
      exact .inl ⟨found, rfl⟩
  · next none =>
      refine .inr ⟨none, ?_⟩
      split at scanned
      · cases scanned
      · next character tail =>
          split at scanned
          · next isIdentifier =>
              cases scanned
              exact .inl ⟨_, isRun_takeWhile isIdentifier tail, apart_dropWhile tail, rfl, by simp⟩
          · next isOther =>
              cases scanned
              exact .inr ⟨character, by simpa using isOther, rfl, rfl⟩

theorem eq_append_of_scan? (scanned : scan? text = some (token, rest)) :
    text = token.toList ++ rest := by
  rcases scan?_cases scanned with ⟨_, shape⟩ | ⟨_, ⟨run, _, _, rfl, rfl⟩ | ⟨character, _, rfl, rfl⟩⟩
  · exact shape
  · simp
  · simp

/-- A token is an identifier that does not go on, or it has no part in identifiers. -/
theorem isRun_or_others_of_scan? (scanned : scan? text = some (token, rest)) :
    (IsRun token.toList ∧ Apart rest) ∨ (token.toList ≠ [] ∧
      ∀ character ∈ token.toList, isIdentifierCharacter character = false) := by
  rcases scan?_cases scanned with ⟨found, _⟩ | ⟨_, word | symbol⟩
  · have isOperator := List.mem_of_find?_eq_some found
    exact .inr ⟨ne_nil_of_mem_operators token isOperator,
      isIdentifierCharacter_of_mem_operators token isOperator⟩
  · obtain ⟨run, isRun, apart, rfl, _⟩ := word
    rw [String.toList_ofList]
    exact .inl ⟨isRun, apart⟩
  · obtain ⟨character, isOther, rfl, _⟩ := symbol
    rw [String.toList_singleton]
    exact .inr ⟨List.cons_ne_nil _ _, List.forall_mem_singleton.mpr isOther⟩

/-- No identifier is lost or cut when the first token of a text is taken, for a token either is an
identifier that does not go on or has no part in one. -/
theorem names_of_scan? (scanned : scan? text = some (token, rest)) :
    names text = names token.toList ++ names rest := by
  rw [eq_append_of_scan? scanned]
  rcases isRun_or_others_of_scan? scanned with ⟨isRun, apart⟩ | ⟨_, others⟩
  · rw [names_run isRun apart, names_isRun isRun, List.singleton_append]
  · rw [names_append_left others, names_eq_nil others, List.nil_append]

/-- A line is its first token and what follows it, behind characters that have no part in
identifiers. -/
theorem exists_gap_of_next? {line : List Char} (read : next? line = some (token, rest)) :
    ∃ gap, line = gap ++ (token.toList ++ rest) ∧
      ∀ character ∈ gap, isIdentifierCharacter character = false := by
  refine ⟨line.takeWhile Text.isBlank, ?_, fun character isGap => ?_⟩
  · rw [← eq_append_of_scan? read, Text.trimStart, List.takeWhile_append_dropWhile]
  · exact Text.isIdentifierCharacter_of_isBlank
      (List.all_eq_true.mp List.all_takeWhile character isGap)

/-- The identifiers of a line are those of its first token and those behind it. -/
theorem names_of_next? {line : List Char} (read : next? line = some (token, rest)) :
    names line = names token.toList ++ names rest := by
  obtain ⟨gap, rfl, others⟩ := exists_gap_of_next? read
  have scanned : scan? (Text.trimStart (gap ++ (token.toList ++ rest))) = some (token, rest) := read
  rw [names_append_left others, ← eq_append_of_scan? scanned, names_of_scan? scanned]

theorem names_next_subset (line : List Char) : names (next line).2 ⊆ names line := by
  unfold next
  cases read : next? line with
  | none => simp [names_nil]
  | some found =>
      rw [names_of_next? read]
      exact List.subset_append_right _ _

end Token

end TadsReference
