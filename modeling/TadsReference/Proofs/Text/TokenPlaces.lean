import TadsReference.Proofs.Text.SpacedTokens

/-!
# The places of tokens

Taking tokens from a line comes to an end. What is taken is all that is visible of the line, in
order, and each token reaches as far as it can: it is the longest operator at its place, or else a
whole identifier, or else a single character. A token does not depend on what stands behind a blank,
so that the tokens, written with spaces between them, are read again: `tokensOf_all`.
-/

namespace TadsReference.Token

open Identifier

variable {before text rest line : List Char} {token : String} {tokens : List String}

/-- Tokens are taken from a line until one of them is empty. -/
inductive Taken : List Char → List String → Prop
  | ended {line : List Char} (empty : (next line).1 = "") : Taken line []
  | token {line : List Char} {tokens : List String} (filled : (next line).1 ≠ "")
      (taken : Taken (next line).2 tokens) : Taken line ((next line).1 :: tokens)

/-- No operator begins a text. -/
def NoOperator (text : List Char) : Prop :=
  ∀ operator ∈ operators, ¬operator.toList <+: text

/-- What a token can be between what stands before it and what stands behind it. -/
inductive Stands (before : List Char) : (token : String) → (after : List Char) → Prop
  /-- It is the longest operator that can be read. -/
  | operator {token : String} {after : List Char} (isOperator : token ∈ operators)
      (longest : ∀ other ∈ operators, other.toList <+: token.toList ++ after →
        other.length ≤ token.length) : Stands before token after
  /-- No operator can be read, and it is an identifier that goes on neither before nor behind it. -/
  | identifier {run after : List Char} (none : NoOperator (run ++ after))
      (whole : Whole before run after) : Stands before (String.ofList run) after
  /-- Neither can be read, and it is one character. -/
  | character {character : Char} {after : List Char} (none : NoOperator (character :: after))
      (other : isIdentifierCharacter character = false)
      (visible : Text.isBlank character = false) : Stands before (String.singleton character) after

/-- The tokens of what is left of a line, each at its place, with only blanks between them. -/
inductive Placed : (before rest : List Char) → List String → Prop
  | ended {before gap : List Char} (isGap : ∀ character ∈ gap, Text.isBlank character = true) :
      Placed before gap []
  | token {before gap rest : List Char} {token : String} {tokens : List String}
      (isGap : ∀ character ∈ gap, Text.isBlank character = true)
      (stands : Stands (before ++ gap) token rest)
      (placed : Placed (before ++ gap ++ token.toList) rest tokens) :
      Placed before (gap ++ token.toList ++ rest) (token :: tokens)

/-- An identifier that can begin where a text begins does not begin before it. -/
def Begins (before text : List Char) : Prop :=
  (∀ character ∈ before.getLast?, isIdentifierCharacter character = false) ∨ Apart text

theorem begins_nil (text : List Char) : Begins [] text :=
  .inl (by simp)

/-! ### One token -/

/-- The first operator in the list that begins a text is the longest one, since none begins with one
that is listed before it. -/
theorem length_le_of_find? {operator other : String}
    (found : operators.find? (·.toList.isPrefixOf text) = some operator)
    (isOther : other ∈ operators) (starts : other.toList <+: text) :
    other.length ≤ operator.length := by
  have apart : operators.Pairwise fun first later => ¬first.toList <+: later.toList := by
    decide
  obtain ⟨begins, front, later, shape, noneBefore⟩ := List.find?_eq_some_iff_append.mp found
  have begins : operator.toList <+: text := by simpa using begins
  rw [shape] at isOther apart
  by_contra longer
  rcases List.mem_append.mp isOther with isFront | isLater
  · simpa [List.isPrefixOf_iff_prefix.mpr starts] using noneBefore other isFront
  · rcases List.mem_cons.mp isLater with rfl | isLater
    · exact longer (Nat.le_refl _)
    · have shorter : operator.toList <+: other.toList := by
        apply List.prefix_of_prefix_length_le begins starts
        simpa only [String.length_toList] using Nat.le_of_not_le longer
      have pairs := (List.pairwise_append.mp apart).2.1
      exact (List.pairwise_cons.mp pairs).1 other isLater shorter

theorem noOperator_of_find? (none : operators.find? (·.toList.isPrefixOf text) = none) :
    NoOperator text := by
  intro operator isOperator starts
  have other := List.find?_eq_none.mp none operator isOperator
  exact other (List.isPrefixOf_iff_prefix.mpr starts)

/-- A token that is read stands at its place, and what follows it does not go on with it. -/
theorem stands_of_scan? (scanned : scan? text = some (token, rest))
    (visible : ∀ character ∈ text.head?, Text.isBlank character = false)
    (begins : Begins before text) :
    Stands before token rest ∧ Begins (before ++ token.toList) rest := by
  rcases scan?_cases scanned with ⟨found, rfl⟩ | ⟨none, word | symbol⟩
  · have isOperator := List.mem_of_find?_eq_some found
    have others := isIdentifierCharacter_of_mem_operators token isOperator
    refine ⟨.operator isOperator fun other isOther => length_le_of_find? found isOther, .inl ?_⟩
    rw [List.getLast?_append_of_ne_nil _ (ne_nil_of_mem_operators token isOperator)]
    exact fun character isLast => others character (List.mem_of_getLast? isLast)
  · obtain ⟨run, isRun, apart, rfl, rfl⟩ := word
    refine ⟨.identifier (noOperator_of_find? none) ⟨isRun, apart, ?_⟩, .inr apart⟩
    exact begins.resolve_right (not_apart_run isRun)
  · obtain ⟨character, other, rfl, rfl⟩ := symbol
    refine ⟨.character (noOperator_of_find? none) other (visible character rfl), .inl ?_⟩
    simpa using other

/-- The first token of a line stands behind the blanks before it. The last of those blanks belongs
to no identifier, so one may begin behind it. -/
theorem stands_of_next? (read : next? line = some (token, rest)) (begins : Begins before line) :
    ∃ gap, line = gap ++ token.toList ++ rest ∧
      (∀ character ∈ gap, Text.isBlank character = true) ∧ Stands (before ++ gap) token rest ∧
        Begins (before ++ gap ++ token.toList) rest := by
  have isGap : ∀ character ∈ line.takeWhile Text.isBlank, Text.isBlank character = true :=
    List.all_eq_true.mp List.all_takeWhile
  have split : line = line.takeWhile Text.isBlank ++ Text.trimStart line :=
    List.takeWhile_append_dropWhile.symm
  generalize line.takeWhile Text.isBlank = gap at isGap split
  have beginsThere : Begins (before ++ gap) (Text.trimStart line) := by
    rcases List.eq_nil_or_concat' gap with rfl | ⟨front, last, rfl⟩
    · rwa [List.append_nil, ← List.nil_append (Text.trimStart line), ← split]
    · refine .inl ?_
      have blank := isGap last (by simp)
      simpa using Text.isIdentifierCharacter_of_isBlank blank
  obtain ⟨stands, begins⟩ :=
    stands_of_scan? read Text.not_isBlank_of_head?_trimStart beginsThere
  refine ⟨gap, ?_, isGap, stands, begins⟩
  rw [List.append_assoc, ← eq_append_of_scan? read]
  exact split

theorem Stands.ne_nil (stands : Stands before token rest) : token.toList ≠ [] := by
  cases stands with
  | operator isOperator => exact ne_nil_of_mem_operators token isOperator
  | identifier none whole => simpa using whole.isRun.nonempty
  | character none other visible => simp

theorem Stands.visible (stands : Stands before token rest) :
    ∀ character ∈ token.toList, Text.isBlank character = false := by
  cases stands with
  | operator isOperator => exact isBlank_of_mem_operators token isOperator
  | identifier none whole =>
      intro character isPart
      rw [String.toList_ofList] at isPart
      exact Text.isBlank_of_isIdentifierCharacter (whole.isRun.all character isPart)
  | character none other visible => simpa using visible

/-- What stands at a place of a line is a token by itself. An operator is one by a check of the
table, and a single character since no operator begins like it. -/
theorem Stands.isToken (stands : Stands before token rest) : IsToken token := by
  cases stands with
  | operator isOperator =>
      have alone : ∀ operator ∈ operators, IsToken operator := by
        unfold IsToken
        decide
      exact alone token isOperator
  | @identifier run _ none whole =>
      have alone := next?_word whole.isRun apart_nil
      rw [List.append_nil] at alone
      rwa [IsToken, String.toList_ofList]
  | @character character _ none other visible =>
      rw [IsToken, String.toList_singleton]
      apply next?_symbol other visible
      intro operator isOperator starts
      have begins : operator.toList <+: [character] := by simpa using starts
      exact absurd (begins.trans (List.prefix_append _ _)) (none operator isOperator)

/-! ### All tokens -/

/-- Every line is divided into tokens at their places and blanks between them. The induction is on
the number of characters that are left, for each token takes some away. -/
theorem placed_all (begins : Begins before line) : Placed before line (all line) := by
  fun_induction all line generalizing before with
  | case1 line ended => exact .ended (next?_eq_none_iff.mp ended)
  | case2 line token rest read ih =>
      obtain ⟨gap, shape, isGap, stands, begins⟩ := stands_of_next? read begins
      rw [shape]
      exact .token isGap stands (ih begins)

/-- Nothing but blanks is lost between the tokens. -/
theorem Placed.flatMap_toList (placed : Placed before line tokens) :
    tokens.flatMap String.toList = line.filter (!Text.isBlank ·) := by
  induction placed with
  | ended isGap => simpa using isGap
  | @token _ gap _ token _ isGap stands _ ih =>
      have none : gap.filter (!Text.isBlank ·) = [] := by simpa using isGap
      have all : token.toList.filter (!Text.isBlank ·) = token.toList := by
        simpa using stands.visible
      rw [List.flatMap_cons, ih, List.filter_append, List.filter_append, none, all, List.nil_append]

theorem Placed.isToken (placed : Placed before line tokens) : ∀ token ∈ tokens, IsToken token := by
  induction placed with
  | ended => nofun
  | token _ stands _ ih => exact List.forall_mem_cons.mpr ⟨stands.isToken, ih⟩

/-- The empty token is taken at the end of a line only. -/
theorem next_fst_eq_empty_iff : (next line).1 = "" ↔ next? line = none := by
  rw [next]
  cases read : next? line with
  | none => simp
  | some found =>
      obtain ⟨_, _, _, stands, _⟩ := stands_of_next? read (begins_nil line)
      simpa using stands.ne_nil

theorem next_of_next? (read : next? line = some (token, rest)) : next line = (token, rest) := by
  rw [next, read]
  rfl

/-- Taking tokens until one is empty takes all tokens of a line. -/
theorem taken_all (line : List Char) : Taken line (all line) := by
  fun_induction all line with
  | case1 line ended => exact .ended (next_fst_eq_empty_iff.mpr ended)
  | case2 line token rest read ih =>
      have filled : (next line).1 ≠ "" := by
        rw [Ne, next_fst_eq_empty_iff, read]
        nofun
      have taken := Taken.token filled (by rwa [next_of_next? read])
      rwa [next_of_next? read] at taken

/-- Whatever is taken in that way are all tokens of the line, so it comes to an end in one way
only. -/
theorem Taken.eq_all (taken : Taken line tokens) : tokens = all line := by
  induction taken with
  | ended empty => exact (all_of_end (next_fst_eq_empty_iff.mp empty)).symm
  | @token line _ filled _ ih =>
      obtain ⟨⟨token, rest⟩, read⟩ :=
        Option.ne_none_iff_exists'.mp (mt next_fst_eq_empty_iff.mpr filled)
      rw [ih, all_of_next? read, next_of_next? read]

theorem taken_iff : Taken line tokens ↔ tokens = all line := by
  refine ⟨Taken.eq_all, ?_⟩
  rintro rfl
  exact taken_all line

/-- What the tokens of a line are. -/
structure TokensOf (line : List Char) (tokens : List String) : Prop where
  /-- They are what is taken from the line until there is nothing left. -/
  taken : ∀ other, Taken line other ↔ other = tokens
  /-- They are all that is visible of the line. -/
  visible : tokens.flatMap String.toList = line.filter (!Text.isBlank ·)
  placed : Placed [] line tokens
  /-- They are read again if they are written with spaces between them. -/
  readAgain : ∀ other, Taken (Text.join " " tokens).toList other ↔ other = tokens

/-- Taking tokens from a line comes to an end, and what is taken are the tokens of the line. Read
again, each of them is read as far as it goes, for a blank stands behind it. -/
theorem tokensOf_all (line : List Char) : TokensOf line (all line) := by
  have placed : Placed [] line (all line) := placed_all (begins_nil line)
  have again : all (Text.join " " (all line)).toList = all line :=
    all_of_spaced (spaced_join placed.isToken)
  refine ⟨fun other => taken_iff, placed.flatMap_toList, placed, fun other => ?_⟩
  rw [taken_iff, again]

example : all "f(a_1,...)##/*é*/".toList =
    ["f", "(", "a_1", ",", "...", ")", "##", "/*", "é", "*/"] := by
  decide +kernel

end TadsReference.Token
