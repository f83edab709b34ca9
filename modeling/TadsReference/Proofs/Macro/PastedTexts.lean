import Mathlib.Data.List.Forall2
import TadsReference.Macro.Pasting
import TadsReference.Proofs.Text.Words

/-!
# Pasted texts

The leftmost operator is applied first, so what stands before an operator has been pasted already.
Pasting puts one fragment after the other behind what it has: `applyPasting_further`. What it has
goes on ending as the last fragment ended, which decides how the next one is joined to it. So
fragments are put one behind the other, or make one literal if all are literals of one kind:
`applyPasting_fragments`.
-/

namespace TadsReference.Macro

variable {first fragment text left right rest done : List Char}
  {others contents : List (List Char)} {quote : Char}

/-- A text that can stand beside a pasting operator. -/
structure IsFragment (text : List Char) : Prop where
  nonempty : text ≠ []
  trimmed : Text.Trimmed text
  noOperator : '#' ∉ text

/-- Whether a text can stand beside an operator can be checked. -/
instance (text : List Char) : Decidable (IsFragment text) :=
  decidable_of_iff (text ≠ [] ∧ Text.Trimmed text ∧ '#' ∉ text)
    ⟨fun all => ⟨all.1, all.2.1, all.2.2⟩, fun isFragment =>
      ⟨isFragment.nonempty, isFragment.trimmed, isFragment.noOperator⟩⟩

/-- What follows a fragment: further fragments, each behind an operator with blanks around it. -/
inductive Further : List (List Char) → List Char → Prop
  | none : Further [] []
  | operator {before after fragment rest : List Char} {others : List (List Char)}
      (isBefore : ∀ character ∈ before, Text.isBlank character = true)
      (isAfter : ∀ character ∈ after, Text.isBlank character = true)
      (isFragment : IsFragment fragment) (further : Further others rest) :
      Further (fragment :: others) (before ++ ['#', '#'] ++ after ++ fragment ++ rest)

/-- Two texts meet with the same kind of quote. -/
def MeetQuoted (left right : List Char) : Prop :=
  ∃ quote ∈ ['"', '\''], left.getLast? = some quote ∧ right.head? = some quote

/-- A text between two quotes. -/
def quoted (quote : Char) (content : List Char) : List Char :=
  quote :: (content ++ [quote])

/-- A string literal in a kind of quotes. -/
structure IsLiteral (quote : Char) (content text : List Char) : Prop where
  spelled : text = quoted quote content
  closed : quote ∉ content

/-- A fragment is joined to what has been pasted. -/
def pasteBehind (done fragment : List Char) : List Char :=
  joinLiterals (Text.trimEnd done) fragment

/-! ### One operator -/

theorem joinLiterals_of_meetQuoted (meet : MeetQuoted left right) :
    joinLiterals left right = left.dropLast ++ right.tail := by
  rw [joinLiterals, if_pos]
  simpa [MeetQuoted] using meet

theorem joinLiterals_of_not_meetQuoted (apart : ¬MeetQuoted left right) :
    joinLiterals left right = left ++ right := by
  rw [joinLiterals, if_neg]
  simpa [MeetQuoted] using apart

/-- How two texts are joined is decided where they meet. -/
theorem joinLiterals_append (filled : right ≠ []) :
    joinLiterals left (right ++ rest) = joinLiterals left right ++ rest := by
  have same : MeetQuoted left (right ++ rest) ↔ MeetQuoted left right := by
    rw [MeetQuoted, MeetQuoted, List.head?_append_of_ne_nil _ filled]
  by_cases meet : MeetQuoted left right
  · rw [joinLiterals_of_meetQuoted (same.mpr meet), joinLiterals_of_meetQuoted meet,
      List.tail_append_of_ne_nil filled, List.append_assoc]
  · rw [joinLiterals_of_not_meetQuoted (mt same.mp meet), joinLiterals_of_not_meetQuoted meet,
      List.append_assoc]

theorem subset_joinLiterals (left right : List Char) : joinLiterals left right ⊆ left ++ right := by
  unfold joinLiterals
  split
  · exact List.append_subset.mpr ⟨List.subset_append_of_subset_left _ (List.dropLast_subset left),
      List.subset_append_of_subset_right _ (List.tail_sublist right).subset⟩
  · exact List.Subset.refl _

theorem applyPasting_of_none (none : Text.cut? ['#', '#'] text = none) :
    applyPasting text = text := by
  rw [applyPasting]
  split
  · rfl
  · simp_all

/-- The leftmost operator is applied, without the blanks around it, and then what comes of that is
gone through again. -/
theorem applyPasting_of_cut? (found : Text.cut? ['#', '#'] text = some (left, right)) :
    applyPasting text =
      applyPasting (joinLiterals (Text.trimEnd left) (Text.trimStart right)) := by
  rw [applyPasting]
  split
  · simp_all
  · next isFound =>
      obtain ⟨rfl, rfl⟩ := Prod.mk.inj (Option.some.inj (found.symm.trans isFound))
      rfl

theorem applyPasting_of_not_mem (noOperator : '#' ∉ text) : applyPasting text = text :=
  applyPasting_of_none (Text.cut?_eq_none_of_not_mem noOperator ['#'])

theorem applyPasting_operator (noOperator : '#' ∉ left) (right : List Char) :
    applyPasting (left ++ ['#', '#'] ++ right) =
      applyPasting (joinLiterals (Text.trimEnd left) (Text.trimStart right)) :=
  applyPasting_of_cut? (Text.cut?_behind noOperator right)

/-! ### Many fragments -/

theorem IsFragment.trimStart_append (isFragment : IsFragment fragment)
    (isGap : ∀ character ∈ left, Text.isBlank character = true) :
    Text.trimStart (left ++ fragment ++ rest) = fragment ++ rest := by
  obtain ⟨character, tail, rfl⟩ := List.exists_cons_of_ne_nil isFragment.nonempty
  have visible := isFragment.trimmed.first character rfl
  rw [List.append_assoc, Text.trimStart_append isGap, List.cons_append,
    Text.trimStart_of_not_isBlank visible]

theorem not_mem_pasteBehind (noOperator : '#' ∉ done) (isFragment : IsFragment fragment) :
    '#' ∉ pasteBehind done fragment := by
  intro isThere
  rcases List.mem_append.mp (subset_joinLiterals _ _ isThere) with isDone | isPart
  · exact noOperator ((Text.trimEnd_prefix done).subset isDone)
  · exact isFragment.noOperator isPart

/-- Fragments are pasted one after the other. The induction is on the fragments that follow, with
what has been pasted before them left open. -/
theorem applyPasting_further (noOperator : '#' ∉ done) (further : Further others rest) :
    applyPasting (done ++ rest) = others.foldl pasteBehind done := by
  induction further generalizing done with
  | none => rw [List.append_nil, applyPasting_of_not_mem noOperator, List.foldl_nil]
  | @operator before after fragment rest others isBefore isAfter isFragment _ ih =>
      have noOperatorThere : '#' ∉ done ++ before := by
        rw [List.mem_append, not_or]
        refine ⟨noOperator, fun isBlank => ?_⟩
        exact absurd (isBefore '#' isBlank) (by decide)
      have spelled : done ++ (before ++ ['#', '#'] ++ after ++ fragment ++ rest) =
          done ++ before ++ ['#', '#'] ++ (after ++ fragment ++ rest) := by
        simp
      rw [spelled, applyPasting_operator noOperatorThere, Text.trimEnd,
        Text.dropEndWhile_behind isBefore, ← Text.trimEnd,
        isFragment.trimStart_append isAfter, joinLiterals_append isFragment.nonempty,
        ← pasteBehind, ih (not_mem_pasteBehind noOperator isFragment), List.foldl_cons]

/-- Behind what ends as the last fragment ends, fragments that do not meet with quotes are put as
they are. Only the end of what has been pasted matters, and that is the end of the last fragment. -/
theorem foldl_pasteBehind_of_apart (isFragment : IsFragment fragment)
    (areFragments : ∀ other ∈ others, IsFragment other)
    (apart : (fragment :: others).IsChain fun left right => ¬MeetQuoted left right)
    (done : List Char) :
    others.foldl pasteBehind (done ++ fragment) = done ++ (fragment :: others).flatten := by
  induction others generalizing fragment done with
  | nil => simp
  | cons next others ih =>
      obtain ⟨isNext, areFragments⟩ := List.forall_mem_cons.mp areFragments
      obtain ⟨notMeeting, apart⟩ := List.isChain_cons_cons.mp apart
      have last : (done ++ fragment).getLast? = fragment.getLast? :=
        List.getLast?_append_of_ne_nil _ isFragment.nonempty
      have trimmed : Text.trimEnd (done ++ fragment) = done ++ fragment :=
        Text.dropEndWhile_self (last ▸ isFragment.trimmed.last)
      have notMeetingThere : ¬MeetQuoted (done ++ fragment) next := by
        rwa [MeetQuoted, last]
      rw [List.foldl_cons, pasteBehind, trimmed, joinLiterals_of_not_meetQuoted notMeetingThere,
        ih isNext areFragments apart]
      simp

theorem getLast?_quoted (quote : Char) (content : List Char) :
    (quoted quote content).getLast? = some quote := by
  rw [quoted, ← List.cons_append, List.getLast?_concat]

theorem dropLast_quoted (quote : Char) (content : List Char) :
    (quoted quote content).dropLast = quote :: content := by
  rw [quoted, ← List.cons_append, List.dropLast_concat]

/-- A literal that is pasted behind another one of its kind loses its first quote, and the other one
its last. -/
theorem pasteBehind_quoted (isQuote : quote ∈ ['"', '\'']) (left right : List Char) :
    pasteBehind (quoted quote left) (quoted quote right) = quoted quote (left ++ right) := by
  have visible : Text.isBlank quote = false := by
    simp only [List.mem_cons, List.not_mem_nil, or_false] at isQuote
    rcases isQuote with rfl | rfl <;> decide
  have trimmed : Text.trimEnd (quoted quote left) = quoted quote left := by
    apply Text.dropEndWhile_self
    simpa [getLast?_quoted] using visible
  have meet : MeetQuoted (quoted quote left) (quoted quote right) :=
    ⟨quote, isQuote, getLast?_quoted quote left, rfl⟩
  rw [pasteBehind, trimmed, joinLiterals_of_meetQuoted meet, dropLast_quoted]
  simp [quoted]

/-- A literal takes in the contents of the literals behind it. -/
theorem foldl_pasteBehind_of_literals (isQuote : quote ∈ ['"', '\''])
    (literals : List.Forall₂ (IsLiteral quote) contents others) (content : List Char) :
    others.foldl pasteBehind (quoted quote content) =
      quoted quote (content ++ contents.flatten) := by
  induction literals generalizing content with
  | nil => simp
  | cons isLiteral _ ih =>
      rw [List.foldl_cons, isLiteral.spelled, pasteBehind_quoted isQuote, ih, List.flatten_cons,
        List.append_assoc]

theorem not_mem_flatten_of_literals (literals : List.Forall₂ (IsLiteral quote) contents others) :
    quote ∉ contents.flatten := by
  induction literals with
  | nil => nofun
  | cons isLiteral _ ih =>
      rw [List.flatten_cons, List.mem_append, not_or]
      exact ⟨isLiteral.closed, ih⟩

theorem Further.isFragment (further : Further others rest) :
    ∀ fragment ∈ others, IsFragment fragment := by
  induction further with
  | none => nofun
  | operator _ _ isFragment _ ih => exact List.forall_mem_cons.mpr ⟨isFragment, ih⟩

/-- Fragments with pasting operators between them become one text. If no neighbours meet with the
same kind of quote, they are put one behind the other. If all are literals in one kind of quotes,
they become one literal. -/
theorem applyPasting_fragments (isFragment : IsFragment first) (further : Further others rest) :
    ((first :: others).IsChain (fun left right => ¬MeetQuoted left right) →
      applyPasting (first ++ rest) = (first :: others).flatten) ∧
    ∀ quote ∈ ['"', '\''], ∀ contents, List.Forall₂ (IsLiteral quote) contents (first :: others) →
      IsLiteral quote contents.flatten (applyPasting (first ++ rest)) := by
  rw [applyPasting_further isFragment.noOperator further]
  constructor
  · intro apart
    exact foldl_pasteBehind_of_apart isFragment further.isFragment apart []
  · intro quote isQuote contents literals
    refine ⟨?_, not_mem_flatten_of_literals literals⟩
    obtain ⟨content, behind, isLiteral, areLiterals, rfl⟩ := List.forall₂_cons_right_iff.mp literals
    rw [isLiteral.spelled, foldl_pasteBehind_of_literals isQuote areLiterals, List.flatten_cons]

/-- An empty literal and a full one, behind another one. -/
theorem further_literals : Further ["\"\"".toList, "\"o\"".toList] " ##\t\"\"##\"o\"".toList := by
  have last := @Further.operator [] [] "\"o\"".toList _ _ nofun nofun (by decide) .none
  have isTab : Text.isBlank '\t' = true := by decide
  exact @Further.operator [' '] ['\t'] _ _ _ (List.forall_mem_singleton.mpr Text.isBlank_space)
    (List.forall_mem_singleton.mpr isTab) (by decide) last

/-- A literal in other quotes and a name, behind a literal. -/
theorem further_name : Further ["\"b\"".toList, "Take".toList] "## \"b\" ##Take".toList := by
  have isSpace : ∀ character ∈ [' '], Text.isBlank character = true :=
    List.forall_mem_singleton.mpr Text.isBlank_space
  have last := @Further.operator [' '] [] "Take".toList _ _ isSpace nofun (by decide) .none
  exact @Further.operator [] [' '] _ _ _ nofun isSpace (by decide) last

/-- Three literals become one, while a literal in other quotes is put behind the first as it is, and
so is a name. -/
theorem applyPasting_fragments_strings :
    (IsFragment "\"fo\"".toList ∧
      Further ["\"\"".toList, "\"o\"".toList] " ##\t\"\"##\"o\"".toList ∧
      IsLiteral '"' "foo".toList (applyPasting "\"fo\" ##\t\"\"##\"o\"".toList)) ∧
    IsFragment "'a'".toList ∧ Further ["\"b\"".toList, "Take".toList] "## \"b\" ##Take".toList ∧
      applyPasting "'a'## \"b\" ##Take".toList = "'a'\"b\"Take".toList := by
  have isLiteral : IsFragment "\"fo\"".toList := by decide
  have isOther : IsFragment "'a'".toList := by decide
  refine ⟨⟨isLiteral, further_literals, ?_⟩, isOther, further_name, ?_⟩
  · have literals : List.Forall₂ (IsLiteral '"') ["fo".toList, [], "o".toList]
        ["\"fo\"".toList, "\"\"".toList, "\"o\"".toList] :=
      .cons ⟨rfl, by decide⟩ (.cons ⟨rfl, by decide⟩ (.cons ⟨rfl, by decide⟩ .nil))
    exact (applyPasting_fragments isLiteral further_literals).2 '"' (by decide) _ literals
  · apply (applyPasting_fragments isOther further_name).1
    simp [MeetQuoted]

end TadsReference.Macro
