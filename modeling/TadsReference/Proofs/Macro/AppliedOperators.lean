import TadsReference.Proofs.Macro.Substitution

/-!
# Operators that have been applied

The operators of a macro body are applied in three loops. Each round of the first and of the last
takes away an operator, wherever its sides are joined and whatever they form there. The second loop
goes forward through a text that shrinks and grows as operators are applied in it. All three come to
an end, and what they are looking for is then gone for good: `expand_appliesOperators`.
-/

namespace TadsReference

namespace Macro

open Identifier

variable {text front before after rest run gap left right : List Char}
  {character first second : Char} {afterHash : Bool} {rounds : Nat}

/-! ### Loops -/

/-- A loop goes on as long as there is a step to be made, and comes to an end after some rounds. -/
inductive Ends {State : Type} (step? : State → Option State) : (rounds : Nat) → State → State → Prop
  | rest {state : State} (none : step? state = none) : Ends step? 0 state state
  | round {state next last : State} {rounds : Nat} (steps : step? state = some next)
      (ends : Ends step? rounds next last) : Ends step? (rounds + 1) state last

/-- Applies the leftmost `#@`. -/
def markStep? (text : List Char) : Option (List Char) :=
  (Text.cut? ['#', '@'] text).map fun (before, after) => before ++ quoteFirst after

/-- Applies the leftmost `##`. -/
def pasteStep? (text : List Char) : Option (List Char) :=
  (Text.cut? ['#', '#'] text).map fun (before, after) =>
    joinLiterals (Text.trimEnd before) (Text.trimStart after)

/-- A place in a text, between what has been passed and what has not. -/
structure Place where
  before : List Char
  after : List Char

/-- One character is passed. -/
def Place.forward (place : Place) : Place :=
  ⟨place.before ++ place.after.take 1, place.after.drop 1⟩

/-- Passes one character. If it is a `#` that stands alone, it is applied first. -/
def quoteStep? (place : Place) : Option Place :=
  match place.after with
  | [] => none
  | character :: rest =>
      if character == '#' && place.before.getLast? != some '#' && rest.head? != some '#' then
        some (Place.forward ⟨place.before, quoteFirst rest⟩)
      else some place.forward

/-! ### What is left -/

/-- Each `#` of a text stands next to another one. The text stands behind another one. -/
def PairedBehind (front text : List Char) : Prop :=
  ∀ before after, text = before ++ '#' :: after →
    (front ++ before).getLast? = some '#' ∨ after.head? = some '#'

/-- What the quoting operators make of a text: both loops come to an end, and nothing is left that
they could be applied to. -/
structure Quoted (text quoted : List Char) : Prop where
  ends : ∃ marked, (∃ rounds ≤ text.count '#', Ends markStep? rounds text marked) ∧
    ∃ rounds ≤ marked.length + marked.count '#',
      Ends quoteStep? rounds ⟨[], marked⟩ ⟨quoted, []⟩
  noMark : ¬['#', '@'] <:+: quoted
  paired : ∀ before after, quoted = before ++ '#' :: after →
    before.getLast? = some '#' ∨ after.head? = some '#'
  settled : applyQuoting quoted = quoted

/-- What the pasting operator makes of a text. -/
structure Pasted (text pasted : List Char) : Prop where
  ends : ∃ rounds ≤ text.count '#', Ends pasteStep? rounds text pasted
  noOperator : ¬['#', '#'] <:+: pasted

/-! ### The operator `#@` -/

theorem count_lt_of_markStep? (steps : markStep? text = some rest) :
    rest.count '#' < text.count '#' := by
  obtain ⟨⟨before, after⟩, found, rfl⟩ := Option.map_eq_some_iff.mp steps
  have fewer := count_quoteFirst_le after
  simp [Text.eq_append_of_cut? found]
  omega

/-- Applying the operator comes to an end after as many rounds as there are `#` at most, as each
round leaves fewer of them. -/
theorem ends_quoteMarked (text : List Char) :
    ∃ rounds ≤ text.count '#', Ends markStep? rounds text (quoteMarked text) := by
  fun_induction quoteMarked text with
  | case1 text none => exact ⟨0, Nat.zero_le _, .rest (by rw [markStep?, none]; rfl)⟩
  | case2 text before after found ih =>
      obtain ⟨rounds, few, ends⟩ := ih
      have steps : markStep? text = some (before ++ quoteFirst after) := by
        rw [markStep?, found]
        rfl
      have fewer := count_lt_of_markStep? steps
      exact ⟨rounds + 1, by omega, .round steps ends⟩

theorem noMark_quoteMarked (text : List Char) : ¬['#', '@'] <:+: quoteMarked text := by
  fun_induction quoteMarked text with
  | case1 text none => exact (Text.cut?_eq_none_iff (by simp)).mp none
  | case2 text before after found ih => exact ih

/-! ### The operator `#` -/

theorem pair_infix_cons_iff : [first, second] <:+: character :: text ↔
    (character = first ∧ text.head? = some second) ∨ [first, second] <:+: text := by
  have starts : [first, second] <+: character :: text ↔
      character = first ∧ text.head? = some second := by
    cases text <;> grind
  rw [List.infix_cons_iff, starts]

/-- A front without the first character of a pair does not matter to whether the pair stands in a
text. -/
theorem pair_infix_append_iff (others : ∀ character ∈ left, character ≠ first) :
    [first, second] <:+: left ++ text ↔ [first, second] <:+: text := by
  induction left with
  | nil => rfl
  | cons character left ih =>
      obtain ⟨isOther, others⟩ := List.forall_mem_cons.mp others
      rw [List.cons_append, pair_infix_cons_iff, ih others]
      simp [isOther]

/-- No operator stands in an identifier between quotes. -/
theorem ne_hash_of_mem_quoted (isRun : ∀ character ∈ run, isIdentifierCharacter character = true) :
    ∀ character ∈ '\'' :: (run ++ ['\'']), character ≠ '#' := by
  intro character isPart
  rw [List.mem_cons, List.mem_append, List.mem_singleton] at isPart
  rintro rfl
  rcases isPart with isQuote | isIdentifier | isQuote
  · exact absurd isQuote (by decide)
  · exact absurd (isRun '#' isIdentifier) (by decide)
  · exact absurd isQuote (by decide)

/-- Behind a `#` every character stays. -/
theorem head?_quoteSingle (text : List Char) : (quoteSingle true text).head? = text.head? := by
  cases text with
  | nil => rw [quoteSingle]
  | cons character rest =>
      rw [quoteSingle, if_neg (by simp)]
      rfl

/-- Quoting writes no new `#@`. It writes quotes around identifiers, which hold neither character,
and takes a `#` away, whose neighbours do not form the operator because one of them is a quote. -/
theorem noMark_quoteSingle (noMark : ¬['#', '@'] <:+: text) (afterHash : Bool) :
    ¬['#', '@'] <:+: quoteSingle afterHash text := by
  fun_induction quoteSingle afterHash text with
  | case1 => exact noMark
  | case2 afterHash character rest alone run remaining found ih =>
      obtain ⟨gap, rfl, _, isRun⟩ := first?_eq_some found
      have suffix : remaining <:+ character :: (gap ++ run ++ remaining) :=
        (List.suffix_append _ _).trans (List.suffix_cons _ _)
      have spelled : '\'' :: run ++ '\'' :: quoteSingle false remaining =
          '\'' :: (run ++ ['\'']) ++ quoteSingle false remaining := by
        simp
      rw [spelled, pair_infix_append_iff (ne_hash_of_mem_quoted isRun)]
      exact ih fun isInfix => noMark (isInfix.trans suffix.isInfix)
  | case3 afterHash character rest alone none ih =>
      exact ih fun isInfix => noMark (isInfix.trans (List.suffix_cons _ _).isInfix)
  | case4 afterHash character rest stays ih =>
      rw [pair_infix_cons_iff, not_or] at noMark ⊢
      refine ⟨?_, ih noMark.2⟩
      rintro ⟨rfl, isHead⟩
      exact noMark.1 ⟨rfl, (head?_quoteSingle rest).symm.trans isHead⟩

theorem pairedBehind_nil (front : List Char) : PairedBehind front [] := by
  simp [PairedBehind]

/-- A `#` that is passed needs another one in front of it or behind it, and then the rest has to be
paired behind what has been passed. -/
theorem pairedBehind_cons_iff : PairedBehind front (character :: rest) ↔
    (character = '#' → front.getLast? = some '#' ∨ rest.head? = some '#') ∧
      PairedBehind (front ++ [character]) rest := by
  constructor
  · intro paired
    constructor
    · rintro rfl
      simpa using paired [] rest rfl
    · rintro before after rfl
      simpa using paired (character :: before) after rfl
  · rintro ⟨isFirst, paired⟩ before after shape
    cases before with
    | nil =>
        obtain ⟨rfl, rfl⟩ := List.cons.inj shape
        simpa using isFirst rfl
    | cons symbol before =>
        obtain ⟨rfl, rfl⟩ := List.cons.inj shape
        simpa using paired before after rfl

theorem pairedBehind_append (others : ∀ character ∈ left, character ≠ '#') :
    PairedBehind front (left ++ text) ↔ PairedBehind (front ++ left) text := by
  induction left generalizing front with
  | nil => simp
  | cons character left ih =>
      obtain ⟨isOther, others⟩ := List.forall_mem_cons.mp others
      rw [List.cons_append, pairedBehind_cons_iff, ih others]
      simp [isOther]

/-- A `#` that is passed stands next to another one, on the side from which it is passed or on the
other one. -/
theorem pairedBehind_quoteSingle (same : (front.getLast? == some '#') = afterHash)
    (text : List Char) : PairedBehind front (quoteSingle afterHash text) := by
  fun_induction quoteSingle afterHash text generalizing front with
  | case1 => exact pairedBehind_nil front
  | case2 afterHash character rest alone run remaining found ih =>
      obtain ⟨gap, _, _, isRun⟩ := first?_eq_some found
      have spelled : '\'' :: run ++ '\'' :: quoteSingle false remaining =
          '\'' :: (run ++ ['\'']) ++ quoteSingle false remaining := by
        simp
      rw [spelled, pairedBehind_append (ne_hash_of_mem_quoted isRun)]
      apply ih
      rw [← List.cons_append, ← List.append_assoc, List.getLast?_concat]
      rfl
  | case3 afterHash character rest alone none ih =>
      simp only [Bool.and_eq_true, Bool.not_eq_true'] at alone
      exact ih (same.trans alone.1.2)
  | case4 afterHash character rest stays ih =>
      refine pairedBehind_cons_iff.mpr ⟨?_, ih (by simp)⟩
      rintro rfl
      subst same
      rw [beq_self_eq_true, head?_quoteSingle]
      by_contra apart
      rw [not_or] at apart
      exact stays (by simp [apart])

/-- Where each `#` stands next to another one, the loop finds nothing to apply and leaves the text
alone. -/
theorem quoteSingle_of_pairedBehind (same : (front.getLast? == some '#') = afterHash)
    (paired : PairedBehind front text) : quoteSingle afterHash text = text := by
  induction text generalizing front afterHash with
  | nil => rw [quoteSingle]
  | cons character rest ih =>
      obtain ⟨isFirst, paired⟩ := pairedBehind_cons_iff.mp paired
      have stays : ¬(character == '#' && !afterHash && rest.head? != some '#') = true := by
        subst same
        simp only [Bool.and_eq_true, beq_iff_eq, Bool.not_eq_true', bne_iff_ne, ne_eq, not_and,
          not_not, and_imp]
        intro isHash apart
        rcases isFirst isHash with isBehind | isBefore
        · simp [isBehind] at apart
        · exact isBefore
      rw [quoteSingle, if_neg stays, ih (by simp) paired]

/-! ### The loop through the text -/

theorem quoteStep?_alone (alone : (character == '#' && !(front.getLast? == some '#') &&
    rest.head? != some '#') = true) :
    quoteStep? ⟨front, character :: rest⟩ = some (Place.forward ⟨front, quoteFirst rest⟩) :=
  if_pos alone

theorem quoteStep?_stays (stays : ¬(character == '#' && !(front.getLast? == some '#') &&
    rest.head? != some '#') = true) :
    quoteStep? ⟨front, character :: rest⟩ = some ⟨front ++ [character], rest⟩ :=
  if_neg stays

theorem quoteStep?_other (other : character ≠ '#') :
    quoteStep? ⟨front, character :: rest⟩ = some ⟨front ++ [character], rest⟩ :=
  quoteStep?_stays (by simp [other])

/-- What holds no operator is passed in as many rounds as it has characters. -/
theorem ends_of_passed {last : Place} (others : ∀ character ∈ left, character ≠ '#')
    (ends : Ends quoteStep? rounds ⟨front ++ left, text⟩ last) :
    Ends quoteStep? (rounds + left.length) ⟨front, left ++ text⟩ last := by
  induction left generalizing front with
  | nil => simpa using ends
  | cons character left ih =>
      obtain ⟨isOther, others⟩ := List.forall_mem_cons.mp others
      exact .round (quoteStep?_other isOther) (ih others (by simpa using ends))

/-- A loop that can make a step makes it. -/
theorem Ends.of_step {State : Type} {step? : State → Option State} {state next last : State}
    (ends : Ends step? rounds state last) (steps : step? state = some next) :
    ∃ fewer, rounds = fewer + 1 ∧ Ends step? fewer next last := by
  cases ends with
  | rest none =>
      rw [steps] at none
      contradiction
  | @round _ other _ fewer stepsOther ends =>
      obtain rfl := Option.some.inj (steps.symm.trans stepsOther)
      exact ⟨fewer, rfl, ends⟩

/-- What the loop passes is the text in which every `#` that stands alone has been applied. The
first quote has been passed when the operator has been applied, and the character behind the
operator takes its place and is passed with it. So the rounds are counted along the text that the
loop leaves behind. -/
theorem ends_quoteSingle (same : (front.getLast? == some '#') = afterHash) (text : List Char) :
    ∃ rounds ≤ text.length + text.count '#',
      Ends quoteStep? rounds ⟨front, text⟩ ⟨front ++ quoteSingle afterHash text, []⟩ := by
  fun_induction quoteSingle afterHash text generalizing front with
  | case1 =>
      rw [List.append_nil]
      exact ⟨0, Nat.zero_le _, .rest rfl⟩
  | case2 afterHash character rest alone run remaining found ih =>
      subst same
      have steps := quoteStep?_alone alone
      have quotes : quoteFirst rest = '\'' :: (run ++ '\'' :: remaining) := by
        rw [quoteFirst, found]
        rfl
      obtain ⟨gap, rfl, _, isRun⟩ := first?_eq_some found
      have passed := ne_hash_of_mem_quoted isRun
      have closed : ((front ++ '\'' :: (run ++ ['\''])).getLast? == some '#') = false := by
        rw [← List.cons_append, ← List.append_assoc, List.getLast?_concat]
        rfl
      obtain ⟨rounds, few, ends⟩ := ih closed
      rw [quotes] at steps
      have split : front ++ '\'' :: (run ++ ['\'']) = front ++ ['\''] ++ (run ++ ['\'']) := by simp
      rw [split] at ends
      have entered := ends_of_passed (List.forall_mem_cons.mp passed).2 ends
      refine ⟨rounds + (run ++ ['\'']).length + 1, ?_, .round steps ?_⟩
      · simp only [List.length_cons, List.length_append, List.length_nil, List.count_cons,
          List.count_append]
        grind
      · simpa [Place.forward] using entered
  | case3 afterHash character rest alone none ih =>
      subst same
      have steps := quoteStep?_alone alone
      have dropped : quoteFirst rest = rest := by rw [quoteFirst, none]
      rw [dropped] at steps
      simp only [Bool.and_eq_true, Bool.not_eq_true', bne_iff_ne] at alone
      obtain ⟨rounds, few, ends⟩ := ih alone.1.2
      cases rest with
      | nil =>
          have ended : quoteStep? (Place.forward ⟨front, []⟩) = Option.none := rfl
          refine ⟨1, ?_, .round steps ?_⟩
          · simp
          · rw [quoteSingle]
            exact .rest ended
      | cons next rest =>
          have other : next ≠ '#' := by
            rintro rfl
            exact alone.2 rfl
          obtain ⟨fewer, rfl, further⟩ := ends.of_step (quoteStep?_other other)
          refine ⟨fewer + 1, ?_, .round steps further⟩
          rw [List.length_cons, List.count_cons]
          omega
  | case4 afterHash character rest stays ih =>
      subst same
      have passed : ((front ++ [character]).getLast? == some '#') = (character == '#') := by simp
      obtain ⟨rounds, few, ends⟩ := ih passed
      refine ⟨rounds + 1, ?_, .round (quoteStep?_stays stays) (by simpa using ends)⟩
      rw [List.length_cons, List.count_cons]
      omega

/-! ### The operator `##` -/

theorem count_lt_of_pasteStep? (steps : pasteStep? text = some rest) :
    rest.count '#' < text.count '#' := by
  obtain ⟨⟨before, after⟩, found, rfl⟩ := Option.map_eq_some_iff.mp steps
  have fewer := count_joinLiterals_le (Text.trimEnd before) (Text.trimStart after)
  have fewerBefore := count_trimEnd_le before
  have fewerAfter := count_trimStart_le after
  simp [Text.eq_append_of_cut? found]
  omega

/-- Pasting comes to an end as each round leaves fewer `#`, and no operator is left then. -/
theorem pasted_applyPasting (text : List Char) : Pasted text (applyPasting text) := by
  fun_induction applyPasting text with
  | case1 text none =>
      exact ⟨⟨0, Nat.zero_le _, .rest (by rw [pasteStep?, none]; rfl)⟩,
        (Text.cut?_eq_none_iff (by simp)).mp none⟩
  | case2 text before after found ih =>
      obtain ⟨rounds, few, ends⟩ := ih.ends
      have steps : pasteStep? text =
          some (joinLiterals (Text.trimEnd before) (Text.trimStart after)) := by
        rw [pasteStep?, found]
        rfl
      have fewer := count_lt_of_pasteStep? steps
      exact ⟨⟨rounds + 1, by omega, .round steps ends⟩, ih.noOperator⟩

/-! ### Both operators -/

/-- The second loop writes no operator of the first one, so both kinds are gone when it has
ended. -/
theorem quoted_applyQuoting (text : List Char) : Quoted text (applyQuoting text) := by
  have noMark : ¬['#', '@'] <:+: applyQuoting text :=
    noMark_quoteSingle (noMark_quoteMarked text) false
  have paired : PairedBehind [] (applyQuoting text) := pairedBehind_quoteSingle rfl _
  refine ⟨⟨_, ends_quoteMarked text, ends_quoteSingle rfl _⟩, noMark, paired, ?_⟩
  have unmarked : quoteMarked (applyQuoting text) = applyQuoting text :=
    quoteMarked_of_none ((Text.cut?_eq_none_iff (by simp)).mpr noMark)
  rw [applyQuoting, unmarked]
  exact quoteSingle_of_pairedBehind rfl paired

end Macro

namespace MacroDefinition

/-- Applying the operators comes to an end in every text, and what they are looking for is gone
then. So a macro with as many arguments as parameters expands to a text in which no `##` is left.
Each loop is followed to its end, and what the one in front of it has taken away is not written
again. -/
theorem expand_appliesOperators (definition : MacroDefinition) :
    (∀ text, Macro.Quoted text (Macro.applyQuoting text)) ∧
    (∀ text, Macro.Pasted text (Macro.applyPasting text)) ∧
    ∀ arguments, arguments.length = definition.parameters.length →
      ∃ substituted quoted,
        Replaced definition.parameters arguments definition.body.toList substituted ∧
          Macro.Quoted substituted quoted ∧ Macro.Pasted quoted (definition.expand arguments) := by
  refine ⟨Macro.quoted_applyQuoting, Macro.pasted_applyPasting, fun arguments same => ?_⟩
  have expanded : definition.expand arguments =
      Macro.applyPasting (Macro.applyQuoting (definition.substitute arguments)) := by
    rw [expand, if_pos (by simpa using same)]
  rw [expanded]
  exact ⟨_, _, (replaced_iff same).mpr rfl, Macro.quoted_applyQuoting _,
    Macro.pasted_applyPasting _⟩

/-- A macro whose body holds every operator, some of them side by side. -/
def labelling : MacroDefinition where
  name := "LABEL"
  parameters := ["a", "b"]
  body := "#@a ##@@b ## #é a# ###b"

/-- The body holds all operators next to each other, and the expansion holds none of them. -/
theorem expand_labelling :
    (∃ substituted quoted, Replaced labelling.parameters ["x".toList, "y z".toList]
        labelling.body.toList substituted ∧ Macro.Quoted substituted quoted ∧
          Macro.Pasted quoted (labelling.expand ["x".toList, "y z".toList])) ∧
      labelling.expand ["x".toList, "y z".toList] = "'x' 'y'' z'x''y' z".toList :=
  ⟨(expand_appliesOperators labelling).2.2 _ rfl, by decide +kernel⟩

end MacroDefinition

end TadsReference
