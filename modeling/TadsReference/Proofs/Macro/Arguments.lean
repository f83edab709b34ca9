import TadsReference.Proofs.Macro.ArgumentLists
import TadsReference.Proofs.Text.Words

/-!
# The arguments of an invocation

An argument list that closes is the shortest front of the text in which all parentheses match. Its
arguments are what stands between the commas that no inner parentheses enclose: `read_delimits`.
-/

namespace TadsReference.Macro

/-- A text whose parentheses match each other and enclose all commas. -/
inductive Undivided : List Char → Prop
  | empty : Undivided []
  | other {character : Char} {text : List Char} (notOpening : character ≠ '(')
      (notClosing : character ≠ ')') (noComma : character ≠ ',') (undivided : Undivided text) :
      Undivided (character :: text)
  | nested {inner text : List Char} (matched : Matched inner) (undivided : Undivided text) :
      Undivided ('(' :: inner ++ ')' :: text)

/-- The shortest front of a text, other than the empty one, in which all parentheses match. -/
structure ShortestMatched (front text : List Char) : Prop where
  nonempty : front ≠ []
  matched : Matched front
  isFront : front <+: text
  shortest : ∀ other, other ≠ [] → Matched other → other <+: text → front <+: other

/-- A text is divided into parts by the commas that no parentheses enclose. -/
structure Divides (parts : List (List Char)) (text : List Char) : Prop where
  filled : parts ≠ []
  undivided : ∀ part ∈ parts, Undivided part
  joined : [','].intercalate parts = text

variable {inner text rest part front : List Char} {parts arguments : List (List Char)}
  {depth : ℕ} {character : Char}

/-! ### Segments -/

/-- The segments of a text with a front that no comma divides. -/
def putBefore (front : List Char) (found : List (List Char) × List Char) :
    List (List Char) × List Char :=
  (found.1.modifyHead (front ++ ·), found.2)

theorem putBefore_nil (found : List (List Char) × List Char) : putBefore [] found = found := by
  rcases found with ⟨_ | ⟨first, others⟩, rest⟩ <;> rfl

theorem putBefore_singleton (found : List (List Char) × List Char) :
    putBefore [character] found = (found.1.modifyHead (character :: ·), found.2) :=
  rfl

theorem putBefore_append (first second : List Char) (found : List (List Char) × List Char) :
    putBefore (first ++ second) found = putBefore first (putBefore second found) := by
  rcases found with ⟨_ | ⟨_, others⟩, rest⟩ <;> simp [putBefore]

theorem segments?_other (notOpening : character ≠ '(') (notClosing : character ≠ ')')
    (enclosed : character = ',' → depth ≠ 0) :
    segments? depth (character :: rest) = (segments? depth rest).map (putBefore [character]) := by
  have noSeparator : ¬(character = ',' ∧ depth = 0) :=
    fun ⟨isComma, atTop⟩ => enclosed isComma atTop
  simp [segments?, notOpening, notClosing, noSeparator, funext putBefore_singleton]

theorem segments?_opening :
    segments? depth ('(' :: rest) = (segments? (depth + 1) rest).map (putBefore ['(']) := by
  simp [segments?, funext putBefore_singleton]

theorem segments?_closing_succ :
    segments? (depth + 1) (')' :: rest) = (segments? depth rest).map (putBefore [')']) := by
  simp [segments?, funext putBefore_singleton]

theorem segments?_comma :
    segments? 0 (',' :: rest) = (segments? 0 rest).map fun found => ([] :: found.1, found.2) := by
  simp [segments?]

/-- A text is passed over at a depth: it ends no segment and belongs to the one it stands in. -/
def PassedOver (depth : ℕ) (text : List Char) : Prop :=
  ∀ rest, segments? depth (text ++ rest) = (segments? depth rest).map (putBefore text)

theorem passedOver_nil (depth : ℕ) : PassedOver depth [] := by
  intro rest
  simp [funext putBefore_nil]

/-- A character that neither opens nor closes a list is passed over. So is a comma, unless it stands
in no inner parentheses. -/
theorem PassedOver.cons (passed : PassedOver depth text) (notOpening : character ≠ '(')
    (notClosing : character ≠ ')') (enclosed : character = ',' → depth ≠ 0) :
    PassedOver depth (character :: text) := by
  intro rest
  rw [List.cons_append, segments?_other notOpening notClosing enclosed, passed, Option.map_map]
  congr 1
  exact (funext (putBefore_append [character] text)).symm

/-- Parentheses are passed over with what they enclose, one level further down. -/
theorem PassedOver.group (passed : PassedOver depth text) (within : PassedOver (depth + 1) inner) :
    PassedOver depth ('(' :: inner ++ ')' :: text) := by
  intro rest
  have spelled : '(' :: inner ++ ')' :: text = ['('] ++ (inner ++ ([')'] ++ text)) := rfl
  rw [List.append_assoc, List.cons_append, List.cons_append, segments?_opening, within,
    segments?_closing_succ, passed, Option.map_map, Option.map_map, Option.map_map, spelled]
  congr 1
  funext found
  rw [putBefore_append, putBefore_append, putBefore_append]
  rfl

/-- Within parentheses, matched ones are passed over with all that stands between them. -/
theorem passedOver_of_matched (matched : Matched inner) (depth : ℕ) :
    PassedOver (depth + 1) inner := by
  induction matched generalizing depth with
  | empty => exact passedOver_nil _
  | other notOpening notClosing _ ih =>
      exact (ih depth).cons notOpening notClosing fun _ => Nat.succ_ne_zero depth
  | nested _ _ ihInner ih => exact (ih depth).group (ihInner (depth + 1))

theorem passedOver_of_undivided (undivided : Undivided part) : PassedOver 0 part := by
  induction undivided with
  | empty => exact passedOver_nil 0
  | other notOpening notClosing noComma _ ih =>
      exact ih.cons notOpening notClosing fun isComma => absurd isComma noComma
  | nested matched _ ih => exact ih.group (passedOver_of_matched matched 0)

/-- The segments of a list are the parts into which its commas divide it. The proof goes part by
part, each of which is passed over up to the comma behind it. -/
theorem segments?_of_divides (divides : Divides parts inner) :
    segments? 0 (inner ++ ')' :: rest) = some (parts, rest) := by
  obtain ⟨filled, undivided, rfl⟩ := divides
  induction parts with
  | nil => contradiction
  | cons part others ih =>
      obtain ⟨isUndivided, undivided⟩ := List.forall_mem_cons.mp undivided
      cases others with
      | nil =>
          rw [List.intercalate_singleton, passedOver_of_undivided isUndivided]
          simp [segments?, putBefore]
      | cons second others =>
          rw [List.intercalate_cons_cons, List.append_assoc, List.append_assoc,
            passedOver_of_undivided isUndivided, List.singleton_append, segments?_comma,
            ih (List.cons_ne_nil _ _) undivided]
          simp [putBefore]

/-! ### Division into parts -/

theorem intercalate_modifyHead (filled : parts ≠ []) (separator front : List Char) :
    separator.intercalate (parts.modifyHead (front ++ ·)) =
      front ++ separator.intercalate parts := by
  rcases parts with _ | ⟨first, _ | ⟨second, others⟩⟩
  · contradiction
  · simp
  · simp [List.intercalate_cons_cons]

theorem Divides.modifyHead (divides : Divides parts text) (front : List Char)
    (keeps : ∀ part, Undivided part → Undivided (front ++ part)) :
    Divides (parts.modifyHead (front ++ ·)) (front ++ text) := by
  obtain ⟨filled, undivided, rfl⟩ := divides
  refine ⟨by simpa using filled, ?_, intercalate_modifyHead filled _ _⟩
  cases parts with
  | nil => nofun
  | cons first others =>
      obtain ⟨isUndivided, undivided⟩ := List.forall_mem_cons.mp undivided
      exact List.forall_mem_cons.mpr ⟨keeps first isUndivided, undivided⟩

/-- Matched parentheses leave a way to divide the text. It is found from the left, with a new part
at each comma that no parentheses enclose. -/
theorem exists_divides (matched : Matched inner) : ∃ parts, Divides parts inner := by
  induction matched with
  | empty => exact ⟨[[]], by simp, by simpa using Undivided.empty, rfl⟩
  | @other character text notOpening notClosing _ ih =>
      obtain ⟨parts, divides⟩ := ih
      by_cases isComma : character = ','
      · obtain ⟨filled, undivided, rfl⟩ := divides
        refine ⟨[] :: parts, by simp, List.forall_mem_cons.mpr ⟨.empty, undivided⟩, ?_⟩
        obtain ⟨first, others, rfl⟩ := List.exists_cons_of_ne_nil filled
        simp [List.intercalate_cons_cons, isComma]
      · exact ⟨_, divides.modifyHead [character] fun _ => .other notOpening notClosing isComma⟩
  | @nested inner text matchedInner _ _ ih =>
      obtain ⟨parts, divides⟩ := ih
      have found := divides.modifyHead ('(' :: inner ++ [')']) fun part isUndivided => by
        simpa using Undivided.nested matchedInner isUndivided
      exact ⟨_, by simpa using found⟩

/-! ### The front that is read -/

/-- The first parenthesis of a matched text has its match in the text, and what follows it is
matched again. -/
theorem exists_inner_of_matched (matched : Matched ('(' :: text)) :
    ∃ inner more, Matched inner ∧ Matched more ∧ text = inner ++ ')' :: more := by
  cases matched with
  | other notOpening => contradiction
  | @nested inner more matchedInner matched => exact ⟨inner, more, matchedInner, matched, rfl⟩

/-- The list that begins a text is its shortest front with matched parentheses. The closing
parenthesis is found behind any front that is matched, so no shorter one ends in another. -/
theorem shortestMatched_list (matched : Matched inner) (rest : List Char) :
    ShortestMatched ('(' :: inner ++ [')']) ('(' :: inner ++ ')' :: rest) where
  nonempty := by simp
  matched := .nested matched .empty
  isFront := ⟨rest, by simp⟩
  shortest := by
    rintro (_ | ⟨opening, other⟩) nonempty matchedOther ⟨behind, shape⟩
    · contradiction
    · obtain ⟨rfl, shape⟩ := List.cons.inj shape
      obtain ⟨within, more, matchedWithin, _, rfl⟩ := exists_inner_of_matched matchedOther
      have spelled : within ++ ')' :: (more ++ behind) = inner ++ ')' :: rest := by
        simpa using shape
      have sameRest : more ++ behind = rest := by
        have found := behind?_eq_some_iff.mpr ⟨inner, matched, spelled⟩
        rw [behind?_eq_some_iff.mpr ⟨within, matchedWithin, rfl⟩] at found
        exact Option.some.inj found
      have sameInner : within = inner := by
        rw [sameRest] at spelled
        exact List.append_cancel_right spelled
      rw [sameInner]
      exact ⟨more, by simp⟩

theorem read_of_divides (divides : Divides parts inner) :
    Invocation.read ('(' :: inner ++ ')' :: rest) = .closed (parts.map Text.trim) rest := by
  simp [Invocation.read, segments?_of_divides divides]

/-- A list is closed behind the shortest front with matched parentheses, and its arguments are the
parts of that front without the blanks around them. -/
theorem read_eq_closed_iff (opens : text.head? = some '(') :
    Invocation.read text = .closed arguments rest ↔
      ∃ inner parts, ShortestMatched ('(' :: inner ++ [')']) text ∧
        text = '(' :: inner ++ [')'] ++ rest ∧ Divides parts inner ∧
          arguments = parts.map Text.trim := by
  constructor
  · intro found
    obtain ⟨inner, matched, rfl⟩ := exists_read_eq_closed_iff.mp ⟨arguments, found⟩
    obtain ⟨parts, divides⟩ := exists_divides matched
    refine ⟨inner, parts, shortestMatched_list matched rest, by simp, divides, ?_⟩
    rw [read_of_divides divides] at found
    cases found
    rfl
  · rintro ⟨inner, parts, _, rfl, divides, rfl⟩
    simpa using read_of_divides divides

/-- A list is closed just when the parentheses of some front of the text match. -/
theorem exists_read_eq_closed_iff_front (opens : text.head? = some '(') :
    (∃ arguments rest, Invocation.read text = .closed arguments rest) ↔
      ∃ front, front ≠ [] ∧ Matched front ∧ front <+: text := by
  obtain ⟨tail, rfl⟩ := List.head?_eq_some_iff.mp opens
  constructor
  · rintro ⟨arguments, rest, found⟩
    obtain ⟨inner, _, shortest, _⟩ := (read_eq_closed_iff opens).mp found
    exact ⟨_, shortest.nonempty, shortest.matched, shortest.isFront⟩
  · rintro ⟨_ | ⟨first, front⟩, nonempty, matched, behind, shape⟩
    · contradiction
    · obtain ⟨rfl, shape⟩ := List.cons.inj shape
      obtain ⟨inner, more, matchedInner, _, rfl⟩ := exists_inner_of_matched matched
      have closes : Closes ('(' :: tail) := ⟨inner, more ++ behind, matchedInner, by simp [← shape]⟩
      exact closes_iff_read.mp closes

theorem read_eq_unclosed_iff_front (opens : text.head? = some '(') :
    Invocation.read text = .unclosed ↔ ∀ front, front ≠ [] → front <+: text → ¬Matched front := by
  rw [read_eq_unclosed_iff, NeverCloses, closes_iff_read, exists_read_eq_closed_iff_front opens]
  constructor
  · rintro ⟨_, none⟩ front nonempty isFront matched
    exact none ⟨front, nonempty, matched, isFront⟩
  · refine fun none => ⟨opens, ?_⟩
    rintro ⟨front, nonempty, matched, isFront⟩
    exact none front nonempty isFront matched

/-- Arguments that are written with commas between them are read back. -/
theorem read_joined (filled : arguments ≠ [])
    (areArguments : ∀ argument ∈ arguments, Undivided argument ∧ Text.Trimmed argument)
    (rest : List Char) :
    Invocation.read ('(' :: [','].intercalate arguments ++ ')' :: rest) =
      .closed arguments rest := by
  have divides : Divides arguments ([','].intercalate arguments) :=
    ⟨filled, fun argument isArgument => (areArguments argument isArgument).1, rfl⟩
  have trimmed : ∀ argument ∈ arguments, Text.trim argument = argument :=
    fun argument isArgument =>
      (areArguments argument isArgument).2.trim_append (List.forall_mem_nil _)
  have bare : arguments.map Text.trim = arguments :=
    (List.map_congr_left trimmed).trans (List.map_id' _)
  rw [read_of_divides divides, bare]

/-- What stands right behind a name is no argument list if no parenthesis opens there. If one does,
the list is closed if and only if parentheses match in some front of the text. It ends with the
shortest such front, and the arguments are what the commas outside inner parentheses divide. So
arguments that are written with commas between them are read back, with the text behind them.
Arguments that are written as a list are the ones that are read from it. -/
theorem read_delimits (text : List Char) :
    (Invocation.read text = .absent ↔ text.head? ≠ some '(') ∧
    (text.head? = some '(' →
      ((∃ arguments rest, Invocation.read text = .closed arguments rest) ↔
        ∃ front, front ≠ [] ∧ Matched front ∧ front <+: text) ∧
      (∀ arguments rest, Invocation.read text = .closed arguments rest ↔
        ∃ inner parts, ShortestMatched ('(' :: inner ++ [')']) text ∧
          text = '(' :: inner ++ [')'] ++ rest ∧ Divides parts inner ∧
            arguments = parts.map Text.trim) ∧
      (Invocation.read text = .unclosed ↔
        ∀ front, front ≠ [] → front <+: text → ¬Matched front)) ∧
    ∀ arguments tail, arguments ≠ [] →
      (∀ argument ∈ arguments, Undivided argument ∧ Text.Trimmed argument) →
        Invocation.read ('(' :: [','].intercalate arguments ++ ')' :: tail) =
          .closed arguments tail := by
  refine ⟨read_eq_absent_iff, fun opens => ?_, fun _ tail filled areArguments => ?_⟩
  · exact ⟨exists_read_eq_closed_iff_front opens, fun _ _ => read_eq_closed_iff opens,
      read_eq_unclosed_iff_front opens⟩
  · exact read_joined filled areArguments tail

example : Invocation.read "(é(a, b), c) + 1".toList =
    .closed ["é(a, b)".toList, "c".toList] " + 1".toList := by
  decide

end TadsReference.Macro
