import TadsReference.Macro.Invocation

/-!
# Argument lists that close

An argument list closes if its opening parenthesis has a match. Which parenthesis that is depends
only on the parentheses behind it: between the two all parentheses match each other. So a list that
does not close never stands within one that does (`closes_of_matched`).
-/

namespace TadsReference.Macro

/-- A text whose parentheses match each other. -/
inductive Matched : List Char → Prop
  | empty : Matched []
  | other {character : Char} {text : List Char} (notOpening : character ≠ '(')
      (notClosing : character ≠ ')') (matched : Matched text) : Matched (character :: text)
  | nested {inner text : List Char} (matchedInner : Matched inner) (matched : Matched text) :
      Matched ('(' :: inner ++ ')' :: text)

/-- A text begins with an argument list that closes. -/
def Closes (text : List Char) : Prop :=
  ∃ inner rest, Matched inner ∧ text = '(' :: inner ++ ')' :: rest

/-- A text begins with an argument list that never closes. -/
def NeverCloses (text : List Char) : Prop :=
  text.head? = some '(' ∧ ¬Closes text

variable {text inner rest before after : List Char} {character : Char} {depth : Nat}

/-! ### The text behind an argument list -/

/-- The text behind the parenthesis that closes an argument list, if `depth` more lists are to be
closed before it. -/
def behind? (depth : Nat) (text : List Char) : Option (List Char) :=
  (segments? depth text).map (·.2)

theorem behind?_nil : behind? depth [] = none := by
  simp [behind?, segments?]

theorem behind?_closing : behind? 0 (')' :: rest) = some rest := by
  simp [behind?, segments?]

theorem behind?_closing_succ : behind? (depth + 1) (')' :: rest) = behind? depth rest := by
  simp [behind?, segments?, Function.comp_def]

theorem behind?_opening : behind? depth ('(' :: rest) = behind? (depth + 1) rest := by
  simp [behind?, segments?, Function.comp_def]

theorem behind?_other (notOpening : character ≠ '(') (notClosing : character ≠ ')') :
    behind? depth (character :: rest) = behind? depth rest := by
  by_cases separates : character = ',' ∧ depth = 0
  · simp [behind?, segments?, separates, Function.comp_def]
  · simp [behind?, segments?, separates, notOpening, notClosing, Function.comp_def]

/-- Matched parentheses close no list that has been opened before them. -/
theorem behind?_matched (matched : Matched inner) :
    behind? depth (inner ++ rest) = behind? depth rest := by
  induction matched generalizing depth rest with
  | empty => rfl
  | other notOpening notClosing _ ih =>
      rw [List.cons_append, behind?_other notOpening notClosing, ih]
  | nested _ _ ihInner ih =>
      rw [List.append_assoc, List.cons_append, List.cons_append, behind?_opening, ihInner,
        behind?_closing_succ, ih]

/-- What is closed first is closed behind matched parentheses. The induction is on the length of the
text: behind an opening parenthesis, the search is taken apart into that for its own closing one and
that for the next. -/
theorem exists_matched_of_behind? (found : behind? depth text = some rest) :
    ∃ inner after, Matched inner ∧ text = inner ++ ')' :: after ∧
      behind? depth (')' :: after) = some rest := by
  induction length : text.length using Nat.strongRecOn generalizing text depth with
  | ind size ih =>
      subst length
      cases text with
      | nil =>
          rw [behind?_nil] at found
          contradiction
      | cons character tail =>
          by_cases closing : character = ')'
          · subst closing
            exact ⟨[], tail, .empty, rfl, found⟩
          · by_cases opening : character = '('
            · subst opening
              rw [behind?_opening] at found
              rcases ih _ (by simp) found rfl with ⟨inner, middle, matchedInner, rfl, foundMiddle⟩
              rw [behind?_closing_succ] at foundMiddle
              rcases ih _ (by simp; omega) foundMiddle rfl
                with ⟨text, after, matched, rfl, foundAfter⟩
              exact ⟨'(' :: inner ++ ')' :: text, after, .nested matchedInner matched, by simp,
                foundAfter⟩
            · rw [behind?_other opening closing] at found
              rcases ih _ (by simp) found rfl with ⟨inner, after, matched, rfl, foundAfter⟩
              exact ⟨character :: inner, after, .other opening closing matched, rfl, foundAfter⟩

theorem behind?_eq_some_iff :
    behind? 0 text = some rest ↔ ∃ inner, Matched inner ∧ text = inner ++ ')' :: rest := by
  constructor
  · intro found
    rcases exists_matched_of_behind? found with ⟨inner, after, matched, rfl, foundAfter⟩
    rw [behind?_closing] at foundAfter
    exact ⟨inner, matched, by rw [Option.some.inj foundAfter]⟩
  · rintro ⟨inner, matched, rfl⟩
    rw [behind?_matched matched, behind?_closing]

/-! ### Reading an argument list -/

/-- An argument list is read to its end just when its opening parenthesis has a match. What the
arguments are does not matter to that. -/
theorem exists_read_eq_closed_iff :
    (∃ arguments, Invocation.read text = .closed arguments rest) ↔
      ∃ inner, Matched inner ∧ text = '(' :: inner ++ ')' :: rest := by
  unfold Invocation.read
  split
  · next tail =>
      have found : (∃ segments, segments? 0 tail = some (segments, rest)) ↔
          behind? 0 tail = some rest := by
        simp [behind?]
      simp only [List.cons_append, List.cons.injEq, true_and, ← behind?_eq_some_iff, ← found]
      cases segments? 0 tail with
      | none => simp
      | some segments => simp [Prod.ext_iff]
  · next notOpening =>
      constructor
      · rintro ⟨arguments, impossible⟩
        contradiction
      · rintro ⟨inner, _, rfl⟩
        exact absurd rfl (notOpening _)

/-- No list is read where the text does not begin with a parenthesis. -/
theorem read_eq_absent_iff : Invocation.read text = .absent ↔ text.head? ≠ some '(' := by
  unfold Invocation.read
  split
  · next tail =>
      cases segments? 0 tail <;> simp
  · next notOpening =>
      refine ⟨fun _ isOpening => ?_, fun _ => rfl⟩
      rcases List.head?_eq_some_iff.mp isOpening with ⟨tail, rfl⟩
      exact notOpening tail rfl

theorem closes_iff_read :
    Closes text ↔ ∃ arguments rest, Invocation.read text = .closed arguments rest := by
  constructor
  · rintro ⟨inner, rest, matched, shape⟩
    rcases exists_read_eq_closed_iff.mpr ⟨inner, matched, shape⟩ with ⟨arguments, found⟩
    exact ⟨arguments, rest, found⟩
  · rintro ⟨arguments, rest, found⟩
    rcases exists_read_eq_closed_iff.mp ⟨arguments, found⟩ with ⟨inner, matched, shape⟩
    exact ⟨inner, rest, matched, shape⟩

/-- The list remains open if its parenthesis has no match in all of the text. -/
theorem read_eq_unclosed_iff : Invocation.read text = .unclosed ↔ NeverCloses text := by
  rw [NeverCloses, closes_iff_read]
  cases found : Invocation.read text with
  | absent => simp [read_eq_absent_iff.mp found]
  | closed arguments rest => simp
  | unclosed =>
      have opening : text.head? = some '(' := by
        apply Decidable.byContradiction
        intro other
        rw [read_eq_absent_iff.mpr other] at found
        contradiction
      simp [opening]

/-! ### Lists within lists -/

theorem Closes.append (closes : Closes text) (more : List Char) : Closes (text ++ more) := by
  rcases closes with ⟨inner, rest, matched, rfl⟩
  exact ⟨inner, rest ++ more, matched, by simp⟩

/-- Every parenthesis that is opened among matched ones is closed among them. The induction is on
how the parentheses are matched. A nested pair has the one in question as its own, within it, or
behind it. -/
theorem closes_of_matched (matched : Matched inner) (shape : inner = before ++ '(' :: after) :
    Closes ('(' :: after) := by
  induction matched generalizing before after with
  | empty => simp at shape
  | other notOpening _ _ ih =>
      cases before with
      | nil => exact absurd (List.cons.inj shape).1 notOpening
      | cons first before => exact ih (List.cons.inj shape).2
  | @nested within text matchedWithin _ ihWithin ih =>
      cases before with
      | nil => exact ⟨within, text, matchedWithin, shape.symm⟩
      | cons first before =>
          have inside := (List.cons.inj shape).2
          rcases List.append_eq_append_iff.mp inside with ⟨gap, _, gapShape⟩ | ⟨gap, rfl, gapShape⟩
          · cases gap with
            | nil => simp at gapShape
            | cons _ gap => exact ih (List.cons.inj gapShape).2
          · cases gap with
            | nil => simp at gapShape
            | cons _ gap =>
                rw [List.cons_append] at gapShape
                obtain ⟨rfl, rfl⟩ := List.cons.inj gapShape
                have closes : Closes ('(' :: gap) := ihWithin rfl
                exact closes.append (')' :: text)

end TadsReference.Macro
