import TadsReference.Text.LowerCase

/-!
# Lower case and digits

Digits are their own lower-case forms, and no letter before them has another form on their account.
So a number behind a text stays as it is: `lowerCase_append_toString`.
-/

namespace TadsReference.Text

variable {digit : Char} {digits : List Char}

theorem toNat_of_isDigit (isDigit : digit.isDigit = true) :
    48 ≤ digit.toNat ∧ digit.toNat ≤ 57 := by
  simp only [Char.isDigit, Bool.and_eq_true, decide_eq_true_eq, ge_iff_le,
    UInt32.le_iff_toNat_le] at isDigit
  exact isDigit

theorem not_contains_of_isDigit {set : CodePointSet}
    (apart : ∀ interval ∈ set.intervals, interval.2 < 48 ∨ 57 < interval.1)
    (isDigit : digit.isDigit = true) : set.contains digit = false := by
  have range := toNat_of_isDigit isDigit
  apply Bool.eq_false_iff.mpr
  intro contained
  rcases CodePointSet.contains_iff.mp contained with ⟨interval, isInterval, above, below⟩
  rcases apart interval isInterval with before | behind
  · omega
  · omega

theorem digitFree_caseIgnorableCharacters :
    ∀ interval ∈ caseIgnorableCharacters.intervals, interval.2 < 48 ∨ 57 < interval.1 := by
  decide +kernel

theorem digitFree_casedCharacters :
    ∀ interval ∈ casedCharacters.intervals, interval.2 < 48 ∨ 57 < interval.1 := by
  decide +kernel

/-- A digit has no other form in lower case. -/
theorem lowerCharacter_of_isDigit (isDigit : digit.isDigit = true) :
    lowerCharacter digit = [digit] := by
  have range := toNat_of_isDigit isDigit
  have ascii : digit.toNat < 0x80 := by omega
  have notUpper : ¬(digit.val ≥ 'A'.val ∧ digit.val ≤ 'Z'.val) := by
    rintro ⟨above, _⟩
    have above : 65 ≤ digit.toNat := UInt32.le_iff_toNat_le.mp above
    omega
  have same : digit.toLower = digit := dif_neg notUpper
  rw [lowerCharacter, if_pos ascii, same]

/-- A search for a cased character ends without one at a digit. Digits are neither cased nor passed
over. -/
theorem meetsCased_append_digits (areDigits : ∀ digit ∈ digits, digit.isDigit = true)
    (text : List Char) : meetsCased (text ++ digits) = meetsCased text := by
  induction text with
  | nil =>
      cases digits with
      | nil => rfl
      | cons digit digits =>
          have isDigit := areDigits digit List.mem_cons_self
          have notIgnored := not_contains_of_isDigit digitFree_caseIgnorableCharacters isDigit
          have notCased := not_contains_of_isDigit digitFree_casedCharacters isDigit
          simp [meetsCased, notIgnored, notCased]
  | cons character text ih =>
      by_cases ignored : caseIgnorableCharacters.contains character = true
      · simpa [meetsCased, ignored] using ih
      · simp [meetsCased, ignored]

/-- Digits stay as they are, whatever stands before them. -/
theorem lowerAfter_digits (areDigits : ∀ digit ∈ digits, digit.isDigit = true)
    (before : List Char) : lowerAfter before digits = digits := by
  induction digits generalizing before with
  | nil => rfl
  | cons digit digits ih =>
      have isDigit := areDigits digit List.mem_cons_self
      have notSigma : (digit == '\u03A3') = false := by
        have range := toNat_of_isDigit isDigit
        apply beq_false_of_ne
        rintro rfl
        contradiction
      have others := ih (fun other isOther => areDigits other (List.mem_cons_of_mem _ isOther))
        (digit :: before)
      simp [lowerAfter, notSigma, lowerCharacter_of_isDigit isDigit, others]

/-- Digits behind a text change nothing of how the text is put in lower case, since none of them is
cased and none may be ignored. -/
theorem lowerAfter_append_digits (areDigits : ∀ digit ∈ digits, digit.isDigit = true)
    (before text : List Char) :
    lowerAfter before (text ++ digits) = lowerAfter before text ++ digits := by
  induction text generalizing before with
  | nil => exact lowerAfter_digits areDigits before
  | cons character text ih =>
      simp only [List.cons_append, lowerAfter, meetsCased_append_digits areDigits, ih,
        List.append_assoc]

theorem isDigit_of_mem_toString {number : Nat} (member : digit ∈ (toString number).toList) :
    digit.isDigit = true := by
  rw [Nat.toString_eq_ofList_toDigits, String.toList_ofList] at member
  exact Nat.isDigit_of_mem_toDigits (by omega) (by omega) member

theorem lowerCase_append_toString (text : String) (number : Nat) :
    lowerCase (text ++ toString number) = lowerCase text ++ toString number := by
  rw [lowerCase, lowerCase, String.toList_append,
    lowerAfter_append_digits fun _ => isDigit_of_mem_toString, String.ofList_append,
    String.ofList_toList]

end TadsReference.Text
