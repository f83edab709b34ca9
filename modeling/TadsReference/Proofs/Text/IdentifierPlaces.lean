import TadsReference.Proofs.Text.SpacedTokens

/-!
# The places of identifiers

Positions in a text count the bytes of its UTF-8 form. The identifiers that are listed for a text
are the whole ones at their positions, in order, and they are those of its tokens that are
identifiers. Searching behind one for the next goes through the list.
-/

namespace TadsReference

/-- The bytes of a text in UTF-8. -/
def Text.Utf8.encode (text : List Char) : List UInt8 :=
  text.flatMap String.utf8EncodeChar

namespace Text.Utf8

@[simp] theorem encode_nil : encode [] = [] :=
  rfl

@[simp] theorem encode_cons (character : Char) (text : List Char) :
    encode (character :: text) = String.utf8EncodeChar character ++ encode text :=
  rfl

@[simp] theorem encode_append (left right : List Char) :
    encode (left ++ right) = encode left ++ encode right :=
  List.flatMap_append

theorem length_utf8EncodeChar_pos (character : Char) :
    0 < (String.utf8EncodeChar character).length := by
  rw [String.length_utf8EncodeChar]
  exact Char.utf8Size_pos character

theorem length_encode_pos {text : List Char} (nonempty : text ≠ []) :
    0 < (encode text).length := by
  obtain ⟨character, rest, rfl⟩ := List.exists_cons_of_ne_nil nonempty
  have positive := length_utf8EncodeChar_pos character
  rw [encode_cons, List.length_append]
  omega

theorem length_encode_eq_utf8ByteSize (text : List Char) :
    (encode text).length = (String.ofList text).utf8ByteSize := by
  rw [← String.size_toByteArray, String.toByteArray_ofList, List.utf8Encode, List.size_toByteArray,
    encode]

end Text.Utf8

namespace Identifier

open Text.Utf8 (encode)

variable {text before run rest others line : List Char} {position : Nat} {first other : Run}

/-- A whole identifier of a text that begins at a position, and the positions at which it begins and
ends itself. -/
def IsRunFrom (position : Nat) (text : List Char) (run : Run) : Prop :=
  ∃ before after, text = before ++ run.name ++ after ∧ Whole before run.name after ∧
    run.start = position + (encode before).length ∧ run.stop = run.start + (encode run.name).length

/-- Identifiers are searched for one behind the other, from a position on. -/
inductive Enumerated (text : List Char) : (position : Nat) → List Run → Prop
  | ended {position : Nat} (none : find? text position = none) : Enumerated text position []
  | found {position : Nat} {run : Run} {others : List Run} (first : find? text position = some run)
      (further : Enumerated text run.stop others) : Enumerated text position (run :: others)

/-- The tokens of a line that begins at a position, each with the positions at which it begins and
ends. -/
def tokensFrom (position : Nat) (line : List Char) : List Run :=
  match _read : Token.next? line with
  | none => []
  | some (token, rest) =>
      let stop := position + (encode line).length - (encode rest).length
      ⟨stop - (encode token.toList).length, stop, token.toList⟩ :: tokensFrom stop rest
termination_by line.length
decreasing_by exact Token.length_lt_of_next? _read

/-! ### Listed identifiers -/

theorem length_utf8EncodeChar_of_isIdentifier {character : Char}
    (isIdentifier : isIdentifierCharacter character = true) :
    (String.utf8EncodeChar character).length = 1 := by
  have bounds := Text.toNat_of_isIdentifierCharacter isIdentifier
  rw [String.length_utf8EncodeChar, Char.utf8Size_eq_one_iff, UInt32.le_iff_toNat_le]
  exact Nat.le_trans bounds.2 (by decide)

/-- An identifier has as many bytes as characters. -/
theorem length_encode_run (isRun : ∀ character ∈ run, isIdentifierCharacter character = true) :
    (encode run).length = run.length := by
  induction run with
  | nil => rfl
  | cons character run ih =>
      obtain ⟨isIdentifier, isRun⟩ := List.forall_mem_cons.mp isRun
      rw [Text.Utf8.encode_cons, List.length_append, ih isRun,
        length_utf8EncodeChar_of_isIdentifier isIdentifier, List.length_cons, Nat.add_comm]

theorem runsFrom_nil (position : Nat) : runsFrom position [] = [] := by
  rw [runsFrom]

theorem runsFrom_others
    (isOther : ∀ character ∈ others, isIdentifierCharacter character = false) (position : Nat) :
    runsFrom position (others ++ rest) = runsFrom (position + (encode others).length) rest := by
  induction others generalizing position with
  | nil => rfl
  | cons character others ih =>
      obtain ⟨isFirst, isOther⟩ := List.forall_mem_cons.mp isOther
      rw [List.cons_append, runsFrom, if_neg (by simp [isFirst]), ih isOther,
        Text.Utf8.encode_cons, List.length_append, String.length_utf8EncodeChar, Nat.add_assoc]

theorem runsFrom_run (isRun : IsRun run) (apart : Apart rest) (position : Nat) :
    runsFrom position (run ++ rest) =
      ⟨position, position + (encode run).length, run⟩ ::
        runsFrom (position + (encode run).length) rest := by
  rw [length_encode_run isRun.all]
  rcases run with _ | ⟨character, tail⟩
  · exact absurd rfl isRun.nonempty
  · have isIdentifier := isRun.all character List.mem_cons_self
    have spans := takeWhile_append_of_apart
      (fun symbol isSymbol => isRun.all symbol (List.mem_cons_of_mem _ isSymbol)) apart
    rw [List.cons_append, runsFrom, if_pos isIdentifier, spans.1, spans.2]

/-- What is listed is a whole identifier at its positions. The list is followed identifier by
identifier, with what stands between them. -/
theorem isRunFrom_of_mem_runsFrom {found : Run} (isListed : found ∈ runsFrom position text) :
    IsRunFrom position text found := by
  induction text using run_induction generalizing position with
  | nil =>
      rw [runsFrom_nil] at isListed
      contradiction
  | other character rest isOther ih =>
      rw [← List.singleton_append, runsFrom_others (List.forall_mem_singleton.mpr isOther)]
        at isListed
      obtain ⟨before, after, rfl, whole, start, stop⟩ := ih isListed
      refine ⟨character :: before, after, by simp, (whole_cons_iff isOther).mpr whole, ?_, stop⟩
      rw [start, Nat.add_assoc, ← List.length_append, ← Text.Utf8.encode_append,
        List.singleton_append]
  | identifier run rest isRun apart ih =>
      rw [runsFrom_run isRun apart] at isListed
      rcases List.mem_cons.mp isListed with rfl | isListed
      · exact ⟨[], rest, rfl, whole_nil isRun apart, rfl, rfl⟩
      · obtain ⟨before, after, rfl, whole, start, stop⟩ := ih isListed
        refine ⟨run ++ before, after, by simp, (whole_append_iff apart).mpr whole, ?_, stop⟩
        rw [start, Text.Utf8.encode_append, List.length_append, Nat.add_assoc]

/-- Every whole identifier is listed. Its positions are told by what stands from it to the end. -/
theorem everywhere_mem_runsFrom (position : Nat) (text : List Char) :
    Everywhere (fun name after =>
      ⟨position + (encode text).length - (encode (name ++ after)).length,
        position + (encode text).length - (encode after).length, name⟩ ∈ runsFrom position text)
      text := by
  induction text using run_induction generalizing position with
  | nil => exact everywhere_nil
  | other character rest isOther ih =>
      have total : position + (encode (character :: rest)).length =
          position + (encode [character]).length + (encode rest).length := by
        rw [← List.singleton_append, Text.Utf8.encode_append, List.length_append, Nat.add_assoc]
      rw [everywhere_other isOther, total, ← List.singleton_append,
        runsFrom_others (List.forall_mem_singleton.mpr isOther)]
      exact ih _
  | identifier run rest isRun apart ih =>
      have total : position + (encode (run ++ rest)).length =
          position + (encode run).length + (encode rest).length := by
        rw [Text.Utf8.encode_append, List.length_append, Nat.add_assoc]
      rw [everywhere_run isRun apart, runsFrom_run isRun apart]
      constructor
      · rw [List.mem_cons]
        left
        rw [Nat.add_sub_cancel, total, Nat.add_sub_cancel]
      · intro before name after shape whole
        rw [total]
        exact List.mem_cons_of_mem _ (ih _ before name after shape whole)

/-- The list has the whole identifiers of a text, all of them and no others. -/
theorem mem_runsFrom_iff {found : Run} :
    found ∈ runsFrom position text ↔ IsRunFrom position text found := by
  refine ⟨isRunFrom_of_mem_runsFrom, ?_⟩
  rintro ⟨before, after, rfl, whole, start, stop⟩
  have isListed : (⟨_, _, found.name⟩ : Run) ∈ _ :=
    everywhere_mem_runsFrom position _ before found.name after rfl whole
  have same : (⟨position + (encode (before ++ found.name ++ after)).length -
      (encode (found.name ++ after)).length,
      position + (encode (before ++ found.name ++ after)).length - (encode after).length,
      found.name⟩ : Run) = found := by
    rcases found with ⟨_, _, name⟩
    simp only [Text.Utf8.encode_append, List.length_append, Run.mk.injEq, and_true] at start stop ⊢
    omega
  rwa [same] at isListed

theorem start_lt_stop (isRun : IsRunFrom position text first) : first.start < first.stop := by
  obtain ⟨before, after, _, whole, _, stop⟩ := isRun
  have positive := List.length_pos_iff.mpr whole.isRun.nonempty
  rw [stop, length_encode_run whole.isRun.all]
  omega

theorem le_start (isRun : IsRunFrom position text first) : position ≤ first.start := by
  obtain ⟨before, after, _, _, start, _⟩ := isRun
  omega

/-- Identifiers are listed in the order in which they stand, and do not overlap. The induction goes
from identifier to identifier, and those behind one start at its end or later. -/
theorem pairwise_runsFrom (position : Nat) (text : List Char) :
    (runsFrom position text).Pairwise fun earlier later => earlier.stop ≤ later.start := by
  induction text using run_induction generalizing position with
  | nil =>
      rw [runsFrom_nil]
      exact List.Pairwise.nil
  | other character rest isOther ih =>
      rw [← List.singleton_append, runsFrom_others (List.forall_mem_singleton.mpr isOther)]
      exact ih _
  | identifier run rest isRun apart ih =>
      rw [runsFrom_run isRun apart]
      apply List.Pairwise.cons
      · intro later isLater
        exact le_start (mem_runsFrom_iff.mp isLater)
      · exact ih _

/-! ### Searching for identifiers -/

theorem mem_runsAfter_iff {found : Run} :
    found ∈ runsAfter text position ↔ IsRunFrom 0 text found ∧ position ≤ found.start := by
  rw [runsAfter, List.mem_filter, runs, mem_runsFrom_iff, decide_eq_true_iff]

theorem pairwise_runsAfter (text : List Char) (position : Nat) :
    (runsAfter text position).Pairwise fun earlier later => earlier.stop ≤ later.start :=
  (pairwise_runsFrom 0 text).filter _

theorem find?_eq_none_iff :
    find? text position = none ↔ ∀ run, IsRunFrom 0 text run → run.start < position := by
  rw [find?, List.head?_eq_none_iff, List.eq_nil_iff_forall_not_mem]
  simp only [mem_runsAfter_iff, not_and, Nat.not_le]

/-- What follows the identifier that is found first is found from its end. The others start behind
it, as the list is ordered, and it starts before its own end itself. -/
theorem runsAfter_of_find? (found : find? text position = some first) :
    runsAfter text position = first :: runsAfter text first.stop := by
  obtain ⟨others, shape⟩ := List.head?_eq_some_iff.mp found
  have later : ∀ run ∈ others, first.stop ≤ run.start := by
    have ordered := pairwise_runsAfter text position
    rw [shape] at ordered
    exact (List.pairwise_cons.mp ordered).1
  have isFirst : first ∈ runsAfter text position := by
    rw [shape]
    exact List.mem_cons_self
  have further := start_lt_stop (mem_runsAfter_iff.mp isFirst).1
  have within := (mem_runsAfter_iff.mp isFirst).2
  have rest : runsAfter text first.stop = others := by
    have narrowed : runsAfter text first.stop =
        (runsAfter text position).filter fun run => first.stop ≤ run.start := by
      rw [runsAfter, runsAfter, List.filter_filter]
      apply List.filter_congr
      intro run _
      grind
    rw [narrowed, shape, List.filter_cons_of_neg (by simpa using further), List.filter_eq_self]
    simpa using later
  rw [rest, shape]

/-- The identifier that is found is the first one that begins at the position or behind it. -/
theorem find?_eq_some_iff : find? text position = some first ↔
    IsRunFrom 0 text first ∧ position ≤ first.start ∧
      ∀ other, IsRunFrom 0 text other → position ≤ other.start → first.start ≤ other.start := by
  constructor
  · intro found
    have shape := runsAfter_of_find? found
    have isFirst : first ∈ runsAfter text position := by
      rw [shape]
      exact List.mem_cons_self
    obtain ⟨isRun, within⟩ := mem_runsAfter_iff.mp isFirst
    refine ⟨isRun, within, fun other isOther isBehind => ?_⟩
    have isListed := mem_runsAfter_iff.mpr ⟨isOther, isBehind⟩
    rw [shape] at isListed
    rcases List.mem_cons.mp isListed with rfl | isLater
    · exact Nat.le_refl _
    · have behind := (mem_runsAfter_iff.mp isLater).2
      have further := start_lt_stop isRun
      omega
  · rintro ⟨isRun, within, least⟩
    cases found : find? text position with
    | none =>
        have before := find?_eq_none_iff.mp found first isRun
        omega
    | some other =>
        have shape := runsAfter_of_find? found
        have isFirst := mem_runsAfter_iff.mpr ⟨isRun, within⟩
        rw [shape] at isFirst
        rcases List.mem_cons.mp isFirst with rfl | isLater
        · rfl
        · have isOther : other ∈ runsAfter text position := by
            rw [shape]
            exact List.mem_cons_self
          obtain ⟨isOther, isBehind⟩ := mem_runsAfter_iff.mp isOther
          have behind := (mem_runsAfter_iff.mp isLater).2
          have further := start_lt_stop isOther
          have start := least other isOther isBehind
          omega

/-- Searching for one identifier behind the other goes through the list, and comes to its end. The
second half is by induction on how many identifiers are left behind the position. -/
theorem enumerated_iff {found : List Run} :
    Enumerated text position found ↔ found = runsAfter text position := by
  constructor
  · intro enumerated
    induction enumerated with
    | ended none => exact (List.head?_eq_none_iff.mp none).symm
    | found first _ ih => rw [runsAfter_of_find? first, ih]
  · rintro rfl
    induction length : (runsAfter text position).length generalizing position with
    | zero =>
        have none := List.eq_nil_of_length_eq_zero length
        rw [none]
        exact .ended (List.head?_eq_none_iff.mpr none)
    | succ count ih =>
        obtain ⟨first, others, shape⟩ := List.exists_cons_of_length_eq_add_one length
        have found : find? text position = some first := by rw [find?, shape, List.head?_cons]
        rw [runsAfter_of_find? found] at length ⊢
        exact .found found (ih (Nat.succ.inj length))

/-! ### Identifiers among the tokens -/

/-- The identifiers of a line are those of its tokens that are identifiers, at their positions. A
token that begins with an identifier character is a whole identifier, and any other one holds
none. -/
theorem filter_tokensFrom (position : Nat) (line : List Char) :
    (tokensFrom position line).filter (IsRun ·.name) = runsFrom position line := by
  fun_induction tokensFrom position line with
  | case1 position line ended =>
      have blank := Token.next?_eq_none_iff.mp ended
      have others : ∀ character ∈ line, isIdentifierCharacter character = false :=
        fun character isPart => Text.isIdentifierCharacter_of_isBlank (blank character isPart)
      have none : runsFrom position (line ++ []) = _ := runsFrom_others others position
      rw [List.append_nil, runsFrom_nil] at none
      rw [none, List.filter_nil]
  | case2 position line token rest read stop ih =>
      obtain ⟨gap, split, isGap⟩ := Token.exists_gap_of_next? read
      have stops : stop = position + (encode gap).length + (encode token.toList).length := by
        simp only [stop, split, Text.Utf8.encode_append, List.length_append]
        omega
      rw [split, runsFrom_others isGap]
      rcases Token.isRun_or_others_of_scan? read with ⟨isRun, apart⟩ | ⟨filled, isOther⟩
      · rw [runsFrom_run isRun apart, ← stops, List.filter_cons_of_pos (by simpa using isRun), ih]
        congr 2
        omega
      · have noRun : ¬IsRun token.toList := by
          intro isRun
          obtain ⟨character, isPart⟩ := List.exists_mem_of_ne_nil _ filled
          simpa [isOther character isPart] using isRun.all character isPart
        rw [runsFrom_others isOther, ← stops, List.filter_cons_of_neg (by simpa using noRun), ih]

theorem map_name_tokensFrom (position : Nat) (line : List Char) :
    (tokensFrom position line).map (String.ofList ·.name) = Token.all line := by
  fun_induction tokensFrom position line with
  | case1 position line ended => rw [Token.all_of_end ended, List.map_nil]
  | case2 position line token rest read stop ih =>
      rw [Token.all_of_next? read, List.map_cons, ih, String.ofList_toList]

end Identifier

end TadsReference
