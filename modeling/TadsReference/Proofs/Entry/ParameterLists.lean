import TadsReference.Page.Address
import TadsReference.Proofs.Entry.WrittenHeads

/-!
# Parameter lists that are written anew

A parameter is a name, a name in brackets or an ellipsis, with any number of question marks behind
it. The parameters that a signature shows are read from it again, whatever follows on the line:
`exists_read_signature`.
-/

namespace TadsReference.ParameterList

open Identifier (IsRun Apart apart_cons)

/-- A text is written as a parameter. -/
inductive IsParameter : String → Prop
  | name {word : String} (isRun : IsRun word.toList) : IsParameter word
  | list {word : String} (isRun : IsRun word.toList) : IsParameter ("[" ++ word ++ "]")
  | ellipsis : IsParameter "..."
  | optional {parameter : String} (isParameter : IsParameter parameter) :
      IsParameter (parameter ++ "?")

/-- The parameter that the two tokens behind an opening bracket stand for. -/
def bracketed (inner closing : String) : String :=
  if closing == "]" then "[" ++ inner ++ "]" else inner

variable {parameters : List String} {token : String} {line rest : List Char}

/-! ### One token after the other -/

theorem scan_of_next? (first : Token.next? line = some (token, rest)) :
    scan parameters line =
      if token == ")" || token == "\x7b" then .complete (some (parameters, rest))
      else if token == "," then scan parameters rest
      else if token == "?" then scan (markOptional parameters) rest
      else if token == "[" then
        let inner := Token.next rest
        let closing := Token.next inner.2
        scan (parameters ++ [bracketed inner.1 closing.1]) closing.2
      else scan (parameters ++ [token]) rest := by
  rw [scan]
  split
  · simp_all
  · next found =>
      obtain ⟨rfl, rfl⟩ := Prod.mk.inj (Option.some.inj (first.symm.trans found))
      rfl

theorem scan_of_end (ended : Token.next? line = none) :
    scan parameters line = .waiting parameters := by
  rw [scan]
  split <;> simp_all

theorem scan_space (parameters : List String) (rest : List Char) :
    scan parameters (' ' :: rest) = scan parameters rest := by
  cases first : Token.next? rest with
  | none => rw [scan_of_end first, scan_of_end ((Token.next?_space rest).trans first)]
  | some found => rw [scan_of_next? first, scan_of_next? ((Token.next?_space rest).trans first)]

theorem scan_comma (parameters : List String) (rest : List Char) :
    scan parameters (',' :: rest) = scan parameters rest := by
  rw [scan_of_next? (Token.next?_comma rest)]
  rfl

theorem scan_closing (parameters : List String) (rest : List Char) :
    scan parameters (')' :: rest) = .complete (some (parameters, rest)) := by
  have first : Token.next? (')' :: rest) = some (")", rest) := rfl
  rw [scan_of_next? first]
  rfl

theorem scan_optional (parameters : List String) (parameter : String) (rest : List Char) :
    scan (parameters ++ [parameter]) ('?' :: rest) =
      scan (parameters ++ [parameter ++ "?"]) rest := by
  have first : Token.next? ('?' :: rest) = some ("?", rest) := rfl
  have marked : markOptional (parameters ++ [parameter]) = parameters ++ [parameter ++ "?"] := by
    simp [markOptional]
  rw [scan_of_next? first, ← marked]
  rfl

/-- A token without a meaning of its own is a parameter. -/
theorem scan_parameter (first : Token.next? line = some (token, rest))
    (plain : token ∉ [")", "\x7b", ",", "?", "["]) :
    scan parameters line = scan (parameters ++ [token]) rest := by
  simp only [List.mem_cons, List.not_mem_nil, or_false, not_or] at plain
  simp [scan_of_next? first, plain]

theorem scan_word {word : List Char} (isRun : IsRun word) (apart : Apart rest) :
    scan parameters (word ++ rest) = scan (parameters ++ [String.ofList word]) rest := by
  have spelled : IsRun (String.ofList word).toList := by rwa [String.toList_ofList]
  exact scan_parameter (Token.next?_word isRun apart) (spelled.not_mem (by decide))

/-- A name between brackets is one parameter. -/
theorem scan_list {word : List Char} (isRun : IsRun word) (rest : List Char) :
    scan parameters ('[' :: (word ++ ']' :: rest)) =
      scan (parameters ++ ["[" ++ String.ofList word ++ "]"]) rest := by
  have opening : Token.next? ('[' :: (word ++ ']' :: rest)) = some ("[", word ++ ']' :: rest) := rfl
  have inner : Token.next (word ++ ']' :: rest) = (String.ofList word, ']' :: rest) := by
    rw [Token.next, Token.next?_word isRun (apart_cons (by decide))]
    rfl
  have closing : Token.next (']' :: rest) = ("]", rest) := rfl
  rw [scan_of_next? opening, inner]
  simp only [closing]
  rfl

/-! ### Lists that are written -/

/-- A parameter is read up to where no identifier goes on. -/
theorem IsParameter.scan_append {parameter : String} (isParameter : IsParameter parameter)
    (parameters : List String) (apart : Apart rest) :
    scan parameters (parameter.toList ++ rest) = scan (parameters ++ [parameter]) rest := by
  induction isParameter generalizing rest with
  | name isRun => rw [scan_word isRun apart, String.ofList_toList]
  | @list word isRun =>
      have spelling : ("[" ++ word ++ "]").toList ++ rest =
          '[' :: (word.toList ++ ']' :: rest) := by
        simp
      rw [spelling, scan_list isRun, String.ofList_toList]
  | ellipsis => exact scan_parameter rfl (by decide)
  | @optional parameter _ ih =>
      have spelling : (parameter ++ "?").toList ++ rest = parameter.toList ++ '?' :: rest := by
        simp
      rw [spelling, ih (apart_cons (by decide)), scan_optional]

/-- Parameters with commas between them are read up to the closing parenthesis. -/
theorem scan_join {others : List String}
    (areParameters : ∀ parameter ∈ others, IsParameter parameter)
    (parameters : List String) (tail : List Char) :
    scan parameters ((Text.join ", " others).toList ++ ')' :: tail) =
      .complete (some (parameters ++ others, tail)) := by
  induction others generalizing parameters with
  | nil => simpa [Text.join] using scan_closing parameters tail
  | cons parameter others ih =>
      obtain ⟨isParameter, areParameters⟩ := List.forall_mem_cons.mp areParameters
      cases others with
      | nil =>
          have only : Text.join ", " [parameter] = parameter := by simp [Text.join]
          rw [only, isParameter.scan_append parameters (apart_cons (by decide)), scan_closing]
      | cons second others =>
          rw [toList_join_cons, List.append_assoc, List.cons_append, List.cons_append,
            isParameter.scan_append parameters (apart_cons (by decide)), scan_comma, scan_space,
            ih areParameters, List.append_assoc, List.singleton_append]

/-- What a signature shows behind its opening parenthesis is read as its parameters. Nothing of what
follows on the line is lost, and no line is taken from the reader. -/
theorem exists_read_signature (name : String) {parameters : List String}
    (areParameters : ∀ parameter ∈ parameters, IsParameter parameter) :
    ∃ written, signature name parameters = name ++ "(" ++ written ∧
      ∀ (tail : List Char) (reader : Reader),
        read (written.toList ++ tail) reader = .ok (some (parameters, tail), reader) := by
  refine ⟨Text.join ", " parameters ++ ")", by simp [signature, String.append_assoc], ?_⟩
  intro tail reader
  have spelling : (Text.join ", " parameters ++ ")").toList ++ tail =
      (Text.join ", " parameters).toList ++ ')' :: tail := by
    simp
  rw [spelling, read, scan_join areParameters, List.nil_append, Reader.gather]

/-- A signature with parameters of all forms is read back. -/
theorem exists_read_moveInto :
    (∀ parameter ∈ ["dest", "[args]", "...", "greeting??"], IsParameter parameter) ∧
      ∃ written, signature "moveInto" ["dest", "[args]", "...", "greeting??"] =
          "moveInto" ++ "(" ++ written ∧
        ∀ (tail : List Char) (reader : Reader), read (written.toList ++ tail) reader =
          .ok (some (["dest", "[args]", "...", "greeting??"], tail), reader) := by
  have isWord : IsRun "greeting".toList := by decide
  have areParameters :
      ∀ parameter ∈ ["dest", "[args]", "...", "greeting??"], IsParameter parameter := by
    simp only [List.forall_mem_cons]
    exact ⟨.name (by decide), @IsParameter.list "args" (by decide), .ellipsis,
      .optional (.optional (.name isWord)), by simp⟩
  exact ⟨areParameters, exists_read_signature "moveInto" areParameters⟩

end TadsReference.ParameterList
