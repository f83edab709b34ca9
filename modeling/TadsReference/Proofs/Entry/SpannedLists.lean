import TadsReference.Proofs.Entry.ParameterLists
import TadsReference.Proofs.Reader.GatheredLines
import TadsReference.Proofs.Text.SpacedTokens

/-!
# Parameter lists that span lines

A parameter list may go on behind the end of a line, but an opening bracket looks for the two tokens
behind it on its own line. Where no line ends between them, a list is read as if its tokens stood on
one line. Where all brackets hold names, it is read so in no other case, since then a closing
bracket is left over: `read_spread`.
-/

namespace TadsReference.ParameterList

open Identifier (IsRun)

variable {parameters : List String} {token : String} {tokens others : List String}
  {lines : List (List String)} {strays : ℕ}

/-! ### Tokens on lines -/

/-- The tokens that end a list. -/
def closers : List String :=
  [")", "\x7b"]

/-- What the parameters are behind one more token, other than a closer or an opening bracket. -/
def extend (parameters : List String) (token : String) : List String :=
  if token = "," then parameters
  else if token = "?" then markOptional parameters
  else parameters ++ [token]

/-- Reads the parameters among the tokens of several lines, behind those read before. -/
def scanLines (parameters : List String) :
    List (List String) → Progress (List String) (List String)
  | [] => .waiting parameters
  | [] :: lines => scanLines parameters lines
  | (token :: rest) :: lines =>
      if token ∈ closers then .complete parameters
      else if token = "[" then
        scanLines (parameters ++ [bracketed (rest.headD "") (rest.tail.headD "")])
          (rest.tail.tail :: lines)
      else scanLines (extend parameters token) (rest :: lines)
termination_by lines => (lines.flatten.length, lines.length)

theorem scanLines_closer (isCloser : token ∈ closers) :
    scanLines parameters ((token :: tokens) :: lines) = .complete parameters := by
  rw [scanLines, if_pos isCloser]

theorem scanLines_token (other : token ∉ closers) (plain : token ≠ "[") :
    scanLines parameters ((token :: tokens) :: lines) =
      scanLines (extend parameters token) (tokens :: lines) := by
  rw [scanLines, if_neg other, if_neg plain]

/-- Behind an opening bracket the next two tokens of its line are taken, whatever they are, and an
empty text stands for each that the line no longer has. -/
theorem scanLines_bracket (tokens : List String) :
    scanLines parameters (("[" :: tokens) :: lines) =
      scanLines (parameters ++ [bracketed (tokens.headD "") (tokens.tail.headD "")])
        (tokens.tail.tail :: lines) := by
  rw [scanLines, if_neg (by decide), if_pos rfl]

/-- The lines behind a line are scanned only where the scan of that line has come to its end. -/
inductive Reaches (lines : List (List String)) :
    Progress (List String) (List String) → Progress (List String) Result → Prop
  | waiting (parameters : List String) :
      Reaches lines (scanLines parameters lines) (.waiting parameters)
  | complete (parameters : List String) (rest : List Char) :
      Reaches lines (.complete parameters) (.complete (some (parameters, rest)))

/-- The scan of one line is the scan of all lines, as far as the first line carries it. The scan is
followed token by token, so the lines behind come in where the line is at its end, with whatever
parameters it has found by then. -/
theorem scan_reaches (parameters : List String) (line : List Char) (lines : List (List String)) :
    Reaches lines (scanLines parameters (Token.all line :: lines)) (scan parameters line) := by
  fun_induction scan parameters line with
  | case1 parameters line ended =>
      rw [Token.all_of_end ended, scanLines]
      exact .waiting parameters
  | case2 parameters line token rest first closes =>
      have isCloser : token ∈ closers := by simpa [closers] using closes
      rw [Token.all_of_next? first, scanLines_closer isCloser]
      exact .complete parameters rest
  | case3 parameters line token rest first other isComma ih =>
      obtain rfl : token = "," := by simpa using isComma
      rw [Token.all_of_next? first, scanLines_token (by decide) (by decide)]
      exact ih
  | case4 parameters line token rest first other _ isMark ih =>
      obtain rfl : token = "?" := by simpa using isMark
      rw [Token.all_of_next? first, scanLines_token (by decide) (by decide)]
      exact ih
  | case5 parameters line token rest first other _ _ opens inner closing ih =>
      obtain rfl : token = "[" := by simpa using opens
      rw [Token.all_of_next? first, scanLines_bracket, ← Token.all_next_snd, ← Token.all_next_snd,
        ← Token.next_fst, ← Token.next_fst]
      exact ih
  | case6 parameters line token rest first other noComma noMark plain ih =>
      have noCloser : token ∉ closers := by simpa [closers] using other
      have isParameter : extend parameters token = parameters ++ [token] := by
        simp_all [extend]
      rw [Token.all_of_next? first, scanLines_token noCloser (by simpa using plain), isParameter]
      exact ih

/-- A list is complete only behind a closer. The scan has a case for each way to go on, and only the
one for a closer ends it. -/
theorem exists_closer_of_scanLines {found : List String}
    (complete : scanLines parameters lines = .complete found) :
    ∃ token ∈ lines.flatten, token ∈ closers := by
  fun_induction scanLines parameters lines with
  | case1 => contradiction
  | case2 parameters lines ih => simpa using ih complete
  | case3 parameters token rest lines isCloser => exact ⟨token, by simp, isCloser⟩
  | case4 parameters rest lines _ ih =>
      obtain ⟨token, isToken, isCloser⟩ := ih complete
      rw [List.flatten_cons] at isToken ⊢
      rcases List.mem_append.mp isToken with onLine | below
      · have behind := List.mem_of_mem_tail (List.mem_of_mem_tail onLine)
        exact ⟨token, List.mem_append_left _ (List.mem_cons_of_mem _ behind), isCloser⟩
      · exact ⟨token, List.mem_append_right _ below, isCloser⟩
  | case5 parameters token rest lines _ _ ih =>
      obtain ⟨token, isToken, isCloser⟩ := ih complete
      exact ⟨token, List.mem_cons_of_mem _ isToken, isCloser⟩

/-- A scan of one line is a scan of the lines that begin with it, so it completes a list only behind
a closer on its own line. -/
theorem exists_closer_of_scan {line : List Char} {found : Result}
    (complete : scan parameters line = .complete found) :
    ∃ token ∈ Token.all line, token ∈ closers := by
  have reaches := scan_reaches parameters line []
  generalize scanned : scanLines parameters [Token.all line] = progress at reaches
  rw [complete] at reaches
  cases reaches with
  | complete => simpa using exists_closer_of_scanLines scanned

/-! ### Lines that end between brackets -/

/-- A line does not end between an opening bracket and the two tokens behind it. -/
inductive Whole : List String → Prop
  | nil : Whole []
  | token {token : String} {tokens : List String} (plain : token ≠ "[") (rest : Whole tokens) :
      Whole (token :: tokens)
  | brackets {inner closing : String} {tokens : List String} (rest : Whole tokens) :
      Whole ("[" :: inner :: closing :: tokens)

/-- No line but the last one ends between an opening bracket and the two tokens behind it. -/
def Unbroken (lines : List (List String)) : Prop :=
  ∀ tokens ∈ lines.dropLast, Whole tokens

theorem Whole.append (whole : Whole tokens) (wholeOthers : Whole others) :
    Whole (tokens ++ others) := by
  induction whole with
  | nil => exact wholeOthers
  | token plain _ ih => exact .token plain ih
  | brackets _ ih => exact .brackets ih

/-- A token that opens no bracket may be left out in front of a line, since no constructor of
`Whole` but the one for a plain token begins with it. -/
theorem whole_cons_iff (plain : token ≠ "[") : Whole (token :: tokens) ↔ Whole tokens := by
  constructor
  · intro whole
    cases whole with
    | token _ rest => exact rest
    | brackets => contradiction
  · exact .token plain

/-- What stands between the brackets does not matter to whether a line is whole behind them, even if
it is a bracket itself. -/
theorem whole_brackets_iff {inner closing : String} :
    Whole ("[" :: inner :: closing :: tokens) ↔ Whole tokens := by
  constructor
  · intro whole
    cases whole with
    | token plain => contradiction
    | brackets rest => exact rest
  · exact .brackets

theorem not_whole_opening : ¬Whole ["["] := by
  rintro (_ | ⟨plain⟩)
  exact plain rfl

theorem not_whole_inner (inner : String) : ¬Whole ["[", inner] := by
  rintro (_ | ⟨plain⟩)
  exact plain rfl

theorem unbroken_cons_cons : Unbroken (tokens :: others :: lines) ↔
    Whole tokens ∧ Unbroken (others :: lines) := by
  simp [Unbroken, List.dropLast_cons_cons]

theorem unbroken_congr (same : Whole tokens ↔ Whole others) :
    Unbroken (tokens :: lines) ↔ Unbroken (others :: lines) := by
  cases lines with
  | nil => simp [Unbroken]
  | cons next lines => rw [unbroken_cons_cons, unbroken_cons_cons, same]

theorem unbroken_nil_cons : Unbroken ([] :: lines) ↔ Unbroken lines := by
  cases lines with
  | nil => simp [Unbroken]
  | cons next lines => exact unbroken_cons_cons.trans (and_iff_right .nil)

/-- A line that is cut off in front of another token breaks its list, whichever of the lines behind
it that token stands on. -/
theorem not_unbroken_cons (broken : ¬Whole tokens) (behind : lines.flatten = token :: others) :
    ¬Unbroken (tokens :: lines) := by
  cases lines with
  | nil => contradiction
  | cons next lines => exact fun unbroken => broken (unbroken_cons_cons.mp unbroken).1

theorem unbroken_of_closer (isCloser : token ∈ closers) (blank : ∀ line ∈ lines, line = []) :
    Unbroken ([token] :: lines) := by
  intro line isLine
  rcases List.mem_cons.mp (List.dropLast_subset _ isLine) with rfl | isLater
  · exact .token (ne_of_mem_of_not_mem isCloser (by decide)) .nil
  · exact blank line isLater ▸ .nil

/-- Two lines are scanned as one, unless a bracket stands open at the end of the first. -/
theorem Whole.scanLines_append (whole : Whole tokens) (parameters : List String) :
    scanLines parameters (tokens :: others :: lines) =
      scanLines parameters ((tokens ++ others) :: lines) := by
  induction whole generalizing parameters with
  | nil => rw [scanLines, List.nil_append]
  | @token token tokens plain _ ih =>
      by_cases isCloser : token ∈ closers
      · rw [List.cons_append, scanLines_closer isCloser, scanLines_closer isCloser]
      · rw [List.cons_append, scanLines_token isCloser plain, scanLines_token isCloser plain, ih]
  | brackets _ ih =>
      rw [List.cons_append, scanLines_bracket, scanLines_bracket]
      exact ih _

/-- A list without a broken line is scanned as if all its tokens stood on one line. The lines are
joined one by one from the front, and each is whole where the next one is added to it. -/
theorem scanLines_of_unbroken (unbroken : Unbroken lines) (parameters : List String) :
    scanLines parameters lines = scanLines parameters [lines.flatten] := by
  cases lines with
  | nil => simp [scanLines]
  | cons tokens lines =>
      induction lines generalizing tokens with
      | nil => simp
      | cons others lines ih =>
          obtain ⟨whole, unbroken⟩ := unbroken_cons_cons.mp unbroken
          have joined : Unbroken ((tokens ++ others) :: lines) := by
            cases lines with
            | nil => simp [Unbroken]
            | cons next lines =>
                obtain ⟨wholeOthers, unbroken⟩ := unbroken_cons_cons.mp unbroken
                exact unbroken_cons_cons.mpr ⟨whole.append wholeOthers, unbroken⟩
          rw [whole.scanLines_append, ih _ joined, List.flatten_cons, List.flatten_cons,
            List.flatten_cons, List.append_assoc]

/-! ### Closing brackets that are left over -/

/-- A closing bracket has become a parameter, or the front of one. -/
def KeepsClosing (parameters : List String) : Prop :=
  ∃ parameter ∈ parameters, parameter.toList.head? = some ']'

theorem keepsClosing_concat (parameters : List String) (parameter : String) :
    KeepsClosing (parameters ++ [parameter]) ↔
      KeepsClosing parameters ∨ parameter.toList.head? = some ']' := by
  simp [KeepsClosing, or_and_right, exists_or]

/-- What marks a parameter as optional is added at its end, so it does not touch the front of any
parameter. -/
theorem keepsClosing_markOptional :
    KeepsClosing (markOptional parameters) ↔ KeepsClosing parameters := by
  rcases List.eq_nil_or_concat parameters with rfl | ⟨front, last, rfl⟩
  · simp [markOptional, KeepsClosing]
  · have marked : markOptional (front ++ [last]) = front ++ [last ++ "?"] := by
      simp [markOptional]
    have sameHead : (last ++ "?").toList.head? = some ']' ↔ last.toList.head? = some ']' := by
      cases shape : last.toList <;> simp [shape]
    rw [List.concat_eq_append, marked, keepsClosing_concat, keepsClosing_concat, sameHead]

/-- A token without a closing bracket leaves the parameters as they were in this respect. It is
added as it is, or not at all, or marks the last parameter as optional. -/
theorem keepsClosing_extend (noClosing : ']' ∉ token.toList) :
    KeepsClosing (extend parameters token) ↔ KeepsClosing parameters := by
  have otherHead : token.toList.head? ≠ some ']' :=
    fun isHead => noClosing (List.mem_of_head? isHead)
  unfold extend
  split_ifs
  · rfl
  · exact keepsClosing_markOptional
  · simp [keepsClosing_concat, otherHead]

/-- Tokens close a list whose brackets hold names. So many closing brackets stand alone in it. -/
inductive Bracketed : ℕ → List String → Prop
  | closer {token : String} (isCloser : token ∈ closers) : Bracketed 0 [token]
  | token {strays : ℕ} {token : String} {tokens : List String} (other : token ∉ closers)
      (plain : token ≠ "[") (noClosing : ']' ∉ token.toList) (rest : Bracketed strays tokens) :
      Bracketed strays (token :: tokens)
  | stray {strays : ℕ} {tokens : List String} (rest : Bracketed strays tokens) :
      Bracketed (strays + 1) ("]" :: tokens)
  | list {strays : ℕ} {word : String} {tokens : List String} (isRun : IsRun word.toList)
      (rest : Bracketed strays tokens) : Bracketed strays ("[" :: word :: "]" :: tokens)

/-- A name is a token without a meaning of its own. -/
theorem Bracketed.name {word : String} (isRun : IsRun word.toList)
    (rest : Bracketed strays tokens) :
    Bracketed strays (word :: tokens) := by
  have noClosing : ']' ∉ word.toList := by
    intro isPart
    have isIdentifier := isRun.2 ']' isPart
    contradiction
  exact .token (isRun.not_mem (by decide)) (isRun.ne ⟨'[', by decide, by decide⟩) noClosing rest

/-- A list whose brackets hold names is complete at its closer, on whatever lines it stands. A
closing bracket is kept if there was one already, if one stands alone, or if a line ends between
brackets. The induction goes token by token, since the lines need not end where a constructor of
`Bracketed` does. If a line ends between two brackets, the closing one stands alone on a later
line. -/
theorem Bracketed.exists_scanLines (bracketed : Bracketed strays lines.flatten)
    (parameters : List String) : ∃ found, scanLines parameters lines = .complete found ∧
      (KeepsClosing found ↔ KeepsClosing parameters ∨ 0 < strays ∨ ¬Unbroken lines) := by
  generalize shape : lines.flatten = tokens at bracketed
  fun_induction scanLines parameters lines generalizing strays tokens with
  | case1 =>
      subst shape
      contradiction
  | case2 parameters lines ih =>
      rw [unbroken_nil_cons]
      exact ih tokens shape bracketed
  | case3 parameters token rest lines isCloser =>
      cases bracketed with
      | @closer last =>
          obtain ⟨rfl, rfl, blank⟩ : token = last ∧ rest = [] ∧ ∀ tokens ∈ lines, tokens = [] := by
            simpa using shape
          exact ⟨parameters, rfl, by simp [unbroken_of_closer isCloser blank]⟩
      | token other => simp_all
      | stray => simp_all [closers]
      | list => simp_all [closers]
  | case4 parameters rest lines _ ih =>
      cases bracketed with
      | closer isCloser => simp_all
      | token other plain => simp_all
      | stray => simp_all
      | @list strays word tokens isRun others =>
          rcases rest with _ | ⟨inner, _ | ⟨closing, rest⟩⟩
          · have behind : lines.flatten = word :: "]" :: tokens := by simpa using shape
            obtain ⟨found, complete, keeps⟩ := ih _ behind (.name isRun (.stray others))
            have broken := not_unbroken_cons not_whole_opening behind
            exact ⟨found, complete, by simp [keeps, broken]⟩
          · obtain ⟨rfl, behind⟩ : inner = word ∧ lines.flatten = "]" :: tokens := by
              simpa using shape
            obtain ⟨found, complete, keeps⟩ := ih _ behind (.stray others)
            have broken := not_unbroken_cons (not_whole_inner inner) behind
            exact ⟨found, complete, by simp [keeps, broken]⟩
          · obtain ⟨rfl, rfl, behind⟩ :
                inner = word ∧ closing = "]" ∧ rest ++ lines.flatten = tokens := by
              simpa using shape
            obtain ⟨found, complete, keeps⟩ := ih _ behind others
            have listKeeps : KeepsClosing (parameters ++ ["[" ++ inner ++ "]"]) ↔
                KeepsClosing parameters := by
              simp [keepsClosing_concat]
            have sameLines : Unbroken (("[" :: inner :: "]" :: rest) :: lines) ↔
                Unbroken (rest :: lines) := unbroken_congr whole_brackets_iff
            refine ⟨found, complete, ?_⟩
            rw [sameLines, ← listKeeps]
            exact keeps
  | case5 parameters token rest lines noCloser plain ih =>
      cases bracketed with
      | closer isCloser => simp_all
      | @token _ head tokens other plain noClosing others =>
          obtain ⟨rfl, behind⟩ : token = head ∧ rest ++ lines.flatten = tokens := by
            simpa using shape
          obtain ⟨found, complete, keeps⟩ := ih _ behind others
          have sameLines : Unbroken ((token :: rest) :: lines) ↔ Unbroken (rest :: lines) :=
            unbroken_congr (whole_cons_iff plain)
          refine ⟨found, complete, ?_⟩
          rw [sameLines, keeps, keepsClosing_extend noClosing]
      | @stray strays tokens others =>
          obtain ⟨rfl, behind⟩ : token = "]" ∧ rest ++ lines.flatten = tokens := by
            simpa using shape
          obtain ⟨found, complete, keeps⟩ := ih _ behind others
          have kept : KeepsClosing (extend parameters "]") := by
            simp [extend, keepsClosing_concat]
          exact ⟨found, complete, by simp [keeps, kept]⟩
      | list => simp_all

/-! ### Lists over the lines of a reader -/

/-- The parameters of a list and the reader behind it, without what is left of the closing line. -/
def listed (found : Result × Reader) : Option (List String) × Reader :=
  (found.1.map (·.1), found.2)

/-- What is read of a list behind the lines that have been scanned. -/
def goesOn (later : Reader) : Progress (List String) (List String) →
    Except Failure (Option (List String) × Reader)
  | .waiting parameters => (later.gather continueOn (.waiting parameters)).map listed
  | .complete parameters => .ok (some parameters, later)

/-- Gathering a list over the lines of a reader is scanning those lines at once, and what it finds
goes on with the reader behind them. None but the last line has a closer, so each of the others is
taken in full. -/
theorem gather_of_reads {first : List Char} {reader later : Reader} {texts : List SourceLine}
    (reads : reader.Reads texts later) (filled : ∀ line ∈ texts, Token.all line.text ≠ [])
    (isOpen : ∀ line ∈ (first :: texts.map (·.text)).dropLast,
      ∀ token ∈ Token.all line, token ∉ closers)
    (parameters : List String) :
    (reader.gather continueOn (scan parameters first)).map listed =
      goesOn later (scanLines parameters ((first :: texts.map (·.text)).map Token.all)) := by
  induction reads generalizing first parameters with
  | nothing =>
      have reaches := scan_reaches parameters first []
      simp only [List.map_nil, List.map_cons]
      generalize scanLines parameters [Token.all first] = shown at reaches ⊢
      generalize scan parameters first = progress at reaches ⊢
      cases reaches with
      | waiting parameters => rw [scanLines, goesOn]
      | complete parameters rest => rw [Reader.gather]; rfl
  | @line reader behind later line texts next rest ih =>
      obtain ⟨filledFirst, filled⟩ := List.forall_mem_cons.mp filled
      rw [List.map_cons, List.dropLast_cons_cons, List.forall_mem_cons] at isOpen
      obtain ⟨firstOpen, isOpen⟩ := isOpen
      have reaches :=
        scan_reaches parameters first ((line.text :: texts.map (·.text)).map Token.all)
      have visible : Text.isBlankText line.text = false :=
        Bool.eq_false_iff.mpr fun blank =>
          filledFirst (Token.all_of_blank (List.all_eq_true.mp blank))
      rw [List.map_cons, List.map_cons]
      generalize scanLines parameters _ = shown at reaches ⊢
      generalize scanned : scan parameters first = progress at reaches ⊢
      cases reaches with
      | waiting parameters =>
          rw [Reader.gather_of_requireLine (Reader.requireLine_of_nextLine next), continueOn,
            visible]
          exact ih filled isOpen parameters
      | complete parameters rest =>
          obtain ⟨token, isToken, isCloser⟩ := exists_closer_of_scan scanned
          exact absurd isCloser (firstOpen token isToken)

/-- On one line, the parameters are those of all tokens. -/
theorem read_of_spaced {line : List Char} (spaced : Token.Spaced tokens line) (later : Reader) :
    (read line later).map listed = goesOn later (scanLines [] [tokens]) := by
  have onLine : (read line later).map listed = goesOn later (scanLines [] [Token.all line]) :=
    gather_of_reads .nothing (by simp) (by simp) []
  rwa [Token.all_of_spaced spaced] at onLine

/-- If brackets hold names, a list that is read as on one line is unbroken. -/
theorem Bracketed.unbroken_of_goesOn_eq (bracketed : Bracketed 0 lines.flatten) {later : Reader}
    (same : goesOn later (scanLines [] lines) = goesOn later (scanLines [] [lines.flatten])) :
    Unbroken lines := by
  have bracketedLine : Bracketed 0 [lines.flatten].flatten := by simpa using bracketed
  obtain ⟨found, complete, keeps⟩ := bracketed.exists_scanLines []
  obtain ⟨foundOnLine, completeOnLine, keepsOnLine⟩ := bracketedLine.exists_scanLines []
  have keepsNone : ¬KeepsClosing foundOnLine := by
    rw [keepsOnLine]
    simp [KeepsClosing, Unbroken]
  rw [complete, completeOnLine, goesOn, goesOn] at same
  obtain rfl : found = foundOnLine := by simpa using same
  by_contra broken
  exact keepsNone (keeps.mpr (.inr (.inr broken)))

/-- If no token but the last one is a closer, none stands in front of the last line. The last line
is not empty, so the last token of all stands on it. -/
theorem not_mem_closers_of_dropLast {body : List String} {last : String}
    (noOthers : ∀ token ∈ body, token ∉ closers) (filled : ∀ tokens ∈ lines.tail, tokens ≠ [])
    (shape : lines.flatten = body ++ [last]) :
    ∀ tokens ∈ lines.dropLast, ∀ token ∈ tokens, token ∉ closers := by
  intro tokens isLine token isToken
  rcases List.eq_nil_or_concat' lines with rfl | ⟨front, lastLine, rfl⟩
  · contradiction
  · rw [List.dropLast_concat] at isLine
    have filledLast : lastLine ≠ [] := by
      cases front with
      | nil => contradiction
      | cons => exact filled lastLine (by simp)
    obtain ⟨others, ending, rfl⟩ := (List.eq_nil_or_concat' lastLine).resolve_left filledLast
    have sameBody : front.flatten ++ others = body := by
      have behind : (front.flatten ++ others) ++ [ending] = body ++ [last] := by
        simpa using shape
      exact (List.append_inj' behind rfl).1
    apply noOthers
    rw [← sameBody]
    exact List.mem_append_left _ (List.mem_flatten.mpr ⟨tokens, isLine, isToken⟩)

section

variable {first oneLine : List Char} {reader later : Reader} {texts : List SourceLine}
  {chunks : List (List String)} {body : List String} {last : String}

/-- A list with one closer at the end of its last line is read from all its lines, with any blanks
between the tokens. Such lines have just the tokens that are written, which is all that the reading
of a list depends on. -/
theorem read_of_spread (noOthers : ∀ token ∈ body, token ∉ closers)
    (shape : (tokens :: chunks).flatten = body ++ [last]) (filled : ∀ chunk ∈ chunks, chunk ≠ [])
    (reads : reader.Reads texts later)
    (spread : List.Forall₂ Token.Spaced (tokens :: chunks) (first :: texts.map (·.text))) :
    (read first reader).map listed = goesOn later (scanLines [] (tokens :: chunks)) := by
  have shown : (first :: texts.map (·.text)).map Token.all = tokens :: chunks :=
    Token.map_all_of_spaced spread
  have isOpen : ∀ chunk ∈ (tokens :: chunks).dropLast, ∀ token ∈ chunk, token ∉ closers :=
    not_mem_closers_of_dropLast noOthers filled shape
  rw [← shown]
  apply gather_of_reads reads
  · intro line isLine
    apply filled
    rw [← (List.cons.inj shown).2]
    exact List.mem_map_of_mem (List.mem_map_of_mem isLine)
  · intro line isLine
    apply isOpen
    rw [← shown, ← List.map_dropLast]
    exact List.mem_map_of_mem isLine

/-- A list whose tokens stand on several lines, with blanks between them and none but the last a
closer, is read as if they stood on one line, so long as no line ends between an opening bracket and
the two tokens behind it. If all brackets hold names, it is read so in no other case. Where all
brackets hold names the condition is needed as well, since a closing bracket that stands alone is
kept as a parameter. -/
theorem read_spread (noOthers : ∀ token ∈ body, token ∉ closers)
    (shape : (tokens :: chunks).flatten = body ++ [last]) (filled : ∀ chunk ∈ chunks, chunk ≠ [])
    (reads : reader.Reads texts later)
    (spread : List.Forall₂ Token.Spaced (tokens :: chunks) (first :: texts.map (·.text)))
    (together : Token.Spaced (body ++ [last]) oneLine) :
    (Unbroken (tokens :: chunks) →
      (read first reader).map listed = (read oneLine later).map listed) ∧
    (Bracketed 0 (body ++ [last]) →
      ((read first reader).map listed = (read oneLine later).map listed ↔
        Unbroken (tokens :: chunks))) := by
  have onOneLine : (read oneLine later).map listed =
      goesOn later (scanLines [] [(tokens :: chunks).flatten]) := by
    rw [shape]
    exact read_of_spaced together later
  rw [read_of_spread noOthers shape filled reads spread, onOneLine]
  have alike (unbroken : Unbroken (tokens :: chunks)) :
      goesOn later (scanLines [] (tokens :: chunks)) =
        goesOn later (scanLines [] [(tokens :: chunks).flatten]) := by
    rw [scanLines_of_unbroken unbroken]
  refine ⟨alike, fun bracketed => ⟨?_, alike⟩⟩
  rw [← shape] at bracketed
  exact bracketed.unbroken_of_goesOn_eq

end

/-! ### A line break behind a comma and behind a bracket -/

/-- The tokens of the list of `describe(pov, [lst])`. -/
def describeTokens : List String :=
  ["pov", ",", "[", "lst", "]", ")"]

/-- The tokens of a part of this list are those that are written, since there is a blank between any
two of them. -/
theorem spaced_of_sublist (sublist : tokens.Sublist describeTokens) :
    Token.Spaced tokens (Text.join " " tokens).toList := by
  have areTokens : ∀ token ∈ describeTokens, Token.IsToken token := by
    simp only [describeTokens, List.forall_mem_cons]
    exact ⟨rfl, rfl, rfl, rfl, rfl, rfl, nofun⟩
  exact Token.spaced_join fun token isPart => areTokens token (sublist.subset isPart)

/-- A reader in front of the last line of a list. -/
def lastLineReader (line : String) : Reader :=
  .ofContent "lists.t" line.toUTF8.toList none none

/-- A line break behind a comma cuts no bracket off, so the parameter in brackets on the next line
is read as on one line. -/
theorem read_spread_behind_comma : ∃ later,
    (lastLineReader "[ lst ] )").Reads [⟨1, "[ lst ] )".toList, none⟩] later ∧
      Unbroken [["pov", ","], ["[", "lst", "]", ")"]] ∧
        Bracketed 0 ["pov", ",", "[", "lst", "]", ")"] ∧
          (read "pov ,".toList (lastLineReader "[ lst ] )")).map listed =
            (read "pov , [ lst ] )".toList later).map listed := by
  have reads : ∃ later, (lastLineReader "[ lst ] )").Reads [⟨1, "[ lst ] )".toList, none⟩] later :=
    ⟨_, .line (Prod.ext (by decide +kernel) rfl) .nothing⟩
  obtain ⟨later, reads⟩ := reads
  have unbroken : Unbroken [["pov", ","], ["[", "lst", "]", ")"]] := by
    simp only [Unbroken, List.dropLast_cons_cons, List.dropLast_singleton,
      List.forall_mem_singleton]
    exact .token (by decide) (.token (by decide) .nil)
  have isWord : IsRun "lst".toList := by decide
  have bracketed : Bracketed 0 (["pov", ",", "[", "lst", "]"] ++ [")"]) :=
    .token (by decide) (by decide) (by decide) (.token (by decide) (by decide) (by decide)
      (.list isWord (.closer (by decide))))
  have spread : List.Forall₂ Token.Spaced [["pov", ","], ["[", "lst", "]", ")"]]
      ["pov ,".toList, "[ lst ] )".toList] :=
    .cons (spaced_of_sublist (by decide)) (.cons (spaced_of_sublist (by decide)) .nil)
  have together : Token.Spaced (["pov", ",", "[", "lst", "]"] ++ [")"]) "pov , [ lst ] )".toList :=
    spaced_of_sublist (by decide)
  have alike := (read_spread (by decide) rfl (by decide) reads spread together).2 bracketed
  exact ⟨later, reads, unbroken, bracketed, alike.mpr unbroken⟩

/-- A bracket at the end of a line is cut off from the name behind it. Two empty parameters take the
place of the two tokens, and the name on the next line becomes a parameter without brackets. -/
theorem not_read_spread_behind_bracket : ∃ later,
    (lastLineReader "lst ] )").Reads [⟨1, "lst ] )".toList, none⟩] later ∧
      (read "pov , [".toList (lastLineReader "lst ] )")).map listed =
          .ok (some ["pov", "", "lst", "]"], later) ∧
        (read "pov , [ lst ] )".toList later).map listed = .ok (some ["pov", "[lst]"], later) := by
  have reads : ∃ later, (lastLineReader "lst ] )").Reads [⟨1, "lst ] )".toList, none⟩] later :=
    ⟨_, .line (Prod.ext (by decide +kernel) rfl) .nothing⟩
  obtain ⟨later, reads⟩ := reads
  have spread : List.Forall₂ Token.Spaced [["pov", ",", "["], ["lst", "]", ")"]]
      ["pov , [".toList, "lst ] )".toList] :=
    .cons (spaced_of_sublist (by decide)) (.cons (spaced_of_sublist (by decide)) .nil)
  have together : Token.Spaced (["pov", ",", "[", "lst", "]"] ++ [")"]) "pov , [ lst ] )".toList :=
    spaced_of_sublist (by decide)
  have shape : [["pov", ",", "["], ["lst", "]", ")"]].flatten =
      ["pov", ",", "[", "lst", "]"] ++ [")"] := rfl
  refine ⟨later, reads, ?_, ?_⟩
  · rw [read_of_spread (by decide) shape (by decide) reads spread]
    simp [scanLines, closers, extend, bracketed, goesOn]
  · rw [read_of_spaced together]
    simp [scanLines, closers, extend, bracketed, goesOn]

end TadsReference.ParameterList
