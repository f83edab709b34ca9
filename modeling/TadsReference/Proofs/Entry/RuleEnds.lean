import Mathlib.Order.Bounds.Basic
import TadsReference.Proofs.Reader.GatheredLines
import TadsReference.Proofs.Reader.LookAhead

/-!
# Where grammar rules end

The lines of a rule are scanned one by one, and only an open quote is remembered from one line to
the next. Yet the scan finds the same colon as one that goes through the lines joined by line feeds,
since a backslash at the end of a line takes the meaning from nothing but the line feed. What stands
before that colon is the rule, and the bases stand behind it on its line: `ofBody_of_grammarRule`.
-/

namespace TadsReference

namespace GrammarRule

open Reader (Lines)

/-- What counts for the next character of a rule: the quote that is open, and whether a backslash
stands right before the character. -/
structure Quoting where
  quote : Option Char
  escaped : Bool
deriving DecidableEq

namespace Quoting

/-- Outside quotes and not behind a backslash. -/
def plain : Quoting :=
  ⟨none, false⟩

/-- A backslash takes the meaning from the next character. Of the other characters, either quotation
mark opens a quote if none is open, and closes one that the same mark has opened. -/
def next (quoting : Quoting) (character : Char) : Quoting :=
  if quoting.escaped then { quoting with escaped := false }
  else if character = '\\' then { quoting with escaped := true }
  else if character ≠ '\'' ∧ character ≠ '"' then quoting
  else if quoting.quote = none then { quoting with quote := some character }
  else if quoting.quote = some character then { quoting with quote := none }
  else quoting

/-- What counts behind a text. -/
def behind (quoting : Quoting) (text : List Char) : Quoting :=
  text.foldl next quoting

end Quoting

/-- A colon stands at a place of a text, outside quotes and not behind a backslash. -/
def FreeColon (quoting : Quoting) (text : List Char) (place : ℕ) : Prop :=
  text[place]? = some ':' ∧ quoting.behind (text.take place) = .plain

/-- Whether a colon is free can be checked at every place of a text. -/
instance (quoting : Quoting) (text : List Char) (place : ℕ) :
    Decidable (FreeColon quoting text place) :=
  inferInstanceAs (Decidable (_ ∧ _))

/-- The lines of a text that are not blank, without the blanks at their ends. -/
def filledLines (text : List Char) : List (List Char) :=
  ((text.splitOn '\n').filter (!Text.isBlankText ·)).map Text.trimEnd

/-- A text without blank lines, and without the blanks at the ends of its lines and around it. -/
def tidied (text : List Char) : String :=
  String.ofList (Text.trim (['\n'].intercalate (filledLines text)))

variable {quoting : Quoting} {quote : Option Char} {text left right before after first : List Char}
  {place : ℕ}

/-! ### The first free colon -/

/-- What stands before and behind the first free colon of a text. -/
def firstColon? (quoting : Quoting) : List Char → Option (List Char × List Char)
  | [] => none
  | character :: rest =>
      if character = ':' ∧ quoting = .plain then some ([], rest)
      else
        (firstColon? (quoting.next character) rest).map fun found =>
          (character :: found.1, found.2)

theorem freeColon_zero {character : Char} :
    FreeColon quoting (character :: text) 0 ↔ character = ':' ∧ quoting = .plain := by
  simp [FreeColon, Quoting.behind]

theorem freeColon_succ {character : Char} :
    FreeColon quoting (character :: text) (place + 1) ↔
      FreeColon (quoting.next character) text place := by
  simp [FreeColon, Quoting.behind]

/-- The search stops at the first place at which a colon is free. The induction goes along the text,
with the quote that is open at each of its places. -/
theorem firstColon?_of_isLeast (isFirst : IsLeast {place | FreeColon quoting text place} place) :
    firstColon? quoting text = some (text.take place, text.drop (place + 1)) := by
  induction text generalizing quoting place with
  | nil =>
      have free : FreeColon quoting [] place := isFirst.1
      simp [FreeColon] at free
  | cons character rest ih =>
      cases place with
      | zero => simp [firstColon?, freeColon_zero.mp isFirst.1]
      | succ place =>
          have notHere : ¬(character = ':' ∧ quoting = .plain) := fun here =>
            absurd (isFirst.2 (freeColon_zero.mpr here)) (by simp)
          have isFirstBehind :
              IsLeast {place | FreeColon (quoting.next character) rest place} place :=
            ⟨freeColon_succ.mp isFirst.1, fun other free =>
              Nat.le_of_succ_le_succ (isFirst.2 (freeColon_succ.mpr free))⟩
          rw [firstColon?, if_neg notHere, ih isFirstBehind]
          simp

theorem firstColon?_eq_none (none : ∀ place, ¬FreeColon quoting text place) :
    firstColon? quoting text = .none := by
  induction text generalizing quoting with
  | nil => rfl
  | cons character rest ih =>
      have noneBehind := ih fun place free => none (place + 1) (freeColon_succ.mpr free)
      rw [firstColon?, if_neg (mt freeColon_zero.mpr (none 0)), noneBehind]
      rfl

/-- What stands behind the first free colon does not matter to it. -/
theorem firstColon?_append_of_some (found : firstColon? quoting left = some (before, after))
    (right : List Char) :
    firstColon? quoting (left ++ right) = some (before, after ++ right) := by
  induction left generalizing quoting before with
  | nil => contradiction
  | cons character left ih =>
      simp only [firstColon?, List.cons_append] at found ⊢
      split_ifs at found ⊢ with here
      · cases found
        rfl
      · obtain ⟨⟨inner, _⟩, foundBehind, shape⟩ := Option.map_eq_some_iff.mp found
        cases shape
        rw [ih foundBehind]
        rfl

/-- Behind a text without a free colon the search goes on with the quote that is open there. -/
theorem firstColon?_append_of_none (none : firstColon? quoting left = .none) (right : List Char) :
    firstColon? quoting (left ++ right) =
      (firstColon? (quoting.behind left) right).map fun found => (left ++ found.1, found.2) := by
  induction left generalizing quoting with
  | nil => simp [Quoting.behind]
  | cons character left ih =>
      simp only [firstColon?] at none
      split_ifs at none with here
      have noneBehind : firstColon? (quoting.next character) left = .none :=
        Option.map_eq_none_iff.mp none
      rw [List.cons_append, firstColon?, if_neg here, ih noneBehind, Option.map_map]
      rfl

/-- A line feed ends no quote and takes the meaning from a backslash. -/
theorem firstColon?_lineFeed (right : List Char) :
    firstColon? quoting ('\n' :: right) =
      (firstColon? ⟨quoting.quote, false⟩ right).map fun found => ('\n' :: found.1, found.2) := by
  have next : quoting.next '\n' = ⟨quoting.quote, false⟩ := by
    rcases quoting with ⟨quote, _ | _⟩ <;> simp [Quoting.next]
  rw [firstColon?, if_neg (by simp), next]

/-! ### Scans of lines -/

/-- What is found on a line: the rule ends at the first free colon, or goes on with the quote that
is open behind the line. -/
def Scan.ofColon (quoting : Quoting) (line : List Char) : Scan :=
  match firstColon? quoting line with
  | some (before, after) => .ends before after
  | none => .continues (quoting.behind line).quote

theorem Scan.ofColon_cons {character : Char} (notHere : ¬(character = ':' ∧ quoting = .plain))
    (rest : List Char) :
    ofColon quoting (character :: rest) =
      (ofColon (quoting.next character) rest).prepend [character] := by
  rw [ofColon, firstColon?, if_neg notHere, ofColon]
  cases firstColon? (quoting.next character) rest with
  | none => rfl
  | some found => rfl

theorem Scan.prepend_prepend (front text : List Char) (scanned : Scan) :
    (scanned.prepend text).prepend front = scanned.prepend (front ++ text) := by
  cases scanned <;> simp [prepend]

theorem next_mark {mark : Char} (isMark : mark = '\'' ∨ mark = '"') (quote : Option Char) :
    Quoting.next ⟨quote, false⟩ mark = ⟨toggle quote mark, false⟩ := by
  have noBackslash : mark ≠ '\\' := by
    rcases isMark with rfl | rfl <;> decide
  have counts : ¬(mark ≠ '\'' ∧ mark ≠ '"') := by
    rcases isMark with rfl | rfl <;> decide
  rw [Quoting.next, if_neg (by simp), if_neg noBackslash, if_neg counts]
  cases quote with
  | none => rfl
  | some opening => by_cases same : opening = mark <;> simp [toggle, same]

/-- The scan of a line looks for its first free colon and remembers the quote that is open behind
it. Pairs of a backslash and a character are passed as one, and so are quotation marks, so the proof
follows the scan. -/
theorem scan_eq (quote : Option Char) (line : List Char) :
    scan quote line = .ofColon ⟨quote, false⟩ line := by
  fun_induction scan quote line with
  | case1 quote => rfl
  | case2 quote => rfl
  | case3 quote escaped rest ih =>
      have backslash : Quoting.next ⟨quote, false⟩ '\\' = ⟨quote, true⟩ := rfl
      have behind : Quoting.next ⟨quote, true⟩ escaped = ⟨quote, false⟩ := rfl
      rw [Scan.ofColon_cons (by simp), backslash, Scan.ofColon_cons (by simp [Quoting.plain]),
        behind, Scan.prepend_prepend, ih]
      rfl
  | case4 quote character rest _ _ ends =>
      obtain ⟨rfl, rfl⟩ : character = ':' ∧ quote = none := by simpa using ends
      rfl
  | case5 quote character rest _ _ notEnd isMark ih =>
      have notHere : ¬(character = ':' ∧ Quoting.mk quote false = .plain) := by
        simpa [Quoting.plain] using notEnd
      rw [Scan.ofColon_cons notHere, next_mark (by simpa using isMark), ih]
  | case6 quote character rest notLast notEscaping notEnd noMark ih =>
      have notHere : ¬(character = ':' ∧ Quoting.mk quote false = .plain) := by
        simpa [Quoting.plain] using notEnd
      have noBackslash : character ≠ '\\' := by
        rintro rfl
        cases rest with
        | nil => exact notLast rfl rfl
        | cons escaped rest => exact notEscaping escaped rest rfl rfl
      have same : Quoting.next ⟨quote, false⟩ character = ⟨quote, false⟩ := by
        simp_all [Quoting.next]
      rw [Scan.ofColon_cons notHere, same, ih]

/-! ### Rules over the lines of a reader -/

variable {reader last behind : Reader} {lines : List SourceLine} {cause : Failure}

theorem filledLines_line (noFeed : '\n' ∉ text) (pieces : List (List Char)) :
    pieces ++ filledLines text = addPiece pieces text := by
  have whole : text.splitOn '\n' = [text] := List.splitOn_eq_singleton noFeed
  rw [filledLines, whole, addPiece]
  cases blank : Text.isBlankText text <;> simp [blank]

theorem filledLines_append (noFeed : '\n' ∉ first) (pieces : List (List Char)) (text : List Char) :
    pieces ++ filledLines (first ++ '\n' :: text) = addPiece pieces first ++ filledLines text := by
  rw [← filledLines_line noFeed, List.append_assoc, filledLines, List.splitOn_append_cons_self,
    List.filter_append, List.map_append]
  rfl

/-- The colon itself stands between what is before it and what is behind it. -/
theorem eq_append_of_firstColon? (found : firstColon? quoting text = some (before, after)) :
    text = before ++ ':' :: after := by
  induction text generalizing quoting before with
  | nil => contradiction
  | cons character text ih =>
      simp only [firstColon?] at found
      split_ifs at found with here
      · cases found
        rw [here.1, List.nil_append]
      · obtain ⟨⟨inner, _⟩, foundBehind, shape⟩ := Option.map_eq_some_iff.mp found
        cases shape
        rw [ih foundBehind, List.cons_append]

/-- The line on which the first free colon stands completes the rule. -/
theorem continueOn_of_firstColon (noFeed : '\n' ∉ first)
    (found : firstColon? ⟨quote, false⟩ first = some (before, after)) (pieces : List (List Char)) :
    continueOn ⟨pieces, quote⟩ first = .complete (pieces ++ filledLines before, after) := by
  have shape := eq_append_of_firstColon? found
  have noFeedBefore : '\n' ∉ before := fun isPart => noFeed (by simp [shape, isPart])
  rw [continueOn, scan_eq, Scan.ofColon, found, filledLines_line noFeedBefore]

theorem continueOn_of_noColon (none : firstColon? ⟨quote, false⟩ first = .none)
    (pieces : List (List Char)) :
    continueOn ⟨pieces, quote⟩ first =
      .waiting ⟨addPiece pieces first, (Quoting.behind ⟨quote, false⟩ first).quote⟩ := by
  rw [continueOn, scan_eq, Scan.ofColon, none]

/-- Behind a line without a free colon, the scan of the joined lines goes on as that of the next
line. -/
theorem firstColon?_lines (none : firstColon? ⟨quote, false⟩ first = .none)
    (second : List Char) (texts : List (List Char)) :
    firstColon? ⟨quote, false⟩ (['\n'].intercalate (first :: second :: texts)) =
      (firstColon? ⟨(Quoting.behind ⟨quote, false⟩ first).quote, false⟩
        (['\n'].intercalate (second :: texts))).map
          fun found => (first ++ '\n' :: found.1, found.2) := by
  rw [List.intercalate_cons_cons, List.append_assoc, List.singleton_append,
    firstColon?_append_of_none none, firstColon?_lineFeed, Option.map_map]
  rfl

/-- The rule ends on a line with a free colon, and so do its bases. -/
theorem gather_of_onLine (noFeed : '\n' ∉ first)
    (onLine : firstColon? ⟨quote, false⟩ first = some (before, after)) (rest : List Char)
    (apart : ∀ character ∈ rest.head?, character = '\n') (pieces : List (List Char))
    (reader : Reader) :
    before.count '\n' = 0 ∧
      reader.gather continueOn (continueOn ⟨pieces, quote⟩ first) =
        .ok ((pieces ++ filledLines before, (after ++ rest).takeWhile (· != '\n')), reader) := by
  have shape := eq_append_of_firstColon? onLine
  have noFeedBefore : '\n' ∉ before := fun isPart => noFeed (by simp [shape, isPart])
  have noFeedAfter : ∀ character ∈ after, (character != '\n') = true := by
    intro character isPart
    rw [bne_iff_ne]
    rintro rfl
    exact noFeed (by simp [shape, isPart])
  have ends : rest.takeWhile (· != '\n') = [] := by
    cases rest with
    | nil => rfl
    | cons character rest => simp [apart character rfl]
  refine ⟨List.count_eq_zero.mpr noFeedBefore, ?_⟩
  rw [continueOn_of_firstColon noFeed onLine, Reader.gather,
    List.takeWhile_append_of_pos noFeedAfter, ends, List.append_nil]

/-- The rule is complete with the line on which the first free colon of the joined lines stands. The
lines in front of it are taken in full, since none of them has a free colon, and no line behind it
is taken. -/
theorem gather_of_firstColon (reads : reader.Reads lines last)
    (noFeeds : ∀ text ∈ first :: lines.map (·.text), '\n' ∉ text)
    (found : firstColon? ⟨quote, false⟩ (['\n'].intercalate (first :: lines.map (·.text))) =
      some (before, after)) (pieces : List (List Char)) :
    ∃ taken others later, lines = taken ++ others ∧ reader.Reads taken later ∧
      later.Reads others last ∧ before.count '\n' = taken.length ∧
        reader.gather continueOn (continueOn ⟨pieces, quote⟩ first) =
          .ok ((pieces ++ filledLines before, after.takeWhile (· != '\n')), later) := by
  induction reads generalizing first quote before pieces with
  | @nothing reader =>
      rw [List.map_nil, List.intercalate_singleton] at found
      have here := gather_of_onLine (List.forall_mem_cons.mp noFeeds).1 found
        [] nofun pieces reader
      rw [List.append_nil] at here
      exact ⟨[], [], reader, rfl, .nothing, .nothing, here⟩
  | @line reader behind later line lines next rest ih =>
      obtain ⟨noFeed, noFeedsBehind⟩ := List.forall_mem_cons.mp noFeeds
      cases onLine : firstColon? ⟨quote, false⟩ first with
      | some parts =>
          rw [List.map_cons, List.intercalate_cons_cons, List.append_assoc,
            firstColon?_append_of_some onLine] at found
          cases found
          exact ⟨[], line :: lines, reader, rfl, .nothing, .line next rest,
            gather_of_onLine noFeed onLine _ (by simp) pieces reader⟩
      | none =>
          rw [List.map_cons, firstColon?_lines onLine] at found
          obtain ⟨⟨inner, _⟩, foundBehind, shape⟩ := Option.map_eq_some_iff.mp found
          cases shape
          obtain ⟨taken, others, last, rfl, reads, readsOthers, count, gathered⟩ :=
            ih noFeedsBehind foundBehind (addPiece pieces first)
          refine ⟨line :: taken, others, last, rfl, .line next reads, readsOthers, ?_, ?_⟩
          · simp [count, List.count_eq_zero.mpr noFeed]
          · rw [continueOn_of_noColon onLine,
              Reader.gather_of_requireLine (Reader.requireLine_of_nextLine next), gathered,
              filledLines_append noFeed]

/-- Without a free colon the rule takes line after line, until the file ends and breaks it off. -/
theorem gather_of_noColon (reads : reader.Reads lines last)
    (none : firstColon? ⟨quote, false⟩ (['\n'].intercalate (first :: lines.map (·.text))) = .none)
    (ended : last.requireLine = (.error cause, behind)) (pieces : List (List Char)) :
    reader.gather continueOn (continueOn ⟨pieces, quote⟩ first) = .error cause := by
  induction reads generalizing first quote pieces with
  | nothing =>
      rw [List.map_nil, List.intercalate_singleton] at none
      rw [continueOn_of_noColon none, Reader.gather_of_end ended]
  | @line reader behind later line lines next rest ih =>
      have onLine : firstColon? ⟨quote, false⟩ first = .none := by
        by_contra some
        obtain ⟨⟨before, after⟩, found⟩ := Option.ne_none_iff_exists'.mp some
        rw [List.map_cons, List.intercalate_cons_cons, List.append_assoc,
          firstColon?_append_of_some found] at none
        contradiction
      rw [List.map_cons, firstColon?_lines onLine, Option.map_eq_none_iff] at none
      rw [continueOn_of_noColon onLine,
        Reader.gather_of_requireLine (Reader.requireLine_of_nextLine next), ih none ended]

end GrammarRule

namespace LineOutcome

open GrammarRule (FreeColon tidied)
open Reader (Lines)

variable {isHeader languageSeen : Bool} {context : Context} {indent : ℕ}
  {body rest text : List Char} {line : SourceLine} {head : GrammarRule.Head}
  {reader last : Reader} {lines : List SourceLine}

/-- A rule ends at the first colon of its lines that stands outside quotes and not behind a
backslash, in one scan through all of them. No line is taken behind that colon. The rule is what
stands before it, and its bases are read from what stands behind it on its line. If there is no such
colon, the line declares nothing. -/
theorem ofBody_of_grammarRule
    (shape : LineShape.ofLine isHeader indent body = ⟨false, .grammarRule rest⟩)
    (opens : GrammarRule.head? rest line.text = some head) (reads : reader.Reads lines last)
    (isText : Lines text (head.rest :: lines.map (·.text))) :
    (∀ place, IsLeast {place | FreeColon .plain text place} place →
      ∃ taken others later, lines = taken ++ others ∧ reader.Reads taken later ∧
        later.Reads others last ∧ (text.take place).count '\n' = taken.length ∧
          ofBody isHeader languageSeen context indent body line reader =
            ⟨[.declaration head.name context.comment line.number (.classBlock
                { bases := baseList ((text.drop (place + 1)).takeWhile (· != '\n'))
                  macroCall := head.macroCall
                  rule := some (tidied (text.take place)) })],
              languageSeen,
              .ok ({ context with region := .blockBody, comment := "", blockOpen := true },
                later)⟩) ∧
      ((∀ place, ¬FreeColon .plain text place) →
        ∀ cause behind, last.requireLine = (.error cause, behind) →
          ofBody isHeader languageSeen context indent body line reader =
            ⟨[], languageSeen, .error cause⟩) := by
  obtain ⟨rfl, noFeeds⟩ := isText
  constructor
  · intro place isFirst
    have found := GrammarRule.firstColon?_of_isLeast isFirst
    obtain ⟨taken, others, later, divided, reads, readsOthers, count, gathered⟩ :=
      GrammarRule.gather_of_firstColon reads noFeeds found []
    refine ⟨taken, others, later, divided, reads, readsOthers, count, ?_⟩
    simp only [ofBody, shape, LineForm.declaresLanguage, Context.recognise, opens,
      Recognised.gathered, gathered, Bool.false_and, Bool.or_false, Bool.false_eq_true, if_false]
    rfl
  · intro noColon cause behind ended
    have none := GrammarRule.firstColon?_eq_none noColon
    have failed := GrammarRule.gather_of_noColon reads none ended []
    simp [ofBody, shape, LineForm.declaresLanguage, Context.recognise, opens,
      Recognised.gathered, failed]

/-- The first line of a verb rule, with a colon in a quote that it leaves open. -/
def askLine : SourceLine :=
  ⟨1, "VerbRule(Ask) 'ask:".toList, none⟩

/-- The other lines of the rule. The first of them has a colon behind a backslash. -/
def askLines : List SourceLine :=
  [⟨1, "  to' dobj \\:  ".toList, none⟩, ⟨2, "  ".toList, none⟩,
    ⟨3, "  | 'tell' : Ask, Tell".toList, none⟩]

/-- A reader of the other lines of the rule. -/
def askReader : Reader :=
  .ofContent "verbs.t" "  to' dobj \\:  \n  \n  | 'tell' : Ask, Tell\n;\n".toUTF8.toList none none

/-- The rule from behind its head on, as one text. -/
def askText : List Char :=
  " 'ask:\n  to' dobj \\:  \n  \n  | 'tell' : Ask, Tell".toList

/-- The rule ends at its first free colon, which is neither the one in the quote nor the one behind
the backslash. -/
theorem ofBody_ask : ∃ last,
    LineShape.ofLine false 0 askLine.text = ⟨false, .grammarRule "(Ask) 'ask:".toList⟩ ∧
      GrammarRule.head? "(Ask) 'ask:".toList askLine.text =
        some ⟨"VerbRule(Ask)", some "VerbRule(Ask)", " 'ask:".toList⟩ ∧
      askReader.Reads askLines last ∧
      Lines askText (" 'ask:".toList :: askLines.map (·.text)) ∧
      IsLeast {place | FreeColon .plain askText place} 37 ∧
      ∃ taken others later, askLines = taken ++ others ∧ askReader.Reads taken later ∧
        later.Reads others last ∧ 3 = taken.length ∧
          ofBody false false .start 0 askLine.text askLine askReader =
            ⟨[.declaration "VerbRule(Ask)" "" 1 (.classBlock
                { bases := baseList " Ask, Tell".toList
                  macroCall := some "VerbRule(Ask)"
                  rule := some "'ask:\n  to' dobj \\:\n  | 'tell'" })],
              false, .ok (⟨.blockBody, "", false, true⟩, later)⟩ := by
  have shape : LineShape.ofLine false 0 askLine.text =
      ⟨false, .grammarRule "(Ask) 'ask:".toList⟩ := by
    decide +kernel
  have opens : GrammarRule.head? "(Ask) 'ask:".toList askLine.text =
      some ⟨"VerbRule(Ask)", some "VerbRule(Ask)", " 'ask:".toList⟩ := by
    decide +kernel
  have reads : ∃ last, askReader.Reads askLines last :=
    ⟨_, .line (Prod.ext (by decide +kernel) rfl) (.line (Prod.ext (by decide +kernel) rfl)
      (.line (Prod.ext (by decide +kernel) rfl) .nothing))⟩
  obtain ⟨last, reads⟩ := reads
  have isText : Lines askText (" 'ask:".toList :: askLines.map (·.text)) :=
    ⟨by decide +kernel, by decide +kernel⟩
  have noneBefore : ∀ place < 37, ¬FreeColon .plain askText place := by
    decide +kernel
  have isFirst : IsLeast {place | FreeColon .plain askText place} 37 :=
    ⟨by decide +kernel,
      fun place free => Nat.le_of_not_lt fun before => noneBefore place before free⟩
  have rule : tidied (askText.take 37) = "'ask:\n  to' dobj \\:\n  | 'tell'" := by
    decide +kernel
  refine ⟨last, shape, opens, reads, isText, isFirst, ?_⟩
  rw [← rule]
  exact (ofBody_of_grammarRule shape opens reads isText).1 37 isFirst

end LineOutcome

end TadsReference
