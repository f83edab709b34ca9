import TadsReference.Proofs.Entry.CommentTexts

/-!
# Comments on one line

A comment that ends on its first line is kept as it stands. If its text stands on a line of its own
between the marks, notices are left out and the blanks between the words are normalised. So the two
ways to write a comment are kept alike only where the text is no notice and its words are apart by
single spaces: `ofLine_of_closedComment`.
-/

namespace TadsReference

open Text (trim)

namespace BlockComment

variable {content line : List Char}

/-- What stands on the line of a comment behind its first mark. -/
def closed (content : List Char) : List Char :=
  ' ' :: (content ++ " */".toList)

/-- What is kept of a text that stands on one line with the marks. -/
def kept (content : List Char) : String :=
  String.ofList (trim content)

/-- What is kept of a text that stands on a line between the marks. -/
def gathered (content : List Char) : String :=
  if isNotice (trim content) then ""
  else String.ofList ([' '].intercalate (Text.words (trim content)))

/-- The two ways to write a comment keep the same text just if it is no notice and its words are
apart by single spaces. -/
theorem kept_eq_gathered_iff :
    kept content = gathered content ↔
      isNotice (trim content) = false ∧
        trim content = [' '].intercalate (Text.words (trim content)) := by
  rw [kept, gathered]
  cases notice : isNotice (trim content) with
  | true =>
      have filled : trim content ≠ [] := by
        intro empty
        rw [empty] at notice
        contradiction
      simpa using filled
  | false => simp [← String.toList_inj]

/-! ### One line -/

theorem cut?_closed (noEnd : ¬['*', '/'] <:+: content) :
    Text.cut? ['*', '/'] (closed content) = some (' ' :: (content ++ [' ']), []) := by
  have notBefore : Text.cut? ['*', '/'] (' ' :: content) = none := by
    rw [Text.cut?_eq_none_iff (by simp)]
    simp [List.infix_cons_iff, noEnd]
  have noOverlap : ∀ character ∈ " */".toList.head?, character ∉ ['*', '/'] := by simp
  have ends : Text.cut? ['*', '/'] " */".toList = some ([' '], []) := rfl
  have spelled : closed content = (' ' :: content) ++ " */".toList := rfl
  rw [spelled, Text.cut?_append noOverlap notBefore, ends]
  rfl

theorem start_closed (noEnd : ¬['*', '/'] <:+: content) :
    start (closed content) = .complete (kept content) := by
  have isGap : ∀ character ∈ [' '], Text.isBlank character = true :=
    List.forall_mem_singleton.mpr Text.isBlank_space
  have trimmed : trim (' ' :: (content ++ [' '])) = trim content :=
    Text.trim_surrounded isGap isGap
  rw [start, cut?_closed noEnd, kept, ← trimmed]

/-! ### Three lines -/

theorem joined_paragraphs (words : List (List Char)) :
    ['\n', '\n'].intercalate ((paragraphs (words.map .word)).map ([' '].intercalate ·)) =
      [' '].intercalate words := by
  rcases eq_or_ne words [] with rfl | filled
  · rfl
  · have found := paragraphs_intercalate [words] (List.forall_mem_singleton.mpr filled)
    simp only [List.map_singleton, List.intercalate_singleton] at found
    simp [found]

/-- The lines of the two marks add nothing to the text between them. -/
theorem text_of_starred (same : trim line = trim (starred content)) :
    text [[], line, [' ']] = gathered content := by
  have ends : lineItems [] = [] ∧ lineItems [' '] = [] := ⟨rfl, rfl⟩
  have items : [[], line, [' ']].flatMap lineItems = lineItems line := by
    simp [ends]
  rw [text, items, gathered]
  rcases eq_or_ne (trim content) [] with blank | filled
  · rw [lineItems, undecorate_of_blank blank same, blank]
    rfl
  · rw [lineItems_of_filled filled same]
    split
    · rfl
    · rw [joined_paragraphs]

/-- A text between the marks is gathered from its line and the one that closes the comment. Dropping
carriage returns cannot bring two characters together, so no mark arises. -/
theorem completes_of_starred (noEnd : ¬['*', '/'] <:+: content) :
    Reader.Completes continueOn (start [])
      [Text.dropEndWhile (· == '\r') (starred content), " */".toList] (gathered content) := by
  obtain ⟨returns, shape, areReturns⟩ :=
    Text.exists_dropEndWhile_append (· == '\r') (starred content)
  have same : trim (Text.dropEndWhile (· == '\r') (starred content)) = trim (starred content) := by
    have areBlank : ∀ character ∈ returns, Text.isBlank character = true := by
      intro character isReturn
      rw [beq_iff_eq.mp (areReturns character isReturn)]
      exact Text.isBlank_return
    conv_rhs => rw [shape]
    exact (Text.trim_surrounded (List.forall_mem_nil _) areBlank).symm
  have noEnds : ∀ line ∈ [Text.dropEndWhile (· == '\r') (starred content)],
      Text.cut? ['*', '/'] line = none := by
    rw [List.forall_mem_singleton, Text.cut?_eq_none_iff (by simp)]
    intro isEnd
    have isEndBehind : ['*', '/'] <:+: starred content := by
      rw [shape]
      exact isEnd.trans (List.prefix_append _ _).isInfix
    exact (Text.cut?_eq_none_iff (by simp)).mp (cut?_starred noEnd) isEndBehind
  have waits : start [] = .waiting [[]] := rfl
  rw [waits, ← text_of_starred same]
  exact completes_of_lines [[]] noEnds

end BlockComment

namespace LineOutcome

open BlockComment (closed kept)

/-- The message that a line defines, and the reader behind it. Headers are not searched for
messages. -/
def searched (isHeader : Bool) (line : SourceLine) (reader : Reader) :
    Except Failure (Option Entry × Reader) :=
  if isHeader then .ok (none, reader) else MessageCall.read line.body line.number reader

variable {isHeader languageSeen : Bool} {context : Context} {line : SourceLine} {reader : Reader}
  {content rest : List Char} {text : String} {indent : ℕ}

/-- A comment that is complete takes no other line. -/
theorem ofBody_of_comment (complete : BlockComment.start rest = .complete text) :
    ofBody isHeader languageSeen context indent ('/' :: '*' :: rest) line reader =
      ⟨(context.keepComment text).1.toList, languageSeen,
        .ok ((context.keepComment text).2, reader)⟩ := by
  have first : Token.next? ('/' :: '*' :: rest) = some ("/*", rest) := rfl
  have shape : LineShape.ofLine isHeader indent ('/' :: '*' :: rest) = ⟨false, .comment rest⟩ := by
    rw [LineShape.ofLine_of_next? isHeader indent first (by decide)]
    rfl
  simp [ofBody, shape, LineForm.declaresLanguage, Context.recognise, Recognised.gathered, complete,
    Reader.gather]

/-- The message of a line comes in front of what else the line declares. -/
theorem ofLine_of_searched (filled : line.body ≠ []) :
    ofLine isHeader languageSeen context line reader =
      match searched isHeader line reader with
      | .error cause => ⟨[], languageSeen, .error cause⟩
      | .ok (message, later) =>
          let outcome := ofBody isHeader languageSeen context line.indent line.body line later
          { outcome with entries := message.toList ++ outcome.entries } := by
  simp only [ofLine, SourceLine.isEmpty_of_filled filled, Bool.false_eq_true, if_false]
  cases isHeader <;> rfl

/-- A comment on one line is kept behind the message that the line may define, and no line is taken
for it. -/
theorem ofLine_of_oneLine (noEnd : ¬['*', '/'] <:+: content)
    (spelled : line.body = '/' :: '*' :: closed content) :
    ofLine isHeader languageSeen context line reader =
      match searched isHeader line reader with
      | .error cause => ⟨[], languageSeen, .error cause⟩
      | .ok (message, later) =>
          ⟨message.toList ++ (context.keepComment (kept content)).1.toList, languageSeen,
            .ok ((context.keepComment (kept content)).2, later)⟩ := by
  rw [ofLine_of_searched (by simp [spelled]), spelled]
  simp only [ofBody_of_comment (BlockComment.start_closed noEnd)]

end LineOutcome

/-- What is kept of a comment can be told from the text. -/
theorem Context.keepComment_inj {context : Context} {left right : String} :
    context.keepComment left = context.keepComment right ↔ left = right := by
  unfold keepComment
  split <;> simp

namespace LineOutcome

open BlockComment (closed kept gathered starred)

/-- A comment on one line is kept as its text, trimmed, behind a message that stands in it. If the
text stands on a line of its own between the marks, its words are kept with single spaces between
them, and a notice is not kept. So the two are kept alike just where the text is no notice and its
words are apart by single spaces. -/
theorem ofLine_of_closedComment {line opening : SourceLine} {behind later : Reader}
    {lines : List SourceLine} {content : List Char} (noEnd : ¬['*', '/'] <:+: content)
    (oneLine : line.body = '/' :: '*' :: closed content) (opens : opening.shown = "/*".toList)
    (reads : behind.Reads lines later)
    (shown : lines.map (·.text) =
      [Text.dropEndWhile (· == '\r') (starred content), " */".toList])
    (isHeader languageSeen : Bool) (context : Context) (reader : Reader) :
    (ofLine isHeader languageSeen context line reader =
      match searched isHeader line reader with
      | .error cause => ⟨[], languageSeen, .error cause⟩
      | .ok (message, following) =>
          ⟨message.toList ++ (context.keepComment (kept content)).1.toList, languageSeen,
            .ok ((context.keepComment (kept content)).2, following)⟩) ∧
      ofLine isHeader languageSeen context opening behind =
        ⟨(context.keepComment (gathered content)).1.toList, languageSeen,
          .ok ((context.keepComment (gathered content)).2, later)⟩ ∧
      (context.keepComment (kept content) = context.keepComment (gathered content) ↔
        BlockComment.isNotice (trim content) = false ∧
          trim content = [' '].intercalate (Text.words (trim content))) := by
  refine ⟨ofLine_of_oneLine noEnd oneLine, ?_, ?_⟩
  · apply ofLine_of_comment opens
    exact Reader.gather_of_completes (BlockComment.completes_of_starred noEnd) reads shown
  · rw [Context.keepComment_inj, BlockComment.kept_eq_gathered_iff]

/-- A text that is no description of a file. -/
def notice : List Char :=
  "This file is part of TADS 3".toList

/-- The notice on one line. -/
def noticeLine : SourceLine where
  number := 1
  text := "/* This file is part of TADS 3 */".toList
  mirror := none

/-- The notice on three lines. -/
def noticeReader : Reader :=
  .ofContent "game.h" "/*\n *   This file is part of TADS 3\n */\n".toUTF8.toList none none

/-- The line that opens the notice where it stands on three lines. -/
def noticeOpening : SourceLine where
  number := 1
  text := "/*".toList
  mirror := none

/-- The other two lines of the notice. -/
def noticeLines : List SourceLine :=
  [⟨2, " *   This file is part of TADS 3".toList, none⟩, ⟨3, " */".toList, none⟩]

theorem shown_noticeOpening : noticeOpening.shown = "/*".toList :=
  rfl

theorem noEnd_notice : ¬['*', '/'] <:+: notice := by
  rw [← Text.cut?_eq_none_iff (by simp)]
  decide +kernel

theorem body_noticeLine : noticeLine.body = '/' :: '*' :: closed notice := by
  decide +kernel

theorem reads_noticeLines : ∃ later, noticeReader.nextLine.2.Reads noticeLines later :=
  ⟨_, .line (Prod.ext (by decide +kernel) rfl) (.line (Prod.ext (by decide +kernel) rfl) .nothing)⟩

theorem shown_noticeLines :
    noticeLines.map (·.text) =
      [Text.dropEndWhile (· == '\r') (starred notice), " */".toList] := by
  decide +kernel

theorem kept_notice : kept notice = "This file is part of TADS 3" := by
  decide +kernel

theorem gathered_notice : gathered notice = "" := by
  decide +kernel

/-- The notice is kept as it stands on one line, and dropped on three. -/
theorem ofLine_notice :
    ¬['*', '/'] <:+: notice ∧
      noticeReader.nextLine.1 = .ok (some noticeOpening) ∧
      (ofLine true false .start noticeLine (.ofContent "game.h" [] none none)).entries =
        [.fileDescription "This file is part of TADS 3"] ∧
      (ofLine true false .start noticeOpening noticeReader.nextLine.2).entries =
        [.fileDescription ""] := by
  obtain ⟨later, reads⟩ := reads_noticeLines
  obtain ⟨oneLine, threeLines, _⟩ :=
    ofLine_of_closedComment noEnd_notice body_noticeLine shown_noticeOpening reads
      shown_noticeLines true false .start (.ofContent "game.h" [] none none)
  refine ⟨noEnd_notice, by decide +kernel, ?_, ?_⟩
  · rw [oneLine, kept_notice]
    rfl
  · rw [threeLines, gathered_notice]
    rfl

/-- The notice describes the file if it stands on one line, and does not if it stands on three. -/
theorem not_same_notice :
    (ofLine true false .start noticeLine (.ofContent "game.h" [] none none)).entries ≠
      (ofLine true false .start noticeOpening noticeReader.nextLine.2).entries := by
  obtain ⟨later, reads⟩ := reads_noticeLines
  have complete := Reader.gather_of_completes
    (BlockComment.completes_of_starred noEnd_notice) reads shown_noticeLines
  rw [ofLine_of_oneLine noEnd_notice body_noticeLine, kept_notice,
    ofLine_of_comment shown_noticeOpening true false .start complete, gathered_notice]
  intro same
  exact absurd (Entry.fileDescription.inj (List.singleton_inj.mp same)) (by decide)

end LineOutcome

end TadsReference
