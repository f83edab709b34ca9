import TadsReference.Proofs.Entry.Kinds
import TadsReference.Proofs.Reader.GatheredLines

/-!
# Comments that are written out

A comment is written as paragraphs, whose words are wrapped into decorated lines. It is kept as the
words of the paragraphs, however they are wrapped: `ofLines_of_comment`.
-/

namespace TadsReference

open Text (IsWord)

namespace BlockComment

variable {wrapped : List (List (List String))} {line : List String} {content raw : List Char}

/-! ### Decorated lines -/

/-- A text behind the decoration of a line. -/
def starred (content : List Char) : List Char :=
  " *   ".toList ++ content

theorem cut?_starred (noEnd : ¬['*', '/'] <:+: content) :
    Text.cut? ['*', '/'] (starred content) = none := by
  have spelled : starred content = ' ' :: '*' :: ' ' :: ' ' :: ' ' :: content := rfl
  rw [Text.cut?_eq_none_iff (by simp), spelled]
  simp [List.infix_cons_iff, noEnd]

/-- A line that is blank behind its star begins a paragraph. -/
theorem undecorate_of_blank (blank : Text.trim content = [])
    (same : Text.trim raw = Text.trim (starred content)) :
    undecorate raw = ([.paragraph], []) := by
  obtain ⟨left, right, shape, isLeft, isRight⟩ := Text.exists_trim content
  have star : Text.Trimmed ['*'] := ⟨by simp; decide, by simp; decide⟩
  have spelled : starred content = [' '] ++ (['*'] ++ ("   ".toList ++ (left ++ right))) := by
    rw [starred, shape, blank]
    rfl
  have isBefore : ∀ character ∈ [' '], Text.isBlank character = true :=
    List.forall_mem_singleton.mpr Text.isBlank_space
  have isBehind : ∀ character ∈ "   ".toList ++ (left ++ right), Text.isBlank character = true :=
    List.forall_mem_append.mpr
      ⟨by simp [Text.isBlank_space], List.forall_mem_append.mpr ⟨isLeft, isRight⟩⟩
  rw [undecorate, same, spelled, star.trim_between isBefore isBehind]
  rfl

/-- The decoration is taken off a text, and perhaps some blanks at its ends. What is left is the
same line, so the words of it are found as if it had been written without the decoration. -/
theorem undecorate_of_filled (filled : Text.trim content ≠ [])
    (same : Text.trim raw = Text.trim (starred content)) :
    ∃ rest, undecorate raw = ([], rest) ∧ Text.trim rest = Text.trim content := by
  obtain ⟨left, right, shape, isLeft, isRight⟩ := Text.exists_trim content
  have bare : Text.Trimmed ("*   ".toList ++ left ++ Text.trim content) := by
    refine ⟨by simp; decide, ?_⟩
    rw [List.getLast?_append_of_ne_nil _ filled]
    exact (Text.trimmed_trim content).last
  have spelled : starred content =
      [' '] ++ (("*   ".toList ++ left ++ Text.trim content) ++ right) := by
    rw [starred]
    conv_lhs => rw [shape]
    simp
  have isBefore : ∀ character ∈ [' '], Text.isBlank character = true :=
    List.forall_mem_singleton.mpr Text.isBlank_space
  have isGap : ∀ character ∈ ' ' :: ' ' :: left, Text.isBlank character = true := by
    simpa [Text.isBlank_space] using isLeft
  refine ⟨' ' :: ' ' :: left ++ Text.trim content, ?_, ?_⟩
  · rw [undecorate, same, spelled, bare.trim_between isBefore isRight]
    rfl
  · exact (Text.trimmed_trim content).trim_append isGap

/-- A decorated line adds its words, unless it is a notice. -/
theorem lineItems_of_filled (filled : Text.trim content ≠ [])
    (same : Text.trim raw = Text.trim (starred content)) :
    lineItems raw = if isNotice (Text.trim content) then []
      else (Text.words (Text.trim content)).map .word := by
  obtain ⟨rest, undecorated, sameText⟩ := undecorate_of_filled filled same
  rw [lineItems, undecorated]
  simp only [sameText, List.nil_append]

/-! ### Lines of words -/

/-- Words may be written as one line of a comment that spans lines. -/
structure IsWrapped (line : List String) : Prop where
  filled : line ≠ []
  areWords : ∀ word ∈ line, IsWord word.toList
  noNotice : isNotice (Text.join " " line).toList = false
  noEnd : ¬['*', '/'] <:+: (Text.join " " line).toList

/-- The conditions can be checked, since the mark that ends a comment is searched for. -/
instance : Decidable (IsWrapped line) :=
  decidable_of_iff
    (line ≠ [] ∧ (∀ word ∈ line, IsWord word.toList) ∧
      isNotice (Text.join " " line).toList = false ∧
        (Text.cut? ['*', '/'] (Text.join " " line).toList).isNone = true) <| by
    rw [Option.isNone_iff_eq_none, Text.cut?_eq_none_iff (by simp)]
    exact ⟨fun ⟨filled, areWords, noNotice, noEnd⟩ => ⟨filled, areWords, noNotice, noEnd⟩,
      fun isWrapped =>
        ⟨isWrapped.filled, isWrapped.areWords, isWrapped.noNotice, isWrapped.noEnd⟩⟩

/-- A decorated line of words. -/
def decorated (line : List String) : List Char :=
  " *   ".toList ++ (Text.join " " line).toList

/-- The lines between the first and the last one of a comment. Two paragraphs have a line between
them. -/
def inner (wrapped : List (List (List String))) : List (List Char) :=
  [" *".toList].intercalate (wrapped.map (·.map decorated))

/-- The lines of a comment. -/
def written (wrapped : List (List (List String))) : List (List Char) :=
  "/*".toList :: (inner wrapped ++ [" */".toList])

/-- The words of the paragraphs, which do not depend on how they are wrapped. -/
def plainText (paragraphs : List (List String)) : String :=
  Text.join "\n\n" (paragraphs.map (Text.join " "))

theorem toList_join (line : List String) :
    (Text.join " " line).toList = [' '].intercalate (line.map String.toList) := by
  simp [Text.join, String.toList_intercalate]

namespace IsWrapped

theorem areWords_toList (isWrapped : IsWrapped line) :
    ∀ word ∈ line.map String.toList, IsWord word := by
  simpa using isWrapped.areWords

theorem trimmed_join (isWrapped : IsWrapped line) :
    Text.Trimmed (Text.join " " line).toList := by
  rw [toList_join]
  exact Text.trimmed_joined isWrapped.areWords_toList

theorem join_ne_nil (isWrapped : IsWrapped line) : (Text.join " " line).toList ≠ [] := by
  rw [toList_join]
  exact Text.joined_ne_nil isWrapped.areWords_toList (by simpa using isWrapped.filled)

/-- A decorated line ends with its last word. -/
theorem last_decorated (isWrapped : IsWrapped line) :
    ∀ character ∈ (decorated line).getLast?, Text.isBlank character = false := by
  have ending : (decorated line).getLast? = (Text.join " " line).toList.getLast? :=
    List.getLast?_append_of_ne_nil _ isWrapped.join_ne_nil
  rw [ending]
  exact isWrapped.trimmed_join.last

/-- A decorated line adds its words. -/
theorem lineItems_decorated (isWrapped : IsWrapped line) :
    lineItems (decorated line) = line.map (Item.word ·.toList) := by
  have divided : Text.words (Text.join " " line).toList = line.map String.toList := by
    rw [toList_join, Text.words_joined isWrapped.areWords_toList]
  have bare : Text.trim (Text.join " " line).toList = (Text.join " " line).toList :=
    isWrapped.trimmed_join.trim_append (List.forall_mem_nil _)
  have items := lineItems_of_filled (bare.symm ▸ isWrapped.join_ne_nil)
    (rfl : Text.trim (decorated line) = Text.trim (starred _))
  simp [items, bare, isWrapped.noNotice, divided]

theorem cut?_decorated (isWrapped : IsWrapped line) :
    Text.cut? ['*', '/'] (decorated line) = none :=
  cut?_starred isWrapped.noEnd

end IsWrapped

/-! ### Paragraphs -/

/-- The words of paragraphs are found between the marks of paragraphs. No paragraph is empty, so no
mark is lost between two of them. -/
theorem paragraphs_intercalate (paragraphs : List (List (List Char)))
    (filled : ∀ paragraph ∈ paragraphs, paragraph ≠ []) :
    BlockComment.paragraphs ([Item.paragraph].intercalate (paragraphs.map (·.map Item.word))) =
      paragraphs := by
  have letters (paragraph : List (List Char)) :
      (paragraph.map Item.word).filterMap Item.letters? = paragraph := by
    rw [List.filterMap_map]
    exact List.filterMap_some
  rcases eq_or_ne paragraphs [] with rfl | nonempty
  · rfl
  · have divided : ([Item.paragraph].intercalate (paragraphs.map (·.map Item.word))).splitOnP
        (· == .paragraph) = paragraphs.map (·.map Item.word) := by
      apply List.splitOn_intercalate
      · intro part isPart
        obtain ⟨paragraph, _, rfl⟩ := List.mem_map.mp isPart
        simp
      · simpa using nonempty
    have found : paragraphs.map ((·.filterMap Item.letters?) ∘ (·.map Item.word)) = paragraphs := by
      simp [Function.comp_def, letters]
    rw [BlockComment.paragraphs, divided, List.map_map, found]
    simpa using filled

/-- The lines of the paragraphs add their words, and those between them begin paragraphs. -/
theorem flatMap_inner (areWrapped : ∀ paragraph ∈ wrapped, ∀ line ∈ paragraph, IsWrapped line) :
    (inner wrapped).flatMap lineItems =
      [Item.paragraph].intercalate
        ((wrapped.map (·.flatten.map String.toList)).map (·.map Item.word)) := by
  have separator : [" *".toList].flatMap lineItems = [Item.paragraph] := rfl
  rw [inner, Text.flatMap_intercalate, separator, List.map_map, List.map_map]
  congr 1
  apply List.map_congr_left
  intro paragraph isParagraph
  have ofLine : ∀ line ∈ paragraph, lineItems (decorated line) = line.map (Item.word ·.toList) :=
    fun line isLine => (areWrapped paragraph isParagraph line isLine).lineItems_decorated
  rw [Function.comp_apply, Function.comp_apply, List.flatMap_map, List.flatMap_congr ofLine]
  simp [List.flatMap_def, List.map_flatten, Function.comp_def]

/-- What stands in the first and in the last line adds nothing. The first is empty and the last has
one blank, so all words are those of the lines between them. -/
theorem text_inner (filled : ∀ paragraph ∈ wrapped, paragraph ≠ [])
    (areWrapped : ∀ paragraph ∈ wrapped, ∀ line ∈ paragraph, IsWrapped line) :
    text ([] :: (inner wrapped ++ [[' ']])) = plainText (wrapped.map List.flatten) := by
  have ends : lineItems [] = [] ∧ lineItems [' '] = [] := ⟨rfl, rfl⟩
  have items : ([] :: (inner wrapped ++ [[' ']])).flatMap lineItems =
      [Item.paragraph].intercalate
        ((wrapped.map (·.flatten.map String.toList)).map (·.map Item.word)) := by
    rw [List.flatMap_cons, List.flatMap_append, List.flatMap_singleton, ends.1, ends.2,
      List.append_nil, List.nil_append, flatMap_inner areWrapped]
  have filledWords : ∀ paragraph ∈ wrapped.map (·.flatten.map String.toList), paragraph ≠ [] := by
    intro words isPart none
    obtain ⟨paragraph, isParagraph, rfl⟩ := List.mem_map.mp isPart
    have noWords : ∀ line ∈ paragraph, line = [] := by simpa using none
    obtain ⟨line, isLine⟩ := List.exists_mem_of_ne_nil _ (filled paragraph isParagraph)
    exact (areWrapped paragraph isParagraph line isLine).filled (noWords line isLine)
  have spelled : (plainText (wrapped.map List.flatten)).toList = ['\n', '\n'].intercalate
      ((wrapped.map (·.flatten.map String.toList)).map ([' '].intercalate ·)) := by
    simp [plainText, Text.join, String.toList_intercalate, Function.comp_def, List.map_flatten]
  rw [text, items, paragraphs_intercalate _ filledWords, ← spelled, String.ofList_toList]

/-- Lines without the mark that ends a comment are gathered one by one, and the comment is complete
with the line of the mark. -/
theorem completes_of_lines {texts : List (List Char)} (before : List (List Char))
    (noEnds : ∀ text ∈ texts, Text.cut? ['*', '/'] text = none) :
    Reader.Completes continueOn (.waiting before) (texts ++ [" */".toList])
      (text (before ++ texts ++ [[' ']])) := by
  induction texts generalizing before with
  | nil =>
      have ends : continueOn before " */".toList = .complete (text (before ++ [[' ']])) := by
        rfl
      apply Reader.Completes.line
      rw [ends, List.append_nil]
      exact .complete _
  | cons text texts ih =>
      obtain ⟨noEnd, noEnds⟩ := List.forall_mem_cons.mp noEnds
      have waits : continueOn before text = .waiting (before ++ [text]) := by
        rw [continueOn, noEnd]
      apply Reader.Completes.line
      rw [waits]
      simpa using ih (before ++ [text]) noEnds

/-- What holds of the lines of words and of the lines between paragraphs holds of all lines between
the first and the last one. -/
theorem forall_mem_inner {holds : List Char → Prop} (ofSeparator : holds " *".toList)
    (ofLines : ∀ paragraph ∈ wrapped, ∀ line ∈ paragraph, holds (decorated line)) :
    ∀ text ∈ inner wrapped, holds text := by
  apply Text.forall_mem_intercalate (List.forall_mem_singleton.mpr ofSeparator)
  simpa using ofLines

/-- A comment that is written out is complete with its last line. -/
theorem completes_of_written (filled : ∀ paragraph ∈ wrapped, paragraph ≠ [])
    (areWrapped : ∀ paragraph ∈ wrapped, ∀ line ∈ paragraph, IsWrapped line) :
    Reader.Completes continueOn (start []) (inner wrapped ++ [" */".toList])
      (plainText (wrapped.map List.flatten)) := by
  have noEnds : ∀ text ∈ inner wrapped, Text.cut? ['*', '/'] text = none :=
    forall_mem_inner rfl fun paragraph isParagraph line isLine =>
      (areWrapped paragraph isParagraph line isLine).cut?_decorated
  have waits : start [] = .waiting [[]] := rfl
  have completes := completes_of_lines [[]] noEnds
  rw [waits, ← text_inner filled areWrapped]
  exact completes

/-- No line of a comment ends with a carriage return. -/
theorem last_written
    (areWrapped : ∀ paragraph ∈ wrapped, ∀ line ∈ paragraph, IsWrapped line) :
    ∀ text ∈ written wrapped, text.getLast? ≠ some '\r' := by
  have ofInner : ∀ text ∈ inner wrapped, text.getLast? ≠ some '\r' := by
    refine forall_mem_inner (by decide) fun paragraph isParagraph line isLine isReturn => ?_
    have visible := (areWrapped paragraph isParagraph line isLine).last_decorated '\r' isReturn
    exact absurd Text.isBlank_return (Bool.eq_false_iff.mp visible)
  intro text isText
  rcases List.mem_cons.mp isText with rfl | isLater
  · decide
  · rcases List.mem_append.mp isLater with isInner | isLast
    · exact ofInner text isInner
    · obtain rfl := List.mem_singleton.mp isLast
      decide

end BlockComment

variable {wrapped : List (List (List String))} {more : List RawLine} {reader : Reader}

/-- A line that opens a comment keeps the text that is gathered from the lines behind it, and
declares nothing. -/
theorem LineOutcome.ofLine_of_comment {line : SourceLine} (opens : line.shown = "/*".toList)
    (isHeader languageSeen : Bool) (context : Context) {text : String} {later : Reader}
    (gathered : reader.gather BlockComment.continueOn (BlockComment.start []) = .ok (text, later)) :
    ofLine isHeader languageSeen context line reader =
      ⟨(context.keepComment text).1.toList, languageSeen,
        .ok ((context.keepComment text).2, later)⟩ := by
  have trimmed : Text.trimEnd "/*".toList = "/*".toList := rfl
  have body : line.body = "/*".toList := by
    unfold SourceLine.body
    rw [opens, trimmed]
    rfl
  have noCall : MessageCall.find? none ['/', '*'] = none := by
    have noOpening : MessageCall.opening? ['/', '*'] = none ∧ MessageCall.opening? ['*'] = none :=
      ⟨rfl, rfl⟩
    simp [MessageCall.find?, noOpening]
  have noMessage : MessageCall.read line.body line.number reader = .ok (none, reader) := by
    have opening : "/*".toList = ['/', '*'] := rfl
    rw [MessageCall.read, body, opening, noCall]
  have first : Token.next? "/*".toList = some ("/*", []) := rfl
  have shape : LineShape.ofLine isHeader line.indent line.body = ⟨false, .comment []⟩ := by
    rw [body, LineShape.ofLine_of_next? isHeader line.indent first (by decide)]
    rfl
  rw [ofLine_of_filled (by simp [body]) isHeader languageSeen context fun _ => noMessage]
  simp [ofBody, shape, LineForm.declaresLanguage, Context.recognise, Recognised.gathered, gathered]

namespace FileOutcome

/-- A comment is kept as the words of its paragraphs, with one space between two words and one blank
line between two paragraphs, however the words are wrapped. The file is read on behind it. -/
theorem ofLines_of_comment (filled : ∀ paragraph ∈ wrapped, paragraph ≠ [])
    (areWrapped : ∀ paragraph ∈ wrapped, ∀ line ∈ paragraph, BlockComment.IsWrapped line)
    (offers : reader.Offers (BlockComment.written wrapped) more)
    (isHeader languageSeen : Bool) (context : Context) :
    ∃ later : Reader, later.Plain ∧ later.source.ahead = more ∧
      later.number = reader.number + (BlockComment.written wrapped).length ∧
        ofLines isHeader languageSeen context reader =
          let kept := context.keepComment (BlockComment.plainText (wrapped.map List.flatten))
          (ofLines isHeader languageSeen kept.2 later).prepend kept.1.toList := by
  have completes := BlockComment.completes_of_written filled areWrapped
  apply ofLines_of_completes offers (BlockComment.last_written areWrapped) completes
  intro line behind later _ opens gathered _
  exact LineOutcome.ofLine_of_comment opens isHeader languageSeen context gathered

/-- A comment of two paragraphs, the first of which is wrapped. -/
def lampComment : List (List (List String)) :=
  [[["A", "lamp", "that"], ["burns", "oil."]], [["It", "is", "heavy."]]]

/-- A reader of a file with a comment that is written out and a declaration behind it. -/
def lampReader : Reader :=
  .ofContent "lamp.h"
    "/*\n *   A lamp that\n *   burns oil.\n *\n *   It is heavy.\n */\nlamp: Thing\n".toUTF8.toList
    none none

/-- The comment is kept as the words of its two paragraphs, and the declaration is read behind
it. -/
theorem ofLines_of_lampComment :
    (∀ paragraph ∈ lampComment, paragraph ≠ []) ∧
      (∀ paragraph ∈ lampComment, ∀ line ∈ paragraph, BlockComment.IsWrapped line) ∧
      lampReader.Offers (BlockComment.written lampComment) [⟨7, "lamp: Thing".toList, none⟩] ∧
      ∃ later : Reader, later.Plain ∧ later.source.ahead = [⟨7, "lamp: Thing".toList, none⟩] ∧
        later.number = 6 ∧ ofLines true false .start lampReader =
          (ofLines true false { Context.start with commentSeen := true } later).prepend
            [.fileDescription "A lamp that burns oil.\n\nIt is heavy."] := by
  have filled : ∀ paragraph ∈ lampComment, paragraph ≠ [] := by decide
  have areWrapped : ∀ paragraph ∈ lampComment, ∀ line ∈ paragraph, BlockComment.IsWrapped line := by
    decide +kernel
  have offers : lampReader.Offers (BlockComment.written lampComment)
      [⟨7, "lamp: Thing".toList, none⟩] := by
    refine ⟨Reader.plain_ofContent _ _ _, lampReader.source.ahead.take 6, ?_, ?_, ?_⟩
    all_goals decide +kernel
  exact ⟨filled, areWrapped, offers, ofLines_of_comment filled areWrapped offers true false .start⟩

end FileOutcome

end TadsReference
