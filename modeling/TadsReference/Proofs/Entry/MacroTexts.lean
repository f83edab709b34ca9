import TadsReference.Proofs.Entry.ParameterLists
import TadsReference.Proofs.Entry.Redefinitions
import TadsReference.Proofs.Reader.GatheredLines

/-!
# Macros that are written out

A macro is written as a line with its name, its parameters and the first line of its body, and
backslashes have the other lines of the body continue it. Read again, it has the same name, the same
parameters and the same body: `ofLines_of_macro`.
-/

namespace TadsReference

open Identifier (IsRun Apart apart_cons)
open ParameterList (IsParameter)

namespace MacroBody

variable {body : List String} {line gap first : List Char} {pieces texts : List (List Char)}

/-! ### Lines of a body -/

/-- A line of a body is left as it is when blanks are trimmed, and does not end with a backslash. -/
structure IsLine (line : List Char) : Prop where
  nonempty : line ≠ []
  trimmed : Text.Trimmed line
  noBackslash : line.getLast? ≠ some '\\'

/-- The lines of a body, each of which is continued by the next one. -/
def continued : List String → List (List Char)
  | [] => []
  | [last] => [last.toList]
  | line :: others => (line.toList ++ [' ', '\\']) :: continued others

theorem continued_ne_nil (filled : body ≠ []) : continued body ≠ [] := by
  cases body with
  | nil => contradiction
  | cons line others => cases others <;> simp [continued]

theorem length_continued (body : List String) : (continued body).length = body.length := by
  induction body with
  | nil => rfl
  | cons line others ih => cases others <;> simp_all [continued]

/-- Behind a line that nothing continues, the body is complete. -/
theorem continueOn_last (isLine : IsLine line)
    (isGap : ∀ character ∈ gap, Text.isBlank character = true) :
    continueOn pieces (gap ++ line) =
      .complete (String.ofList (['\n'].intercalate (pieces ++ [line]))) := by
  have piece : Text.trimEnd (Text.dropEndWhile (· == '\\') line) = line := by
    rw [Text.dropEndWhile_of_getLast?_ne isLine.noBackslash, Text.trimEnd,
      Text.dropEndWhile_self isLine.trimmed.last]
  simp [continueOn, isLine.trimmed.trim_append isGap, piece, isLine.noBackslash, isLine.nonempty]

/-- A line with a backslash at its end is one more piece of the body, trimmed, and the body goes
on. -/
theorem continueOn_continued (isLine : IsLine line)
    (isGap : ∀ character ∈ gap, Text.isBlank character = true) :
    continueOn pieces (gap ++ (line ++ [' ', '\\'])) = .waiting (pieces ++ [line]) := by
  have trimmed : Text.Trimmed (line ++ [' ', '\\']) := by
    constructor
    · intro character isHead
      rw [List.head?_append_of_ne_nil _ isLine.nonempty] at isHead
      exact isLine.trimmed.first character isHead
    · intro character isLast
      obtain rfl : '\\' = character := by simpa using isLast
      decide
  have noBackslash : Text.dropEndWhile (· == '\\') (line ++ [' ', '\\']) = line ++ [' '] :=
    Text.dropEndWhile_append (by decide) line ['\\']
  have piece : Text.trimEnd (line ++ [' ']) = line :=
    Text.dropEndWhile_append_dropped isLine.trimmed.last
      (List.forall_mem_singleton.mpr Text.isBlank_space)
  simp [continueOn, trimmed.trim_append isGap, noBackslash, piece, isLine.nonempty]

/-- The lines of a body are gathered, with line feeds between them. Each line but the last one ends
in a backslash, which is taken away and does not belong to the body. -/
theorem completes_of_continued (areLines : ∀ line ∈ body, IsLine line.toList)
    (isGap : ∀ character ∈ gap, Text.isBlank character = true)
    (shape : continued body = first :: texts) (pieces : List (List Char)) :
    Reader.Completes continueOn (continueOn pieces (gap ++ first)) texts
      (String.ofList (['\n'].intercalate (pieces ++ body.map String.toList))) := by
  induction body generalizing gap first texts pieces with
  | nil => contradiction
  | cons line others ih =>
      obtain ⟨isLine, areLines⟩ := List.forall_mem_cons.mp areLines
      cases others with
      | nil =>
          obtain ⟨rfl, rfl⟩ := List.cons.inj shape
          rw [continueOn_last isLine isGap]
          exact .complete _
      | cons second others =>
          obtain ⟨rfl, rfl⟩ := List.cons.inj shape
          rw [continueOn_continued isLine isGap]
          obtain ⟨next, texts, rest⟩ :=
            List.exists_cons_of_ne_nil (continued_ne_nil (List.cons_ne_nil second others))
          have noGap : ∀ character ∈ ([] : List Char), Text.isBlank character = true := nofun
          rw [rest]
          apply Reader.Completes.line
          simpa using ih areLines noGap rest (pieces ++ [line.toList])

/-- A line of a body ends with a character that is no blank. -/
theorem last_continued (areLines : ∀ line ∈ body, IsLine line.toList) :
    ∀ text ∈ continued body, text ≠ [] ∧
      ∀ character ∈ text.getLast?, Text.isBlank character = false := by
  induction body with
  | nil => nofun
  | cons line others ih =>
      obtain ⟨isLine, areLines⟩ := List.forall_mem_cons.mp areLines
      cases others with
      | nil => exact List.forall_mem_singleton.mpr ⟨isLine.nonempty, isLine.trimmed.last⟩
      | cons second others =>
          refine List.forall_mem_cons.mpr ⟨⟨by simp, ?_⟩, ih areLines⟩
          intro character isLast
          obtain rfl : '\\' = character := by simpa using isLast
          decide

/-! ### Definitions -/

variable {name : String} {parameters : List String} {reader later : Reader} {text : String}

/-- A definition up to its body. Without parameters there are no parentheses. -/
def front (name : String) (parameters : List String) : List Char :=
  "#define ".toList ++
    ((if parameters = [] then name else signature name parameters).toList ++ [' '])

/-- The lines of a definition. -/
def written (name : String) (parameters body : List String) : List (List Char) :=
  (continued body).modifyHead (front name parameters ++ ·)

/-- What stands behind the name in the first line. -/
def tail (parameters : List String) (first : List Char) : List Char :=
  if parameters = [] then ' ' :: first
  else '(' :: ((Text.join ", " parameters).toList ++ ')' :: ' ' :: first)

theorem front_append (name : String) (parameters : List String) (first : List Char) :
    front name parameters ++ first =
      "#define ".toList ++ (name.toList ++ tail parameters first) := by
  unfold front tail
  split
  · simp
  · simp [signature]

/-- The line ends with the first line of the body. -/
theorem trimEnd_tail (parameters : List String) (nonempty : first ≠ [])
    (visible : ∀ character ∈ first.getLast?, Text.isBlank character = false) :
    Text.trimEnd (tail parameters first) = tail parameters first := by
  apply Text.dropEndWhile_self
  intro character isLast
  apply visible
  have ending : ∃ opening, tail parameters first = opening ++ first := by
    unfold tail
    split
    · exact ⟨[' '], rfl⟩
    · exact ⟨'(' :: ((Text.join ", " parameters).toList ++ [')', ' ']), by simp⟩
  obtain ⟨opening, shape⟩ := ending
  rwa [shape, List.getLast?_append_of_ne_nil _ nonempty] at isLast

theorem apart_tail (parameters : List String) (first : List Char) :
    Apart (tail parameters first) := by
  unfold tail
  split <;> exact apart_cons (by decide)

/-- Behind the name, the parameters are read back if there are any, and then the body is gathered
from its first line on. -/
theorem read_tail (areParameters : ∀ parameter ∈ parameters, IsParameter parameter)
    (gathered : reader.gather continueOn (continueOn [] (' ' :: first)) = .ok (text, later)) :
    read (tail parameters first) reader = .ok (some (parameters, text), later) := by
  unfold tail
  split
  · next none =>
      subst none
      simp only [read, gathered, bind, Except.bind, pure, Except.pure]
      rfl
  · have list := ParameterList.scan_join areParameters [] (' ' :: first)
    simp only [read, ParameterList.read, list, Reader.gather, List.nil_append, gathered, bind,
      Except.bind, pure, Except.pure]

end MacroBody

variable {name : String} {parameters body : List String} {more : List RawLine} {reader : Reader}

/-- The first line of a definition has the form of one. So what is gathered for its body is
recorded, and the macro stays unseen by a plain reader. -/
theorem LineOutcome.ofLine_of_macro {line : SourceLine} {first : List Char} {text : String}
    {later : Reader} (isName : IsRun name.toList)
    (areParameters : ∀ parameter ∈ parameters, IsParameter parameter)
    (opens : line.shown = MacroBody.front name parameters ++ first) (nonempty : first ≠ [])
    (visible : ∀ character ∈ first.getLast?, Text.isBlank character = false)
    (gathered : reader.gather MacroBody.continueOn (MacroBody.continueOn [] (' ' :: first)) =
      .ok (text, later)) (plain : later.Plain) (languageSeen : Bool) (context : Context) :
    ofLine true languageSeen context line reader =
      ⟨[.declaration name context.comment line.number (.macroDefinition parameters text)],
        languageSeen, .ok ({ context with comment := "" }, later)⟩ := by
  have writes : WritesMacro name (MacroBody.tail parameters first) line.shown := by
    rw [opens, MacroBody.front_append]
    exact writesMacro_define isName (MacroBody.apart_tail parameters first)
  have finish : MacroBody.read (MacroBody.tail parameters first) reader >>=
      Recognised.finishMacro context line.number name =
        Recognised.ofLine
          (context.record line.number (some (name, .macroDefinition parameters text))) later := by
    rw [MacroBody.read_tail areParameters gathered]
    change Recognised.ofLine _ (later.define _) = _
    rw [Reader.define_of_plain plain]
  rw [ofLine_of_writesMacro writes, MacroBody.trimEnd_tail parameters nonempty visible, finish]
  rfl

namespace FileOutcome

/-- A macro that is written out is recorded with its name, its parameters and its body, and the file
is read on behind the last line of the body. -/
theorem ofLines_of_macro (isName : IsRun name.toList)
    (areParameters : ∀ parameter ∈ parameters, IsParameter parameter) (filled : body ≠ [])
    (areLines : ∀ line ∈ body, MacroBody.IsLine line.toList)
    (offers : reader.Offers (MacroBody.written name parameters body) more) (languageSeen : Bool)
    (context : Context) :
    ∃ later : Reader, later.Plain ∧ later.source.ahead = more ∧
      later.number = reader.number + body.length ∧
        ofLines true languageSeen context reader =
          (ofLines true languageSeen { context with comment := "" } later).prepend
            [.declaration name context.comment (reader.number + 1)
              (.macroDefinition parameters (Text.join "\n" body))] := by
  obtain ⟨first, texts, shape⟩ := List.exists_cons_of_ne_nil (MacroBody.continued_ne_nil filled)
  obtain ⟨⟨nonempty, visible⟩, visibleLater⟩ :=
    List.forall_mem_cons.mp (shape ▸ MacroBody.last_continued areLines)
  have writes : MacroBody.written name parameters body =
      (MacroBody.front name parameters ++ first) :: texts := by
    rw [MacroBody.written, shape, List.modifyHead_cons]
  rw [writes] at offers
  have noReturns : ∀ text ∈ (MacroBody.front name parameters ++ first) :: texts,
      text.getLast? ≠ some '\r' := by
    refine List.forall_mem_cons.mpr ⟨fun isLast => ?_, fun text isLater isLast => ?_⟩
    · rw [List.getLast?_append_of_ne_nil _ nonempty] at isLast
      exact absurd Text.isBlank_return (Bool.eq_false_iff.mp (visible '\r' isLast))
    · have visibleEnd := (visibleLater text isLater).2 '\r' isLast
      exact absurd Text.isBlank_return (Bool.eq_false_iff.mp visibleEnd)
  have isGap : ∀ character ∈ [' '], Text.isBlank character = true :=
    List.forall_mem_singleton.mpr Text.isBlank_space
  have completes := MacroBody.completes_of_continued areLines isGap shape []
  have sameText : String.ofList (['\n'].intercalate ([] ++ body.map String.toList)) =
      Text.join "\n" body := by
    rw [← String.toList_inj]
    simp [Text.join, String.toList_intercalate]
  rw [sameText] at completes
  rw [← MacroBody.length_continued body, shape]
  apply ofLines_of_completes offers noReturns completes
  intro line behind later number opens gathered plain
  rw [← number]
  exact LineOutcome.ofLine_of_macro isName areParameters opens nonempty visible gathered plain
    languageSeen context

/-- A header that begins with a macro, the body of which has two lines. -/
def reachReader : Reader :=
  .ofContent "reach.h" "#define REACH(obj, [args]) (obj) \\\n.reach(args)\n#endif\n".toUTF8.toList
    none none

/-- A macro with two parameters and a body of two lines is read back, and the reader stands behind
its second line. -/
theorem ofLines_of_reach :
    IsRun "REACH".toList ∧ (∀ parameter ∈ ["obj", "[args]"], IsParameter parameter) ∧
      (∀ line ∈ ["(obj)", ".reach(args)"], MacroBody.IsLine line.toList) ∧
      reachReader.Offers (MacroBody.written "REACH" ["obj", "[args]"] ["(obj)", ".reach(args)"])
        [⟨3, "#endif".toList, none⟩] ∧
      ∃ later : Reader, later.Plain ∧ later.source.ahead = [⟨3, "#endif".toList, none⟩] ∧
        later.number = 2 ∧ ofLines true false .start reachReader =
          (ofLines true false .start later).prepend
            [.declaration "REACH" "" 1
              (.macroDefinition ["obj", "[args]"] "(obj)\n.reach(args)")] := by
  have isName : IsRun "REACH".toList := by decide
  have isWord : IsRun "obj".toList := by decide
  have areParameters : ∀ parameter ∈ ["obj", "[args]"], IsParameter parameter := by
    simp only [List.forall_mem_cons]
    exact ⟨.name isWord, @IsParameter.list "args" (by decide), nofun⟩
  have areLines : ∀ line ∈ ["(obj)", ".reach(args)"], MacroBody.IsLine line.toList := by
    simp only [List.forall_mem_cons]
    constructor
    · exact ⟨by decide, ⟨by rintro _ ⟨⟩; decide, by rintro _ ⟨⟩; decide⟩, by decide⟩
    · refine ⟨⟨by decide, ⟨by rintro _ ⟨⟩; decide, by rintro _ ⟨⟩; decide⟩, by decide⟩, nofun⟩
  have offers : reachReader.Offers
      (MacroBody.written "REACH" ["obj", "[args]"] ["(obj)", ".reach(args)"])
      [⟨3, "#endif".toList, none⟩] := by
    refine ⟨Reader.plain_ofContent _ _ _, reachReader.source.ahead.take 2, ?_, ?_, ?_⟩
    all_goals decide +kernel
  exact ⟨isName, areParameters, areLines, offers,
    ofLines_of_macro isName areParameters (by simp) areLines offers false .start⟩

end FileOutcome

end TadsReference
