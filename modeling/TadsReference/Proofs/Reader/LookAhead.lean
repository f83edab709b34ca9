import Mathlib.Order.Bounds.Basic
import TadsReference.Proofs.Reader.Accounting
import TadsReference.Proofs.Text.DecodedLines

/-!
# Lines that are read ahead

A raw line in which an argument list is open takes in as few of the lines behind it as will do. If
no number of them will do, the raw line is expanded alone, and whoever calls the reader cannot tell
that lines were read ahead: `looksAhead_nextLine`.
-/

namespace TadsReference

namespace LineSource

variable {source first second behind : LineSource} {line : RawLine}

/-- The source when the next lines have been read. -/
def skip : (count : Nat) → LineSource → LineSource
  | 0, source => source
  | count + 1, source =>
      match source.read? with
      | none => source
      | some (_, behind) => behind.skip count

theorem ahead_skip (count : Nat) (source : LineSource) :
    (source.skip count).ahead = source.ahead.drop count := by
  induction count generalizing source with
  | zero => rfl
  | succ count ih =>
      rw [skip]
      cases read : source.read? with
      | none => simp [ahead_of_read?_none read]
      | some found => simp [ahead_of_read? read, ih]

/-- The number of a source is that of the last line that was read from it. -/
theorem number_skip (count : Nat) (source : LineSource) :
    (source.skip count).number =
      ((source.ahead.take count).getLast?.map (·.number)).getD source.number := by
  induction count generalizing source with
  | zero => rfl
  | succ count ih =>
      rw [skip]
      cases read : source.read? with
      | none => simp [ahead_of_read?_none read]
      | some found =>
          simp only [ahead_of_read? read, List.take_succ_cons, List.getLast?_cons, ih,
            number_of_read? read]
          cases (found.2.ahead.take count).getLast? <;> rfl

/-- Two sources from which the same lines will be read. -/
structure Alike (first second : LineSource) : Prop where
  ahead : first.ahead = second.ahead
  number : first.number = second.number

/-- The next line depends on nothing but the lines that are ahead. -/
theorem read?_cases (source : LineSource) :
    (source.ahead = [] ∧ source.read? = none) ∨
      ∃ line behind, source.ahead = line :: behind.ahead ∧ behind.number = line.number ∧
        source.read? = some (line, behind) := by
  cases read : source.read? with
  | none => exact .inl ⟨ahead_of_read?_none read, rfl⟩
  | some found =>
      exact .inr ⟨found.1, found.2, ahead_of_read? read, number_of_read? read, rfl⟩

end LineSource

namespace Reader

variable {scope : MacroScope} {raw line : RawLine} {joined following : List RawLine} {count : Nat}

/-! ### How many lines are joined -/

/-- With the next lines joined to it, a raw line can be expanded: there are so many lines, at most
16, none of them is blank, no line but the last ends with a semicolon, and no argument list is left
open. -/
structure Settles (scope : MacroScope) (raw : RawLine) (following : List RawLine) (count : Nat) :
    Prop where
  limit : count ≤ 16
  exist : count ≤ following.length
  filled : ∀ line ∈ following.take count, Text.isBlankText line.text = false
  goesOn : ∀ line ∈ (raw :: following).take count, endsStatement line.text = false
  decided : scope.expandLine (joinedText raw (following.take count)) ≠ .ok .incomplete

/-- How many lines are joined at the least. -/
def Joining (scope : MacroScope) (raw : RawLine) (following : List RawLine) (count : Nat) : Prop :=
  IsLeast {count | Settles scope raw following count} count

/-- A line may be joined if fewer than 16 have been joined so far, and the last of them does not end
a statement. -/
theorem mayJoin_iff :
    mayJoin raw joined = true ↔
      joined.length < 16 ∧ endsStatement (joined.getLast?.getD raw).text = false := by
  rw [mayJoin, Bool.and_eq_true, decide_eq_true_iff, Bool.not_eq_true', joinLimit]

/-- The last of the lines that have been taken. -/
theorem getElem?_cons_eq_getLast? (inside : count ≤ following.length) :
    (raw :: following)[count]? = some ((following.take count).getLast?.getD raw) := by
  cases count with
  | zero => rfl
  | succ count => simp [List.getLast?_take, List.getElem?_eq_getElem (Nat.lt_of_succ_le inside)]

theorem mem_take_iff {lines : List RawLine} :
    line ∈ lines.take count ↔ ∃ index < count, lines[index]? = some line := by
  simp only [List.mem_iff_getElem?, List.getElem?_take]
  apply exists_congr
  intro index
  by_cases inside : index < count <;> simp [inside]

/-- Line by line: up to each of the lines that are joined, one more may be joined, and it is not
blank. -/
theorem settles_iff :
    Settles scope raw following count ↔ count ≤ following.length ∧
      (∀ index < count, mayJoin raw (following.take index) = true ∧
        ∀ line, following[index]? = some line → Text.isBlankText line.text = false) ∧
      scope.expandLine (joinedText raw (following.take count)) ≠ .ok .incomplete := by
  constructor
  · intro settles
    refine ⟨settles.exist, ?_, settles.decided⟩
    intro index before
    have inside : index ≤ following.length := Nat.le_trans (Nat.le_of_lt before) settles.exist
    constructor
    · rw [mayJoin_iff, List.length_take_of_le inside]
      refine ⟨Nat.lt_of_lt_of_le before settles.limit, settles.goesOn _ ?_⟩
      exact mem_take_iff.mpr ⟨index, before, getElem?_cons_eq_getLast? inside⟩
    · intro line isNext
      exact settles.filled line (mem_take_iff.mpr ⟨index, before, isNext⟩)
  · rintro ⟨exist, joins, decided⟩
    refine ⟨?_, exist, ?_, ?_, decided⟩
    · cases count with
      | zero => exact Nat.zero_le _
      | succ count =>
          have room := (mayJoin_iff.mp (joins count (Nat.lt_succ_self _)).1).1
          rw [List.length_take_of_le (Nat.le_of_succ_le exist)] at room
          exact room
    · intro line isJoined
      rcases mem_take_iff.mp isJoined with ⟨index, before, isNext⟩
      exact (joins index before).2 line isNext
    · intro line isBefore
      rcases mem_take_iff.mp isBefore with ⟨index, before, isLine⟩
      have inside : index ≤ following.length := Nat.le_trans (Nat.le_of_lt before) exist
      rw [getElem?_cons_eq_getLast? inside] at isLine
      rw [← Option.some.inj isLine]
      exact (mayJoin_iff.mp (joins index before).1).2

/-- The lines that have been joined one by one. -/
theorem Joins.at (joins : Joins scope raw joined) {index : Nat} (inside : index < joined.length) :
    scope.expandLine (joinedText raw (joined.take index)) = .ok .incomplete ∧
      mayJoin raw (joined.take index) = true ∧ Text.isBlankText joined[index].text = false := by
  apply joins
  rw [List.take_append_getElem inside]
  exact List.take_prefix _ _

/-- Lines that are joined until an argument list is closed are as few as will do. With fewer lines
the expansion was incomplete, which is why the reader went on. -/
theorem joining_of_joins (joins : Joins scope raw joined) (rest : List RawLine)
    (decided : scope.expandLine (joinedText raw joined) ≠ .ok .incomplete) :
    Joining scope raw (joined ++ rest) joined.length := by
  have front {index : Nat} (inside : index ≤ joined.length) :
      (joined ++ rest).take index = joined.take index := List.take_append_of_le_length inside
  constructor
  · refine settles_iff.mpr ⟨by simp, ?_, by simpa using decided⟩
    intro index inside
    have here := joins.at inside
    rw [front (Nat.le_of_lt inside)]
    refine ⟨here.2.1, ?_⟩
    intro line isNext
    rw [List.getElem?_append_left inside, List.getElem?_eq_getElem inside] at isNext
    rw [← Option.some.inj isNext]
    exact here.2.2
  · intro fewer settles
    apply Nat.le_of_not_lt
    intro inside
    apply settles.decided
    rw [front (Nat.le_of_lt inside)]
    exact (joins.at inside).1

/-- If joining stops with an argument list open, no number of lines will do. The line at which
joining stopped would have been joined in any larger number of them. -/
theorem not_settles_of_staysOpen (staysOpen : StaysOpen scope raw following) :
    ¬Settles scope raw following count := by
  rcases staysOpen with ⟨joined, rest, rfl, joins, incomplete, stops⟩
  intro settles
  rcases settles_iff.mp settles with ⟨exist, may, decided⟩
  have front {index : Nat} (inside : index ≤ joined.length) :
      (joined ++ rest).take index = joined.take index := List.take_append_of_le_length inside
  rcases Nat.lt_trichotomy count joined.length with fewer | rfl | more
  · rw [front (Nat.le_of_lt fewer)] at decided
    exact decided (joins.at fewer).1
  · rw [front (Nat.le_refl _), List.take_length] at decided
    exact decided incomplete
  · rcases may joined.length more with ⟨mayStop, filled⟩
    rw [front (Nat.le_refl _), List.take_length] at mayStop
    rw [List.length_append] at exist
    cases rest with
    | nil => simp at exist; omega
    | cons line rest =>
        have blank := stops mayStop line rfl
        rw [filled line (by simp)] at blank
        contradiction

/-- What becomes of a raw line with the lines behind it, and how many of these go into it. -/
inductive Takes (scope : MacroScope) (raw : RawLine) (following : List RawLine) :
    (count : Nat) → (outcome : Except Failure (List Char)) → Prop
  | joined {count : Nat} {outcome : Except Failure (List Char)}
      (joining : Joining scope raw following count)
      (expands : scope.expandLine (joinedText raw (following.take count)) =
        outcome.map .complete) : Takes scope raw following count outcome
  | alone (none : ∀ count, ¬Settles scope raw following count) :
      Takes scope raw following 0 (scope.expandAvailable raw.text)

theorem map_complete_inj {outcome other : Except Failure (List Char)}
    (same : outcome.map Expansion.complete = other.map Expansion.complete) : outcome = other := by
  cases outcome with
  | error cause => cases other <;> simp_all [Except.map]
  | ok text => cases other <;> simp_all [Except.map]

/-- What becomes of a raw line is determined by the lines behind it, and so is how many of them go
into it. -/
theorem Takes.unique {outcome otherOutcome : Except Failure (List Char)} {other : Nat}
    (takes : Takes scope raw following count outcome)
    (takesOther : Takes scope raw following other otherOutcome) :
    other = count ∧ otherOutcome = outcome := by
  cases takes with
  | joined joining expands =>
      cases takesOther with
      | joined joiningOther expandsOther =>
          obtain rfl := joiningOther.unique joining
          exact ⟨rfl, map_complete_inj (expandsOther.symm.trans expands)⟩
      | alone none => exact absurd joining.1 (none _)
  | alone none =>
      cases takesOther with
      | joined joiningOther _ => exact absurd joiningOther.1 (none _)
      | alone _ => exact ⟨rfl, rfl⟩

/-! ### Expanding a raw line -/

theorem Passes.alike_skip {source later : LineSource}
    (passes : Passes raw joined source.ahead later)
    (number : source.number = raw.number) : later.Alike (source.skip joined.length) := by
  constructor
  · rw [LineSource.ahead_skip, passes.ahead_eq, List.drop_left]
  · rw [LineSource.number_skip, passes.ahead_eq, List.take_left, passes.number_eq, number]
    cases joined.getLast? <;> rfl

/-- Expanding a raw line takes the least number of lines with which it settles, or none. What is
ahead of the source by then are the lines behind those. -/
theorem exists_takes_expandRaw (scope : MacroScope) (raw : RawLine) (source : LineSource)
    (number : source.number = raw.number) :
    ∃ count, Takes scope raw source.ahead count (expandRaw (some scope) raw source).1 ∧
      (expandRaw (some scope) raw source).2.Alike (source.skip count) := by
  rcases attempt_expandRaw (some scope) raw source number with ⟨joined, passes, attempt⟩
  have alike := passes.alike_skip number
  refine ⟨joined.length, ?_, alike⟩
  have taken : source.ahead.take joined.length = joined := by
    rw [passes.ahead_eq, List.take_left]
  generalize (expandRaw (some scope) raw source).2 = later at passes attempt
  generalize (expandRaw (some scope) raw source).1 = outcome at attempt
  cases attempt with
  | expanded joins complete =>
      apply Takes.joined
      · rw [passes.ahead_eq]
        exact joining_of_joins joins _ (by simp [complete])
      · rw [taken, complete]
        rfl
  | failed joins failure =>
      apply Takes.joined
      · rw [passes.ahead_eq]
        exact joining_of_joins joins _ (by simp [failure])
      · rw [taken, failure]
        rfl
  | alone staysOpen =>
      apply Takes.alone
      rw [passes.ahead_eq]
      exact fun count => not_settles_of_staysOpen staysOpen

theorem alike_skip {first second : LineSource} (alike : first.Alike second) (count : Nat) :
    (first.skip count).Alike (second.skip count) := by
  constructor
  · rw [LineSource.ahead_skip, LineSource.ahead_skip, alike.ahead]
  · rw [LineSource.number_skip, LineSource.number_skip, alike.ahead, alike.number]

/-- Expansion depends on nothing but the lines that are ahead. -/
theorem alike_expandRaw (macros : Option MacroScope) {first second : LineSource}
    (alike : first.Alike second) (number : first.number = raw.number) :
    (expandRaw macros raw first).1 = (expandRaw macros raw second).1 ∧
      (expandRaw macros raw first).2.Alike (expandRaw macros raw second).2 := by
  cases macros with
  | none => exact ⟨rfl, alike⟩
  | some scope =>
      rcases exists_takes_expandRaw scope raw first number with ⟨count, takes, behind⟩
      rcases exists_takes_expandRaw scope raw second (alike.number ▸ number)
        with ⟨other, takesOther, behindOther⟩
      rw [alike.ahead] at takes
      rcases takes.unique takesOther with ⟨sameCount, outcome⟩
      subst sameCount
      have skipped := alike_skip alike other
      exact ⟨outcome.symm, behind.ahead.trans (skipped.ahead.trans behindOther.ahead.symm),
        behind.number.trans (skipped.number.trans behindOther.number.symm)⟩

/-! ### Readers at the same place -/

/-- Two readers that hand out the same from now on. -/
structure SamePlace (first second : Reader) : Prop where
  file : first.file = second.file
  pending : first.pending = second.pending
  macros : first.macros = second.macros
  source : first.source.Alike second.source

section NextLine

variable {reader : Reader} {behind source : LineSource} (emitted : reader.pending = [])
  (read : reader.source.read? = some (raw, behind))

include emitted read

theorem nextLine_of_error {cause : Failure}
    (expands : expandRaw reader.macros raw behind = (.error cause, source)) :
    reader.nextLine = (.error cause, { reader with source }) := by
  simp [nextLine, emitted, read, expands]

theorem nextLine_of_ok {text : List Char}
    (expands : expandRaw reader.macros raw behind = (.ok text, source)) :
    reader.nextLine = (.ok (some ⟨source.number, (pieces text).headD [], raw.mirror⟩),
      { reader with source, pending := (pieces text).tail }) := by
  simp [nextLine, emitted, read, expands]

end NextLine

section SamePlace

variable {first second : Reader}

/-- Two readers that read the same raw line make the same of it, for that depends only on the lines
that are ahead. -/
theorem SamePlace.nextLine_of_read? (same : SamePlace first second) {left right : LineSource}
    (emitted : first.pending = []) (alike : left.Alike right) (number : left.number = raw.number)
    (readLeft : first.source.read? = some (raw, left))
    (readRight : second.source.read? = some (raw, right)) :
    first.nextLine.1 = second.nextLine.1 ∧ SamePlace first.nextLine.2 second.nextLine.2 := by
  have emittedSecond := same.pending.symm.trans emitted
  rcases alike_expandRaw first.macros alike number with ⟨outcome, behind⟩
  rcases expands : expandRaw first.macros raw left with ⟨cause | text, source⟩
  all_goals
    rcases expandsRight : expandRaw first.macros raw right with ⟨outcomeRight, sourceRight⟩
    rw [expands, expandsRight] at outcome behind
    obtain rfl : _ = outcomeRight := outcome
    rw [same.macros] at expandsRight
  · rw [nextLine_of_error emitted readLeft expands,
      nextLine_of_error emittedSecond readRight expandsRight]
    exact ⟨rfl, same.file, same.pending, same.macros, behind⟩
  · rw [nextLine_of_ok emitted readLeft expands,
      nextLine_of_ok emittedSecond readRight expandsRight]
    have sameNumber : source.number = sourceRight.number := behind.number
    rw [sameNumber]
    exact ⟨rfl, same.file, rfl, same.macros, behind⟩

/-- Two readers at the same place hand out the same line, and are at the same place again. Lines
that have been made of an earlier one are handed out first. -/
theorem SamePlace.nextLine (same : SamePlace first second) :
    first.nextLine.1 = second.nextLine.1 ∧ SamePlace first.nextLine.2 second.nextLine.2 := by
  cases emitted : first.pending with
  | cons text pending =>
      have number : first.number = second.number := same.source.number
      have emittedSecond := same.pending.symm.trans emitted
      rw [nextLine_of_pending emitted, nextLine_of_pending emittedSecond, number]
      exact ⟨rfl, same.file, rfl, same.macros, same.source⟩
  | nil =>
      have ahead := same.source.ahead
      rcases first.source.read?_cases with ⟨ended, read⟩ | ⟨raw, left, isFirst, number, read⟩
      · rcases second.source.read?_cases with ⟨_, readSecond⟩ | ⟨_, _, isFirst, _⟩
        · have none : first.nextLine = (.ok none, first) := by simp [Reader.nextLine, emitted, read]
          have noneSecond : second.nextLine = (.ok Option.none, second) := by
            simp [Reader.nextLine, same.pending.symm.trans emitted, readSecond]
          rw [none, noneSecond]
          exact ⟨rfl, same⟩
        · rw [ended, isFirst] at ahead
          contradiction
      · rcases second.source.read?_cases
          with ⟨ended, _⟩ | ⟨_, right, isSecond, numberRight, readRight⟩
        · rw [ended, isFirst] at ahead
          contradiction
        · rw [isFirst, isSecond] at ahead
          obtain ⟨rfl, rest⟩ := List.cons.inj ahead
          exact same.nextLine_of_read? emitted ⟨rest, number.trans numberRight.symm⟩ number read
            readRight

/-- Every call has the same answer from both readers, under the same number. -/
theorem SamePlace.answer (same : SamePlace first second) (call : Call) :
    (call.answer first).1 = (call.answer second).1 ∧
      SamePlace (call.answer first).2 (call.answer second).2 := by
  by_cases reads : call.reads = true
  · rcases same.nextLine with ⟨result, behind⟩
    rcases read : first.nextLine with ⟨cause | _ | line, left⟩
    all_goals
      rcases readSecond : second.nextLine with ⟨resultSecond, right⟩
      rw [read, readSecond] at result behind
      simp only at result behind
      subst result
    · rw [answer_of_error reads read, answer_of_error reads readSecond]
      exact ⟨rfl, behind⟩
    · rw [answer_of_none reads read, answer_of_none reads readSecond]
      refine ⟨?_, behind⟩
      cases call with
      | require => simp only [Call.refuse, number, behind.file, behind.source.number]
      | next => rfl
      | define => contradiction
    · rw [answer_of_line reads read, answer_of_line reads readSecond]
      exact ⟨rfl, behind⟩
  · cases call with
    | define definition =>
        refine ⟨rfl, same.file, same.pending, ?_, same.source⟩
        exact congrArg (Option.map (MacroScope.define definition)) same.macros
    | next => simp [Call.reads] at reads
    | require => simp [Call.reads] at reads

/-- Two readers that cannot be told apart: whatever calls are made on them, they give the same
answers under the same numbers. -/
def Indistinguishable (first second : Reader) : Prop :=
  ∀ calls : List Call,
    (first.exchanges calls).map (fun exchange => (exchange.answer, exchange.later.number)) =
      (second.exchanges calls).map fun exchange => (exchange.answer, exchange.later.number)

/-- The induction is on the calls, each of which leaves both readers at the same place. -/
theorem SamePlace.indistinguishable (same : SamePlace first second) :
    Indistinguishable first second := by
  intro calls
  induction calls generalizing first second with
  | nil => rfl
  | cons call calls ih =>
      rcases same.answer call with ⟨answer, behind⟩
      have number : (call.answer first).2.number = (call.answer second).2.number :=
        behind.source.number
      rw [exchanges_cons, exchanges_cons, List.map_cons, List.map_cons, ih behind, answer, number]

end SamePlace

/-! ### Lines of an expansion -/

/-- A text divided at its line feeds. -/
structure Lines (text : List Char) (lines : List (List Char)) : Prop where
  joined : ['\n'].intercalate lines = text
  undivided : ∀ line ∈ lines, '\n' ∉ line

/-- A text is divided at its line feeds into lines, of which there is always one. -/
theorem exists_pieces (text : List Char) : ∃ first others, Lines text (first :: others) ∧
    pieces text = (first :: others).map Text.dropReturns := by
  cases parts : text.splitOn '\n' with
  | nil => exact absurd parts (List.splitOn_ne_nil _ _)
  | cons first others =>
      refine ⟨first, others, ⟨?_, ?_⟩, by rw [pieces, parts]; rfl⟩
      · rw [← parts, List.intercalate_splitOn]
      · intro line isLine
        rw [← parts] at isLine
        exact Text.not_mem_of_mem_splitOn isLine

/-- What a reader answers when it makes a text of a raw line and the next `count` lines: its lines
one after the other, without the carriage returns at their ends. It goes on as if it had read these
lines and no others. -/
structure HandsOver (reader : Reader) (raw : RawLine) (behind : LineSource) (count : Nat)
    (outcome : Except Failure (List Char)) : Prop where
  consumed : reader.nextLine.2.source.ahead = behind.ahead.drop count
  failed : ∀ cause, outcome = .error cause → reader.nextLine.1 = .error cause ∧
    Indistinguishable reader.nextLine.2 { reader with source := behind.skip count }
  delivered : ∀ text, outcome = .ok text → ∃ first others, Lines text (first :: others) ∧
    reader.nextLine.1 = .ok (some ⟨(behind.skip count).number,
      Text.dropReturns first, raw.mirror⟩) ∧
    (∀ calls : List Call, calls.countP Call.reads ≤ others.length →
      (reader.nextLine.2.exchanges calls).filterMap Exchange.line? =
        (others.take (calls.countP Call.reads)).map fun line =>
          ((behind.skip count).number, Text.dropReturns line)) ∧
    Indistinguishable reader.nextLine.2 { reader with
      source := behind.skip count
      pending := others.map Text.dropReturns }

/-- A text that is made of a raw line is handed over line by line, the first with the raw line's
mirror and the others from what the reader still holds. -/
theorem handsOver_of_expandRaw {reader : Reader} {behind : LineSource}
    (emitted : reader.pending = []) (read : reader.source.read? = some (raw, behind))
    (alike : (expandRaw reader.macros raw behind).2.Alike (behind.skip count)) :
    HandsOver reader raw behind count (expandRaw reader.macros raw behind).1 := by
  rcases expands : expandRaw reader.macros raw behind with ⟨cause | text, source⟩
  all_goals
    rw [expands] at alike
    have ahead : source.ahead = behind.ahead.drop count := by
      rw [← LineSource.ahead_skip]
      exact alike.ahead
    have number : source.number = (behind.skip count).number := alike.number
  · have next := nextLine_of_error emitted read expands
    refine ⟨by rw [next, ← ahead], ?_, by simp⟩
    rintro _ ⟨⟩
    rw [next]
    exact ⟨rfl, SamePlace.indistinguishable ⟨rfl, rfl, rfl, alike⟩⟩
  · have next := nextLine_of_ok emitted read expands
    refine ⟨by rw [next, ← ahead], by simp, ?_⟩
    rintro _ ⟨⟩
    rcases exists_pieces text with ⟨first, others, lines, divided⟩
    rw [next, divided, ← number]
    refine ⟨first, others, lines, rfl, ?_, SamePlace.indistinguishable ⟨rfl, rfl, rfl, alike⟩⟩
    intro calls few
    rw [lines_of_pending _ calls (by simpa using few)]
    simp [List.map_take, Reader.number, Function.comp_def]

/-- A reader looks ahead for the least number of lines with which a raw line can be expanded. If
there is one, so many lines are consumed with the raw line, and else none is. Which lines were read
in vain does not show, since they are handed back. -/
theorem looksAhead_nextLine {reader : Reader} {scope : MacroScope} {raw : RawLine}
    {behind : LineSource} (emitted : reader.pending = []) (expands : reader.macros = some scope)
    (read : reader.source.read? = some (raw, behind)) :
    (∀ count, IsLeast {count | Settles scope raw behind.ahead count} count →
      ∃ outcome, scope.expandLine (joinedText raw (behind.ahead.take count)) =
          outcome.map .complete ∧ HandsOver reader raw behind count outcome) ∧
      ((∀ count, ¬Settles scope raw behind.ahead count) →
        HandsOver reader raw behind 0 (scope.expandAvailable raw.text)) := by
  rcases exists_takes_expandRaw scope raw behind (LineSource.number_of_read? read)
    with ⟨taken, takes, alike⟩
  rw [← expands] at takes alike
  have handsOver := handsOver_of_expandRaw emitted read alike
  generalize (expandRaw reader.macros raw behind).1 = outcome at takes handsOver
  constructor
  · intro count joining
    cases takes with
    | joined joiningTaken result =>
        obtain rfl := joiningTaken.unique joining
        exact ⟨outcome, result, handsOver⟩
    | alone none => exact absurd joining.1 (none count)
  · intro none
    cases takes with
    | joined joining _ => exact absurd joining.1 (none _)
    | alone _ => exact handsOver

/-- A scope with one macro that takes two arguments. -/
def pairMacros : MacroScope where
  definitions := [⟨"PAIR", ["a", "b"], "[a, b]"⟩]

/-- A reader in front of a line in which an argument list is open. -/
def pairReader : Reader :=
  ofContent "pairs.t" "x = PAIR(1,\n    2);\ny\n".toUTF8.toList none (some pairMacros)

/-- The line in which the list is open, and the source behind it. -/
def pairLine : RawLine × LineSource :=
  (⟨1, "x = PAIR(1,".toList, none⟩, ⟨[], "    2);\ny\n".toUTF8.toList, none, 1, 1⟩)

/-- The list is closed in the next line, which is consumed with the first one. -/
theorem looksAhead_pairReader :
    pairReader.pending = [] ∧ pairReader.macros = some pairMacros ∧
      pairReader.source.read? = some pairLine ∧
        IsLeast {count | Settles pairMacros pairLine.1 pairLine.2.ahead count} 1 ∧
          ∃ outcome, pairMacros.expandLine (joinedText pairLine.1 (pairLine.2.ahead.take 1)) =
            outcome.map .complete ∧ HandsOver pairReader pairLine.1 pairLine.2 1 outcome := by
  have read : pairReader.source.read? = some pairLine := by decide +kernel
  have settles : Settles pairMacros pairLine.1 pairLine.2.ahead 1 := by
    constructor <;> decide +kernel
  have waits : pairMacros.expandLine (joinedText pairLine.1 (pairLine.2.ahead.take 0)) =
      .ok .incomplete := by
    decide +kernel
  have least : IsLeast {count | Settles pairMacros pairLine.1 pairLine.2.ahead count} 1 := by
    refine ⟨settles, ?_⟩
    intro count settlesAlone
    rcases Nat.eq_zero_or_pos count with rfl | positive
    · exact absurd waits settlesAlone.decided
    · exact positive
  exact ⟨rfl, rfl, read, least, (looksAhead_nextLine rfl rfl read).1 1 least⟩

end Reader

end TadsReference
