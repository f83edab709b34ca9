import Mathlib.Order.WellFounded
import TadsReference.Proofs.Reader.Attempts

/-!
# Accounting for the raw lines of a file

Whatever calls are made on a reader, the lines that are still to be read are the raw lines behind
its number. Each call consumes the next few of them, so that none is lost and none is read twice.
-/

namespace TadsReference

namespace RawLine

/-- Each line is enumerated with the number behind its place, and with the line of the mirror that
stands at its place. -/
theorem getElem?_enumerate (number : Nat) (lines mirror : List (List Char)) (index : Nat) :
    (enumerate number lines mirror)[index]? =
      lines[index]?.map fun text => ⟨number + index + 1, text, mirror[index]?⟩ := by
  induction lines generalizing number mirror index with
  | nil => simp [enumerate]
  | cons line lines ih =>
      cases index with
      | zero => cases mirror <;> simp [enumerate]
      | succ index =>
          simp only [enumerate, List.getElem?_cons_succ, ih, List.getElem?_tail]
          congr 2
          funext text
          simp only [mk.injEq, and_true]
          omega

end RawLine

namespace Reader

/-- The calls that a reader answers. -/
inductive Call where
  | next
  | require
  | define (definition : MacroDefinition)

/-- The answers that a reader gives. -/
inductive Answer where
  | line (found : Option SourceLine)
  | text (text : List Char)
  | failed (cause : Failure)
  | defined

/-- The line that an answer hands out, with its number. A text stands for the line of the given
number. -/
def Answer.line? (number : Nat) : Answer → Option (Nat × List Char)
  | .line (some found) => some (found.number, found.text)
  | .text content => some (number, content)
  | _ => none

namespace Call

/-- Whether a call reads from the file. -/
def reads : Call → Bool
  | next => true
  | require => true
  | define _ => false

/-- The answer to a call, with the reader behind it. -/
def answer (call : Call) (reader : Reader) : Answer × Reader :=
  match call with
  | next =>
      match reader.nextLine with
      | (.ok found, later) => (.line found, later)
      | (.error cause, later) => (.failed cause, later)
  | require =>
      match reader.requireLine with
      | (.ok text, later) => (.text text, later)
      | (.error cause, later) => (.failed cause, later)
  | define definition => (.defined, reader.define definition)

/-- How a call that reads hands out a line. -/
def deliver (call : Call) (line : SourceLine) : Answer :=
  match call with
  | require => .text line.text
  | _ => .line (some line)

/-- How a call that reads answers at the end of the file. -/
def refuse (call : Call) (reader : Reader) : Answer :=
  match call with
  | require => .failed (.unexpectedEnd reader.file reader.number)
  | _ => .line none

@[simp] theorem line?_deliver (call : Call) (line : SourceLine) :
    (call.deliver line).line? line.number = some (line.number, line.text) := by
  cases call <;> rfl

@[simp] theorem line?_refuse (call : Call) (reader : Reader) (number : Nat) :
    (call.refuse reader).line? number = none := by
  cases call <;> rfl

end Call

/-- What a call may answer: the raw lines that it consumes are the next ones of the file, and its
answer is what an attempt to expand them gives. -/
inductive Serves (reader : Reader) : Call → (consumed : List RawLine) → Answer → Reader → Prop
  | define (definition : MacroDefinition) :
      Serves reader (.define definition) [] .defined (reader.define definition)
  | piece {call : Call} {text : List Char} {pending : List (List Char)} (reads : call.reads = true)
      (first : reader.pending = text :: pending) :
      Serves reader call [] (call.deliver ⟨reader.number, text, none⟩) { reader with pending }
  | finished {call : Call} (reads : call.reads = true) (emitted : reader.pending = [])
      (ended : reader.source.ahead = []) :
      Serves reader call [] (call.refuse reader) reader
  | failed {call : Call} {raw : RawLine} {joined following : List RawLine} {source : LineSource}
      {cause : Failure} (reads : call.reads = true) (emitted : reader.pending = [])
      (first : reader.source.ahead = raw :: following) (passes : Passes raw joined following source)
      (attempt : Attempt reader.macros raw joined source.ahead (.error cause)) :
      Serves reader call (raw :: joined) (.failed cause) { reader with source }
  | delivered {call : Call} {raw : RawLine} {joined following : List RawLine}
      {source : LineSource} {text : List Char} (reads : call.reads = true)
      (emitted : reader.pending = []) (first : reader.source.ahead = raw :: following)
      (passes : Passes raw joined following source)
      (attempt : Attempt reader.macros raw joined source.ahead (.ok text)) :
      Serves reader call (raw :: joined)
        (call.deliver ⟨source.number, (pieces text).headD [], raw.mirror⟩)
        { reader with source, pending := (pieces text).tail }

/-! ### One call -/

section Answers

variable {call : Call} {reader later : Reader}

theorem answer_of_line (reads : call.reads = true) {line : SourceLine}
    (read : reader.nextLine = (.ok (some line), later)) :
    call.answer reader = (call.deliver line, later) := by
  cases call with
  | next => simp [Call.answer, Call.deliver, read]
  | require => simp [Call.answer, Call.deliver, requireLine, read]
  | define => contradiction

theorem answer_of_none (reads : call.reads = true) (read : reader.nextLine = (.ok none, later)) :
    call.answer reader = (call.refuse later, later) := by
  cases call with
  | next => simp [Call.answer, Call.refuse, read]
  | require => simp [Call.answer, Call.refuse, requireLine, read]
  | define => contradiction

theorem answer_of_error (reads : call.reads = true) {cause : Failure}
    (read : reader.nextLine = (.error cause, later)) :
    call.answer reader = (.failed cause, later) := by
  cases call with
  | next => simp [Call.answer, read]
  | require => simp [Call.answer, requireLine, read]
  | define => contradiction

theorem answer_snd (reads : call.reads = true) : (call.answer reader).2 = reader.nextLine.2 := by
  match read : reader.nextLine with
  | (.ok (some line), later) => simp [answer_of_line reads read]
  | (.ok none, later) => simp [answer_of_none reads read]
  | (.error cause, later) => simp [answer_of_error reads read]

theorem nextLine_of_pending {text : List Char} {pending : List (List Char)}
    (first : reader.pending = text :: pending) :
    reader.nextLine = (.ok (some ⟨reader.number, text, none⟩), { reader with pending }) := by
  simp [nextLine, first]

theorem nextLine_of_remaining (ended : reader.remaining = (0, 0)) :
    reader.nextLine = (.ok none, reader) := by
  simp only [remaining, Prod.mk.injEq, List.length_eq_zero_iff] at ended
  cases read : reader.source.read? with
  | none => simp [nextLine, ended.2, read]
  | some found => simp [LineSource.ahead_of_read? read] at ended

/-- Every call answers as a call may. It hands out a line of an earlier expansion and consumes
nothing, or it makes an attempt at the raw line that comes next. -/
theorem serves_answer (call : Call) (reader : Reader) :
    ∃ consumed, Serves reader call consumed (call.answer reader).1 (call.answer reader).2 := by
  rcases reads : call.reads with _ | _
  · cases call with
    | define definition => exact ⟨[], .define definition⟩
    | next => contradiction
    | require => contradiction
  · cases emitted : reader.pending with
    | cons text pending =>
        simp only [answer_of_line reads (nextLine_of_pending emitted)]
        exact ⟨[], .piece reads emitted⟩
    | nil =>
        cases read : reader.source.read? with
        | none =>
            have ended := LineSource.ahead_of_read?_none read
            have none : reader.nextLine = (.ok none, reader) := by simp [nextLine, emitted, read]
            simp only [answer_of_none reads none]
            exact ⟨[], .finished reads emitted ended⟩
        | some found =>
            obtain ⟨raw, following⟩ := found
            have first := LineSource.ahead_of_read? read
            obtain ⟨joined, passes, attempt⟩ :=
              attempt_expandRaw reader.macros raw following (LineSource.number_of_read? read)
            refine ⟨raw :: joined, ?_⟩
            rcases expanded : expandRaw reader.macros raw following with ⟨cause | text, source⟩
            · rw [expanded] at passes attempt
              have failure : reader.nextLine = (.error cause, { reader with source }) := by
                simp [nextLine, emitted, read, expanded]
              simp only [answer_of_error reads failure]
              exact .failed reads emitted first passes attempt
            · rw [expanded] at passes attempt
              have line : reader.nextLine =
                  (.ok (some ⟨source.number, (pieces text).headD [], raw.mirror⟩),
                    { reader with source, pending := (pieces text).tail }) := by
                simp [nextLine, emitted, read, expanded]
              simp only [answer_of_line reads line]
              exact .delivered reads emitted first passes attempt

end Answers

/-! ### Readers of a numbered list of lines -/

/-- Whether each line has the number of its place. -/
def Numbered (lines : List RawLine) : Prop :=
  ∀ (index : Nat) (line : RawLine), lines[index]? = some line → line.number = index + 1

/-- Whether the lines ahead of a reader are the ones behind its number. -/
structure At (lines : List RawLine) (reader : Reader) : Prop where
  ahead_eq : reader.source.ahead = lines.drop reader.number
  number_le : reader.number ≤ lines.length
  /-- Lines of an expansion belong to a line that has been read. -/
  started : reader.pending ≠ [] → 0 < reader.number

section Step

variable {lines : List RawLine} {reader later : Reader} {call : Call} {consumed : List RawLine}
  {answer : Answer}

theorem Serves.ahead_eq (serves : Serves reader call consumed answer later) :
    reader.source.ahead = consumed ++ later.source.ahead := by
  cases serves with
  | define => rfl
  | piece => rfl
  | finished => rfl
  | failed _ _ first passes => simp [first, passes.ahead_eq]
  | delivered _ _ first passes => simp [first, passes.ahead_eq]

/-- The number of a source that has passed lines counts them. -/
theorem Passes.number_of_numbered (numbered : Numbered lines) {start : Nat} {raw : RawLine}
    {joined following : List RawLine} {source : LineSource}
    (passes : Passes raw joined following source) (first : lines.drop start = raw :: following) :
    source.number = start + (raw :: joined).length := by
  have last : lines[start + joined.length]? = some (joined.getLast?.getD raw) := by
    rw [← List.getElem?_drop, first, passes.ahead_eq, ← List.cons_append,
      List.getElem?_append_left (by simp), ← List.getLast?_cons, List.getLast?_eq_getElem?]
    simp
  rw [passes.number_eq, numbered _ _ last, List.length_cons]
  omega

/-- The number of a reader grows by the number of lines that a call consumes. -/
theorem Serves.number_eq (numbered : Numbered lines) (position : At lines reader)
    (serves : Serves reader call consumed answer later) :
    later.number = reader.number + consumed.length := by
  cases serves with
  | define => rfl
  | piece => rfl
  | finished => rfl
  | failed _ _ first passes =>
      exact passes.number_of_numbered numbered (position.ahead_eq ▸ first)
  | delivered _ _ first passes =>
      exact passes.number_of_numbered numbered (position.ahead_eq ▸ first)

/-- The lines ahead of a reader remain those behind its number, since a call consumes them from the
front and counts them. -/
theorem Serves.at (numbered : Numbered lines) (position : At lines reader)
    (serves : Serves reader call consumed answer later) : At lines later := by
  have number := serves.number_eq numbered position
  have split : lines.drop reader.number = consumed ++ later.source.ahead := by
    rw [← position.ahead_eq, serves.ahead_eq]
  constructor
  · rw [number, ← List.drop_drop, split, List.drop_left]
  · have length := congrArg List.length split
    have bound := position.number_le
    simp only [List.length_drop, List.length_append] at length
    omega
  · intro waiting
    cases serves with
    | define => exact position.started waiting
    | piece _ first => exact position.started (by simp [first])
    | finished => exact position.started waiting
    | failed _ emitted => contradiction
    | delivered =>
        rw [number, List.length_cons]
        omega

/-- A call hands out a line under the number that the reader has after it. A rest of an expansion
keeps the number of the reader, and a line that is read has that of the last raw line consumed for
it. -/
theorem Serves.number_of_line? (numbered : Numbered lines) (position : At lines reader)
    (serves : Serves reader call consumed answer later) {number : Nat} {text : List Char}
    (found : answer.line? later.number = some (number, text)) :
    number = later.number ∧ 0 < number := by
  cases serves with
  | define => simp [Answer.line?] at found
  | piece reads first =>
      have started := position.started (by simp [first])
      have same := found.symm.trans (Call.line?_deliver call ⟨reader.number, _, none⟩)
      simp only [Option.some.injEq, Prod.mk.injEq] at same
      exact ⟨same.1, same.1 ▸ started⟩
  | finished => simp at found
  | failed => simp [Answer.line?] at found
  | @delivered _ raw joined following source content reads emitted first passes =>
      have length := passes.number_of_numbered numbered (position.ahead_eq ▸ first)
      have positive : 0 < source.number := by
        rw [length, List.length_cons]
        omega
      have same := found.symm.trans (Call.line?_deliver call ⟨source.number, _, _⟩)
      simp only [Option.some.injEq, Prod.mk.injEq] at same
      exact ⟨same.1, Nat.lt_of_lt_of_eq positive same.1.symm⟩

end Step

/-! ### Runs of calls -/

/-- A call with its answer, and the reader before and after it. -/
structure Exchange where
  before : Reader
  call : Call
  answer : Answer
  later : Reader

namespace Exchange

/-- The lines that were ahead before the call and are not ahead after it. -/
def consumed (exchange : Exchange) : List RawLine :=
  exchange.before.source.ahead.take
    (exchange.before.source.ahead.length - exchange.later.source.ahead.length)

/-- Whether the answer is about the lines that the call consumed. -/
def Sound (exchange : Exchange) : Prop :=
  Serves exchange.before exchange.call exchange.consumed exchange.answer exchange.later

/-- The line that the call hands out, with its number. -/
def line? (exchange : Exchange) : Option (Nat × List Char) :=
  exchange.answer.line? exchange.later.number

end Exchange

/-- The calls in turn. -/
def exchanges (reader : Reader) : List Call → List Exchange
  | [] => []
  | call :: calls =>
      let (answer, later) := call.answer reader
      ⟨reader, call, answer, later⟩ :: later.exchanges calls

/-- The reader behind several calls. -/
def after (reader : Reader) (calls : List Call) : Reader :=
  calls.foldl (fun reader call => (call.answer reader).2) reader

theorem consumed_eq_of_serves {exchange : Exchange} {consumed : List RawLine}
    (serves : Serves exchange.before exchange.call consumed exchange.answer exchange.later) :
    exchange.consumed = consumed := by
  simp [Exchange.consumed, serves.ahead_eq]

theorem sound_answer (call : Call) (reader : Reader) :
    Exchange.Sound ⟨reader, call, (call.answer reader).1, (call.answer reader).2⟩ := by
  obtain ⟨consumed, serves⟩ := serves_answer call reader
  have same : Exchange.consumed ⟨reader, call, (call.answer reader).1, (call.answer reader).2⟩ =
      consumed := consumed_eq_of_serves serves
  rw [Exchange.Sound, same]
  exact serves

theorem sound_of_mem_exchanges {calls : List Call} {reader : Reader} {exchange : Exchange}
    (member : exchange ∈ reader.exchanges calls) : exchange.Sound := by
  induction calls generalizing reader with
  | nil => simp [exchanges] at member
  | cons call calls ih =>
      rcases List.mem_cons.mp member with rfl | later
      · exact sound_answer call reader
      · exact ih later

section Run

variable {lines : List RawLine} {reader : Reader} {calls : List Call}

@[simp] theorem after_cons (reader : Reader) (call : Call) (calls : List Call) :
    reader.after (call :: calls) = (call.answer reader).2.after calls :=
  rfl

@[simp] theorem exchanges_cons (reader : Reader) (call : Call) (calls : List Call) :
    reader.exchanges (call :: calls) =
      ⟨reader, call, (call.answer reader).1, (call.answer reader).2⟩ ::
        (call.answer reader).2.exchanges calls :=
  rfl

theorem after_concat (reader : Reader) (calls : List Call) (call : Call) :
    reader.after (calls ++ [call]) = (call.answer (reader.after calls)).2 := by
  simp [after]

theorem exchanges_concat (reader : Reader) (calls : List Call) (call : Call) :
    reader.exchanges (calls ++ [call]) = reader.exchanges calls ++
      [⟨reader.after calls, call, (call.answer (reader.after calls)).1,
        (call.answer (reader.after calls)).2⟩] := by
  induction calls generalizing reader with
  | nil => rfl
  | cons first calls ih =>
      rw [List.cons_append, exchanges_cons, exchanges_cons, ih]
      rfl

theorem At.answer (numbered : Numbered lines) (position : At lines reader) (call : Call) :
    At lines (call.answer reader).2 := by
  obtain ⟨consumed, serves⟩ := serves_answer call reader
  exact serves.at numbered position

theorem At.after (numbered : Numbered lines) (position : At lines reader) (calls : List Call) :
    At lines (reader.after calls) := by
  induction calls generalizing reader with
  | nil => exact position
  | cons call calls ih => exact ih (position.answer numbered call)

/-- What the calls consume and what is ahead after them make up what was ahead before them. -/
theorem ahead_eq_consumed (reader : Reader) (calls : List Call) :
    reader.source.ahead =
      (reader.exchanges calls).flatMap Exchange.consumed ++ (reader.after calls).source.ahead := by
  induction calls generalizing reader with
  | nil => rfl
  | cons call calls ih =>
      have first := (sound_answer call reader).ahead_eq
      simpa [← ih] using first

theorem number_le_answer (numbered : Numbered lines) (position : At lines reader) (call : Call) :
    reader.number ≤ (call.answer reader).2.number := by
  obtain ⟨consumed, serves⟩ := serves_answer call reader
  have number := serves.number_eq numbered position
  omega

theorem number_le_of_mem_exchanges (numbered : Numbered lines) (position : At lines reader)
    {exchange : Exchange} (member : exchange ∈ reader.exchanges calls) :
    reader.number ≤ exchange.later.number := by
  induction calls generalizing reader with
  | nil => simp [exchanges] at member
  | cons call calls ih =>
      have further := number_le_answer numbered position call
      rcases List.mem_cons.mp member with rfl | later
      · exact further
      · exact further.trans (ih (position.answer numbered call) later)

/-- The numbers of a run never decrease, as each call adds to the number what it consumes. -/
theorem pairwise_number_exchanges (numbered : Numbered lines) (position : At lines reader)
    (calls : List Call) :
    (reader.exchanges calls).Pairwise fun earlier later =>
      earlier.later.number ≤ later.later.number := by
  induction calls generalizing reader with
  | nil => exact List.Pairwise.nil
  | cons call calls ih =>
      have next := position.answer numbered call
      apply List.Pairwise.cons
      · intro exchange member
        exact number_le_of_mem_exchanges numbered next member
      · exact ih next

theorem at_before_of_mem_exchanges (numbered : Numbered lines) (position : At lines reader)
    {exchange : Exchange} (member : exchange ∈ reader.exchanges calls) :
    At lines exchange.before := by
  induction calls generalizing reader with
  | nil => simp [exchanges] at member
  | cons call calls ih =>
      rcases List.mem_cons.mp member with rfl | later
      · exact position
      · exact ih (position.answer numbered call) later

/-- A line is handed out under the number that its reader has by then, which is that of a line of
the file. -/
theorem number_of_mem_exchanges (numbered : Numbered lines) (position : At lines reader)
    {exchange : Exchange} (member : exchange ∈ reader.exchanges calls) {number : Nat}
    {text : List Char} (found : exchange.line? = some (number, text)) :
    number = exchange.later.number ∧ 1 ≤ number ∧ number ≤ lines.length := by
  have sound := sound_of_mem_exchanges member
  have start := at_before_of_mem_exchanges numbered position member
  obtain ⟨same, positive⟩ := sound.number_of_line? numbered start found
  have bound := (sound.at numbered start).number_le
  exact ⟨same, positive, by omega⟩

theorem pairwise_line_exchanges (numbered : Numbered lines) (position : At lines reader)
    (calls : List Call) :
    (((reader.exchanges calls).filterMap Exchange.line?).map (·.1)).Pairwise (· ≤ ·) := by
  rw [List.pairwise_map, List.pairwise_filterMap]
  apply (pairwise_number_exchanges numbered position calls).imp_of_mem
  rintro first second inFirst inSecond further ⟨_, _⟩ found ⟨_, _⟩ foundLater
  have earlier := (number_of_mem_exchanges numbered position inFirst found).1
  have later := (number_of_mem_exchanges numbered position inSecond foundLater).1
  simpa only [earlier, later] using further

/-- The lines of an expansion are handed out in order and under one number. The induction is on the
calls. A definition takes none of them, and every other call takes the first one left. -/
theorem lines_of_pending (reader : Reader) (calls : List Call)
    (few : calls.countP Call.reads ≤ reader.pending.length) :
    (reader.exchanges calls).filterMap Exchange.line? =
      (reader.pending.take (calls.countP Call.reads)).map fun text => (reader.number, text) := by
  induction calls generalizing reader with
  | nil => simp [exchanges]
  | cons call calls ih =>
      rw [exchanges_cons]
      by_cases reads : call.reads = true
      · rw [List.countP_cons_of_pos reads] at few ⊢
        cases emitted : reader.pending with
        | nil => simp [emitted] at few
        | cons text pending =>
            have handedOut := answer_of_line reads (nextLine_of_pending emitted)
            have rest := ih { reader with pending } (by simpa [emitted] using few)
            have line : Exchange.line? ⟨reader, call, call.deliver ⟨reader.number, text, none⟩,
                { reader with pending }⟩ = some (reader.number, text) :=
              Call.line?_deliver call ⟨reader.number, text, none⟩
            rw [handedOut, List.filterMap_cons_some line, rest, List.take_succ_cons, List.map_cons]
            rfl
      · rw [List.countP_cons_of_neg reads] at few ⊢
        cases call with
        | define definition =>
            rw [List.filterMap_cons_none rfl]
            exact ih (reader.define definition) few
        | next => simp [Call.reads] at reads
        | require => simp [Call.reads] at reads

end Run

/-! ### Draining -/

section Drain

variable {reader : Reader}

/-- A call leaves no more to be read than there was before it. -/
theorem notBefore_answer (call : Call) (reader : Reader) :
    (call.answer reader).2.NotBefore reader := by
  by_cases reads : call.reads = true
  · rw [answer_snd reads]
    by_cases ended : reader.remaining = (0, 0)
    · rw [nextLine_of_remaining ended]
      exact .refl reader
    · exact (behind_nextLine ended).notBefore
  · cases call with
    | define definition => exact Or.inl (remaining_define definition reader)
    | next => simp [Call.reads] at reads
    | require => simp [Call.reads] at reads

/-- If calls never stop to read, the end of the file is reached. Otherwise the next call that reads
would leave less than the least that is ever left. -/
theorem exists_remaining_eq (states : Nat → Reader) (feed : Nat → Call)
    (step : ∀ count, states (count + 1) = ((feed count).answer (states count)).2)
    (reading : ∀ count, ∃ later, count ≤ later ∧ (feed later).reads = true) :
    ∃ count, ∀ later, count ≤ later → (states later).remaining = (0, 0) := by
  have notBefore {count later : Nat} (after : count ≤ later) :
      (states later).NotBefore (states count) := by
    induction after with
    | refl => exact .refl _
    | @step later _ ih =>
        have one := notBefore_answer (feed later) (states later)
        rw [← step] at one
        exact one.trans ih
  obtain ⟨last, ⟨count, rfl⟩, least⟩ :=
    Behind.wellFounded.has_min (Set.range states) ⟨_, 0, rfl⟩
  have same {later : Nat} (after : count ≤ later) :
      (states later).remaining = (states count).remaining := by
    rcases notBefore after with same | behind
    · exact same
    · exact absurd behind (least _ ⟨later, rfl⟩)
  have ended : (states count).remaining = (0, 0) := by
    by_contra left
    obtain ⟨later, after, reads⟩ := reading count
    have further : (states (later + 1)).Behind (states later) := by
      rw [step, answer_snd reads]
      apply behind_nextLine
      rwa [same after]
    apply least _ ⟨later + 1, rfl⟩
    simpa only [Behind, same after] using further
  exact ⟨count, fun later after => (same after).trans ended⟩

end Drain

/-! ### Readers of a file -/

theorem numbered_ofContent (content : List UInt8) (mirror : Option (List UInt8)) :
    Numbered (RawLine.ofContent content mirror) := by
  intro index line found
  rw [RawLine.ofContent, RawLine.getElem?_enumerate] at found
  obtain ⟨text, _, rfl⟩ := Option.map_eq_some_iff.mp found
  simp

theorem at_ofContent (file : String) (content : List UInt8) (mirror : Option (List UInt8))
    (macros : Option MacroScope) :
    At (RawLine.ofContent content mirror) (ofContent file content mirror macros) := by
  constructor
  · rfl
  · exact Nat.zero_le _
  · intro waiting
    contradiction

/-- What calls on a reader of a file with the given lines have read, and what they leave. -/
structure Accounted (lines : List RawLine) (opened : Reader) (calls : List Call) : Prop where
  /-- The lines handed back and the lines not read yet are the ones behind the reader's number. -/
  ahead_eq : (opened.after calls).source.handedBack ++ (opened.after calls).source.unread =
    lines.drop (opened.after calls).number
  number_le : (opened.after calls).number ≤ lines.length
  /-- Each line up to the reader's number has been consumed by one call. -/
  consumed_eq : (opened.exchanges calls).flatMap Exchange.consumed =
    lines.take (opened.after calls).number
  /-- The answer of each call is about the lines that it consumed. -/
  sound : ∀ exchange ∈ opened.exchanges calls, exchange.Sound
  number_mono : ((opened.exchanges calls).map (·.later.number)).Pairwise (· ≤ ·)
  line_mono : (((opened.exchanges calls).filterMap Exchange.line?).map (·.1)).Pairwise (· ≤ ·)
  line_bounds : ∀ number ∈ ((opened.exchanges calls).filterMap Exchange.line?).map (·.1),
    1 ≤ number ∧ number ≤ lines.length
  /-- The lines of an expansion that are still to be handed out have the reader's number. -/
  pending_eq : ∀ further : List Call,
    further.countP Call.reads ≤ (opened.after calls).pending.length →
      ((opened.after calls).exchanges further).filterMap Exchange.line? =
        ((opened.after calls).pending.take (further.countP Call.reads)).map fun text =>
          ((opened.after calls).number, text)
  /-- Whatever is called next, as long as calls do not stop to read, the file ends. -/
  drains : ∀ feed : Nat → Call, (∀ count, ∃ later, count ≤ later ∧ (feed later).reads = true) →
    ∃ count, ∀ later, count ≤ later →
      ((opened.after calls).after ((List.range later).map feed)).nextLine.1 = .ok none

/-- Every raw line of a file has its own number and its own line of the mirror, and whatever calls
are made on a reader of the file, each line is read once and in its turn. Each call accounts for the
lines that it consumes, and the calls follow one another without a gap. -/
theorem accounted_ofContent (file : String) (content : List UInt8) (mirror : Option (List UInt8))
    (macros : Option MacroScope) (calls : List Call) :
    (∀ index : Nat, (RawLine.ofContent content mirror)[index]? =
      (RawLine.texts content)[index]?.map fun text =>
        ⟨index + 1, text, mirror.bind fun bytes => (RawLine.texts bytes)[index]?⟩) ∧
    Accounted (RawLine.ofContent content mirror) (ofContent file content mirror macros) calls := by
  have numbered := numbered_ofContent content mirror
  have start := at_ofContent file content mirror macros
  have position := start.after numbered calls
  constructor
  · intro index
    rw [RawLine.ofContent, RawLine.getElem?_enumerate]
    cases mirror <;> simp
  constructor
  · exact position.ahead_eq
  · exact position.number_le
  · have split := ahead_eq_consumed (ofContent file content mirror macros) calls
    rw [start.ahead_eq, position.ahead_eq] at split
    apply List.append_cancel_right (split.symm.trans _)
    exact (List.take_append_drop _ _).symm
  · intro exchange member
    exact sound_of_mem_exchanges member
  · rw [List.pairwise_map]
    exact pairwise_number_exchanges numbered start calls
  · exact pairwise_line_exchanges numbered start calls
  · intro number member
    obtain ⟨⟨_, text⟩, found, rfl⟩ := List.mem_map.mp member
    obtain ⟨exchange, inside, line⟩ := List.mem_filterMap.mp found
    exact (number_of_mem_exchanges numbered start inside line).2
  · intro further few
    exact lines_of_pending _ further few
  · intro feed reading
    obtain ⟨count, ended⟩ := exists_remaining_eq
      (fun count => ((ofContent file content mirror macros).after calls).after
        ((List.range count).map feed)) feed
      (fun count => by simp [List.range_succ, after_concat]) reading
    refine ⟨count, fun later reached => ?_⟩
    rw [nextLine_of_remaining (ended later reached)]

end Reader

end TadsReference
