import TadsReference.Proofs.Text.Decoding
import TadsReference.Reader.Gather

/-!
# Files that are cut off

The first lines of a file are read as if the file went on behind them: up to the line at which it
is cut off, the reader of the shorter file hands out the same lines as that of the whole one, and
what is read from these lines alone has the same result.
-/

namespace TadsReference

/-- If nothing is left behind the first piece unless something follows it, that piece is cut off
again from whatever is put behind it. -/
theorem Text.cutAfter_append {α : Type} [BEq α] (terminator : α) (sequence others : List α)
    (last : (cutAfter terminator sequence).2 = [] → others = []) :
    cutAfter terminator ((cutAfter terminator sequence).1 ++ others) =
      ((cutAfter terminator sequence).1, others) := by
  induction sequence with
  | nil =>
      obtain rfl := last rfl
      rfl
  | cons item rest ih =>
      simp only [cutAfter] at last ⊢
      split at last
      · next ends => simp [cutAfter, ends]
      · next goesOn => simp [cutAfter, goesOn, ih last]

namespace RawLine

/-- The bytes of the first lines of a file. -/
def firstLines (count : Nat) (content : List UInt8) : List UInt8 :=
  ((Text.splitAfter 10 content).take count).flatten

@[simp]
theorem firstLines_nil (count : Nat) : firstLines count [] = [] := by
  simp [firstLines]

@[simp]
theorem readText?_firstLines_zero (content : List UInt8) :
    readText? (firstLines 0 content) = none := by
  simp [firstLines, readText?]

/-- The first of the first lines of a file is its first line. Reading it leaves the first lines of
what it would have left of the whole file. -/
theorem readText?_firstLines_succ (count : Nat) (content : List UInt8) :
    readText? (firstLines (count + 1) content) =
      (readText? content).map fun found => (found.1, firstLines count found.2) := by
  cases content with
  | nil => rw [firstLines_nil]; rfl
  | cons byte others =>
      let first := Text.cutAfter 10 (byte :: others)
      have whole : firstLines (count + 1) (byte :: others) =
          first.1 ++ firstLines count first.2 := by
        simp [firstLines, Text.splitAfter_cons, first]
      have cut : Text.cutAfter 10 (first.1 ++ firstLines count first.2) =
          (first.1, firstLines count first.2) := by
        apply Text.cutAfter_append
        intro last
        simp [first, last]
      have filled : first.1 ≠ [] := by
        simp only [first, Text.cutAfter]
        split <;> simp
      simp [readText?, whole, cut, filled, first]

/-- A file begins with its first lines. -/
theorem firstLines_prefix (count : Nat) (content : List UInt8) :
    firstLines count content <+: content := by
  refine ⟨((Text.splitAfter 10 content).drop count).flatten, ?_⟩
  rw [firstLines, ← List.flatten_append, List.take_append_drop, Text.flatten_splitAfter]

/-- Cutting a file off leaves the texts of its first lines as they are. -/
theorem texts_firstLines (count : Nat) (content : List UInt8) :
    texts (firstLines count content) = (texts content).take count := by
  induction count generalizing content with
  | zero => rw [texts_of_readText?_none (readText?_firstLines_zero content), List.take_zero]
  | succ count ih =>
      have first := readText?_firstLines_succ count content
      cases read : readText? content with
      | none =>
          rw [read] at first
          rw [texts_of_readText?_none first, texts_of_readText?_none read, List.take_nil]
      | some found =>
          rw [read] at first
          rw [texts_of_readText? first, texts_of_readText? read, List.take_succ_cons, ih]

end RawLine

namespace LineSource

/-- The same file without the lines behind that of a given number, but with the same mirror. -/
def upTo (last : Nat) (source : LineSource) : LineSource :=
  { source with content := RawLine.firstLines (last - source.taken) source.content }

/-- A source to which no lines have been handed back. -/
structure InOrder (source : LineSource) : Prop where
  handedBack : source.handedBack = []
  number : source.number = source.taken

section InOrder

variable {source behind : LineSource} {last : Nat} {line : RawLine}

/-- Up to the line at which a file is cut off, the same lines are read from the shorter file. -/
theorem read?_upTo (inOrder : source.InOrder) (before : source.number < last) :
    (source.upTo last).read? =
      source.read?.map fun found => (found.1, found.2.upTo last) := by
  obtain ⟨left, isLeft⟩ : ∃ left, last - source.taken = left + 1 :=
    ⟨last - source.taken - 1, by rw [inOrder.number] at before; omega⟩
  have fewer : last - (source.taken + 1) = left := by omega
  unfold read?
  simp only [upTo, inOrder.handedBack, isLeft, RawLine.readText?_firstLines_succ]
  cases RawLine.readText? source.content with
  | none => rfl
  | some found => simp [fewer]

theorem read?_upTo_of_le (inOrder : source.InOrder) (reached : last ≤ source.number) :
    (source.upTo last).read? = none := by
  have none : last - source.taken = 0 := by
    rw [inOrder.number] at reached
    omega
  unfold read?
  simp [upTo, inOrder.handedBack, none]

/-- A line that is read is the next one, and holds no line feed. -/
theorem InOrder.of_read? (inOrder : source.InOrder) (read : source.read? = some (line, behind)) :
    behind.InOrder ∧ behind.number = source.number + 1 ∧ '\n' ∉ line.text := by
  unfold read? at read
  rw [inOrder.handedBack] at read
  dsimp only at read
  split at read
  · contradiction
  · next text rest found =>
      cases read
      exact ⟨⟨rfl, rfl⟩, by rw [inOrder.number], RawLine.newline_not_mem_of_readText? found⟩

end InOrder

end LineSource

namespace Reader

/-- The reader of the same file without the lines behind that of a given number, but with the same
mirror. -/
def upTo (last : Nat) (reader : Reader) : Reader :=
  { reader with source := reader.source.upTo last }

/-- Reading only the first lines of a file is reading a file that holds nothing else. -/
theorem upTo_ofContent (last : Nat) (file : String) (content : List UInt8)
    (mirror : Option (List UInt8)) (macros : Option MacroScope) :
    (ofContent file content mirror macros).upTo last =
      ofContent file (RawLine.firstLines last content) mirror macros :=
  rfl

/-- A reader that expands no macros, and so hands out each raw line as it reads it. -/
structure Plain (reader : Reader) : Prop where
  macros : reader.macros = none
  pending : reader.pending = []
  source : reader.source.InOrder

theorem plain_ofContent (file : String) (content : List UInt8) (mirror : Option (List UInt8)) :
    (ofContent file content mirror none).Plain :=
  ⟨rfl, rfl, rfl, rfl⟩

section Plain

variable {reader later : Reader} {last : Nat} {line : SourceLine}

theorem Plain.upTo (plain : reader.Plain) (last : Nat) : (reader.upTo last).Plain :=
  ⟨plain.macros, plain.pending, plain.source.handedBack, plain.source.number⟩

theorem define_of_plain (plain : reader.Plain) (definition : MacroDefinition) :
    reader.define definition = reader := by
  rcases reader with ⟨file, source, pending, macros⟩
  obtain rfl : macros = none := plain.macros
  rfl

theorem nextLine_of_plain (plain : reader.Plain) :
    reader.nextLine =
      match reader.source.read? with
      | none => (.ok none, reader)
      | some (raw, following) =>
          (.ok (some ⟨following.number, Text.dropEndWhile (· == '\r') raw.text, raw.mirror⟩),
            { reader with source := following }) := by
  unfold nextLine
  simp only [plain.pending]
  cases read : reader.source.read? with
  | none => rfl
  | some found =>
      have whole := (plain.source.of_read? read).2.2
      simp [plain.macros, expandRaw, pieces, List.splitOn_eq_singleton whole]

/-- Before the line at which a file is cut off, the next line is that of the whole file. -/
theorem nextLine_upTo (plain : reader.Plain) (before : reader.number < last) :
    (reader.upTo last).nextLine = (reader.nextLine.1, reader.nextLine.2.upTo last) := by
  rw [nextLine_of_plain plain, nextLine_of_plain (plain.upTo last), upTo,
    LineSource.read?_upTo plain.source before]
  cases reader.source.read? with
  | none => rfl
  | some found => rfl

/-- No line follows the one at which a file is cut off. -/
theorem nextLine_upTo_of_le (plain : reader.Plain) (reached : last ≤ reader.number) :
    (reader.upTo last).nextLine = (.ok none, reader.upTo last) := by
  rw [nextLine_of_plain (plain.upTo last), upTo, LineSource.read?_upTo_of_le plain.source reached]

/-- The lines of a plain reader are numbered one by one. -/
theorem Plain.of_nextLine (plain : reader.Plain)
    (read : reader.nextLine = (.ok (some line), later)) :
    later.Plain ∧ later.number = reader.number + 1 ∧ line.number = later.number := by
  rw [nextLine_of_plain plain] at read
  split at read
  · cases read
  · next raw following found =>
      cases read
      have source := plain.source.of_read? found
      exact ⟨⟨plain.macros, plain.pending, source.1⟩, source.2.1, rfl⟩

/-- A plain reader stays plain when a line is required of it, and is one line further. -/
theorem Plain.of_requireLine {text : List Char} (plain : reader.Plain)
    (read : reader.requireLine = (.ok text, later)) :
    later.Plain ∧ later.number = reader.number + 1 := by
  unfold requireLine at read
  split at read
  · next next =>
      cases read
      have behind := plain.of_nextLine next
      exact ⟨behind.1, behind.2.1⟩
  · cases read
  · cases read

/-- A line that is required in the shorter file is that of the whole one. -/
theorem requireLine_upTo {text : List Char} (plain : reader.Plain) (before : reader.number < last)
    (read : reader.requireLine = (.ok text, later)) :
    (reader.upTo last).requireLine = (.ok text, later.upTo last) := by
  unfold requireLine at read ⊢
  rw [nextLine_upTo plain before]
  split at read
  · next next =>
      cases read
      rw [next]
  · cases read
  · cases read

end Plain

section Gather

variable {State Value : Type} {step : State → List Char → Progress State Value} {state : State}
  {reader later : Reader}

/-- A construct that waits for a line goes on with the one that is required for it. -/
theorem gather_of_requireLine {text : List Char} (read : reader.requireLine = (.ok text, later)) :
    gather step (.waiting state) reader = gather step (step state text) later := by
  rw [gather]
  split
  · next failed =>
      rw [read] at failed
      cases failed
  · next found =>
      rw [read] at found
      cases found
      rfl

/-- A construct that waits for a line at the end of a file is broken off. -/
theorem gather_of_end {cause : Failure} (read : reader.requireLine = (.error cause, later)) :
    gather step (.waiting state) reader = .error cause := by
  rw [gather]
  split
  · next failed =>
      rw [read] at failed
      cases failed
      rfl
  · next found =>
      rw [read] at found
      cases found

end Gather

/-! ### Results that stay the same -/

/-- Whether a reading, if it gives a result, gives the same one in every file that is cut off behind
the lines that were read for it. `build` puts a value and the reader behind it together. -/
def Lasting {Value Outcome : Type} (build : Value → Reader → Outcome)
    (run : Reader → Except Failure Outcome) : Prop :=
  ∀ reader : Reader, reader.Plain → ∀ outcome, run reader = .ok outcome →
    ∃ value later, outcome = build value later ∧ later.Plain ∧ reader.number ≤ later.number ∧
      ∀ last, later.number ≤ last → run (reader.upTo last) = .ok (build value (later.upTo last))

section Lasting

variable {First Value State Outcome : Type} {build : Value → Reader → Outcome}

theorem lasting_ok (value : Value) : Lasting build fun reader => .ok (build value reader) := by
  intro reader plain outcome found
  cases found
  exact ⟨value, reader, rfl, plain, Nat.le_refl _, fun _ _ => rfl⟩

theorem Lasting.congr {run other : Reader → Except Failure Outcome} (lasting : Lasting build run)
    (same : ∀ reader, other reader = run reader) : Lasting build other := by
  obtain rfl : other = run := funext same
  exact lasting

/-- Two readings one after the other last, if the first does and the second does from each value
that the first may give. -/
theorem Lasting.bind {run : Reader → Except Failure (First × Reader)}
    {next : First × Reader → Except Failure Outcome} (first : Lasting Prod.mk run)
    (follows : ∀ value, Lasting build fun reader => next (value, reader)) :
    Lasting build fun reader => run reader >>= next := by
  intro reader plain outcome found
  dsimp only at found ⊢
  cases ran : run reader with
  | error cause =>
      rw [ran] at found
      cases found
  | ok middle =>
      rcases first reader plain middle ran with ⟨value, later, rfl, after, onward, same⟩
      rw [ran] at found
      rcases follows value later after outcome found with
        ⟨result, latest, rfl, latestPlain, further, again⟩
      refine ⟨result, latest, rfl, latestPlain, Nat.le_trans onward further, ?_⟩
      intro last reached
      rw [same last (Nat.le_trans further reached)]
      exact again last reached

/-- A construct is gathered the same in every file that is cut off behind it. The result lies behind
the line that was required, so the shorter file has that line too. -/
theorem lasting_gather (step : State → List Char → Progress State Value)
    (progress : Progress State Value) : Lasting Prod.mk (gather step progress) := by
  intro reader plain outcome gathered
  fun_induction gather step progress reader with
  | case1 reader value =>
      cases gathered
      refine ⟨value, reader, rfl, plain, Nat.le_refl _, ?_⟩
      intro last _
      rw [gather]
  | case2 => contradiction
  | case3 reader state text behind read ih =>
      have next := plain.of_requireLine read
      rcases ih next.1 gathered with ⟨value, later, rfl, after, onward, same⟩
      have further : reader.number < later.number := by omega
      refine ⟨value, later, rfl, after, Nat.le_of_lt further, ?_⟩
      intro last reached
      have again := requireLine_upTo plain (Nat.lt_of_lt_of_le further reached) read
      rw [gather_of_requireLine again]
      exact same last reached

end Lasting

end Reader

end TadsReference
