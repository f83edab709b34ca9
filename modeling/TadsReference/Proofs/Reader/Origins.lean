import Mathlib.Data.List.Induction
import TadsReference.Proofs.Reader.HandedOut
import TadsReference.Proofs.Reader.LookAhead

/-!
# Where the lines of a reader come from

The lines that a reader hands out are pieces of what it makes of a raw line and of the lines that
are joined to it. All of them have the number of the last of these lines, while only the first has a
line of the mirror, that of the raw line: `comesFrom_nextLine`.
-/

namespace TadsReference.Reader

variable {run : List Exchange} {raw : RawLine} {joined lines : List RawLine} {reader : Reader}
  {line : SourceLine}

/-- The calls of a run end with one that hands out a piece of what is made of a raw line and of the
lines joined to it, or define macros behind such a call. Pieces are counted from zero. -/
inductive Emits :
    List Exchange → (raw : RawLine) → (joined : List RawLine) → List Char → (index : Nat) → Prop
  | first {run : List Exchange} {exchange : Exchange} {raw : RawLine} {joined : List RawLine}
      {text : List Char} (consumes : exchange.consumed = raw :: joined)
      (attempt : Attempt exchange.before.macros raw joined exchange.later.source.ahead (.ok text)) :
      Emits (run ++ [exchange]) raw joined text 0
  | further {run : List Exchange} {exchange : Exchange} {raw : RawLine} {joined : List RawLine}
      {text : List Char} {index : Nat} (emits : Emits run raw joined text index)
      (reads : exchange.call.reads = true) (consumesNone : exchange.consumed = []) :
      Emits (run ++ [exchange]) raw joined text (index + 1)
  | define {run : List Exchange} {exchange : Exchange} {raw : RawLine} {joined : List RawLine}
      {text : List Char} {index : Nat} (emits : Emits run raw joined text index)
      (defines : exchange.call.reads = false) (consumesNone : exchange.consumed = []) :
      Emits (run ++ [exchange]) raw joined text index

/-- A line is a piece of what is made of a raw line and of the lines joined to it. -/
structure ComesFrom (run : List Exchange) (raw : RawLine) (joined : List RawLine)
    (line : SourceLine) : Prop where
  emitted : ∃ text index, Emits run raw joined text index ∧
    (pieces text)[index]? = some line.text ∧ line.mirror = if index = 0 then raw.mirror else none
  number_eq : line.number = raw.number + joined.length

/-- A line has the number of the raw line with which its text begins, and if it has a line of the
mirror, that of this number. -/
structure RefersTo (mirror : Option (List UInt8)) (raw : RawLine) (line : SourceLine) : Prop where
  number_eq : line.number = raw.number
  mirror_eq : ∀ text ∈ line.mirror,
    (mirror.bind fun bytes => (RawLine.texts bytes)[line.number - 1]?) = some text

/-- What a reader still has to hand out are the other pieces of what is made of a line. -/
def Holds (lines : List RawLine) (run : List Exchange) (reader : Reader) : Prop :=
  reader.pending ≠ [] → ∃ raw ∈ lines, ∃ joined text index, Emits run raw joined text index ∧
    reader.pending = (pieces text).drop (index + 1) ∧ reader.number = raw.number + joined.length

/-! ### One origin -/

section Origin

variable {exchange : Exchange} {text : List Char} {index : Nat}

/-- The last call of a run either has consumed the raw line with the lines joined to it, or has
consumed nothing and goes on with what an earlier run emits. -/
theorem Emits.of_concat (emits : Emits (run ++ [exchange]) raw joined text index) :
    exchange.consumed = raw :: joined ∨
      exchange.consumed = [] ∧ ∃ earlier, Emits run raw joined text earlier := by
  generalize shape : run ++ [exchange] = calls at emits
  rcases emits with ⟨consumes, _⟩ | ⟨emits, _, consumesNone⟩ | ⟨emits, _, consumesNone⟩
  all_goals
    obtain ⟨rfl, same⟩ := List.append_inj' shape rfl
    obtain rfl := List.singleton_inj.mp same
  · exact .inl consumes
  · exact .inr ⟨consumesNone, _, emits⟩
  · exact .inr ⟨consumesNone, _, emits⟩

/-- What a run hands out at its end comes from the lines that were consumed last. -/
theorem Emits.unique {other : RawLine} {others : List RawLine} {shown : List Char} {place : Nat}
    (emits : Emits run raw joined text index) (emitsOther : Emits run other others shown place) :
    other = raw ∧ others = joined := by
  induction emits generalizing place with
  | first consumes =>
      rcases emitsOther.of_concat with consumesOther | ⟨consumesNone, _⟩
      · exact List.cons.inj (consumesOther.symm.trans consumes)
      · rw [consumes] at consumesNone
        contradiction
  | further _ _ consumesNone ih | define _ _ consumesNone ih =>
      rcases emitsOther.of_concat with consumesOther | ⟨_, earlier, emitsEarlier⟩
      · rw [consumesNone] at consumesOther
        contradiction
      · exact ih emitsEarlier

theorem ComesFrom.unique {other : RawLine} {others : List RawLine}
    (comesFrom : ComesFrom run raw joined line) (comesFromOther : ComesFrom run other others line) :
    other = raw ∧ others = joined := by
  obtain ⟨_, _, emits, _⟩ := comesFrom.emitted
  obtain ⟨_, _, emitsOther, _⟩ := comesFromOther.emitted
  exact emits.unique emitsOther

end Origin

/-! ### One call -/

section Step

variable {call : Call} {consumed : List RawLine} {answer : Answer} {later : Reader}
  {following : List RawLine}

/-- The line that is read next is one of the file, and its number is the next one. -/
theorem At.next (numbered : Numbered lines) (position : At lines reader)
    (first : reader.source.ahead = raw :: following) :
    raw ∈ lines ∧ raw.number = reader.number + 1 := by
  have place : lines[reader.number]? = some raw := by
    rw [← Nat.add_zero reader.number, ← List.getElem?_drop, ← position.ahead_eq, first]
    rfl
  exact ⟨List.mem_of_getElem? place, numbered _ _ place⟩

/-- What is made of a line has the number of the last line that was joined to it. -/
theorem At.number_of_passes (numbered : Numbered lines) (position : At lines reader)
    (first : reader.source.ahead = raw :: following) {source : LineSource}
    (passes : Passes raw joined following source) :
    source.number = raw.number + joined.length := by
  have number := passes.number_of_numbered numbered (position.ahead_eq ▸ first)
  have next := (position.next numbered first).2
  rw [number, next, List.length_cons]
  omega

/-- The pieces that a reader holds are handed out one by one, and then another line is read. Pieces
are told apart by their places in the text, so that none is left out. -/
theorem Holds.step (holds : Holds lines run reader) (numbered : Numbered lines)
    (position : At lines reader) (serves : Serves reader call consumed answer later) :
    Holds lines (run ++ [⟨reader, call, answer, later⟩]) later := by
  intro waiting
  have consumes : Exchange.consumed ⟨reader, call, answer, later⟩ = consumed :=
    consumed_eq_of_serves serves
  cases serves with
  | define definition =>
      obtain ⟨raw, inside, joined, text, index, emits, pending, number⟩ := holds waiting
      exact ⟨raw, inside, joined, text, index, emits.define rfl consumes, pending, number⟩
  | piece reads first =>
      obtain ⟨raw, inside, joined, text, index, emits, pending, number⟩ := holds (by simp [first])
      refine ⟨raw, inside, joined, text, index + 1, emits.further reads consumes, ?_, number⟩
      rw [← List.tail_drop, ← pending, first]
      rfl
  | finished reads emitted => contradiction
  | failed reads emitted => contradiction
  | @delivered _ raw joined following source text reads emitted first passes attempt =>
      refine ⟨raw, (position.next numbered first).1, joined, text, 0, .first consumes attempt, ?_,
        position.number_of_passes numbered first passes⟩
      rw [Nat.zero_add, List.drop_one]

/-- The line that is handed out is the first piece that a reader holds, or that of another line. -/
theorem Holds.comesFrom (holds : Holds lines run reader) (numbered : Numbered lines)
    (position : At lines reader)
    (serves : Serves reader .next consumed (.line (some line)) later) :
    ∃ raw ∈ lines, ∃ joined,
      ComesFrom (run ++ [⟨reader, .next, .line (some line), later⟩]) raw joined line := by
  have consumes : Exchange.consumed ⟨reader, .next, .line (some line), later⟩ = consumed :=
    consumed_eq_of_serves serves
  cases serves with
  | piece reads first =>
      obtain ⟨raw, inside, joined, text, index, emits, pending, number⟩ := holds (by simp [first])
      refine ⟨raw, inside, joined, ⟨text, index + 1, emits.further reads consumes, ?_, ?_⟩, number⟩
      · rw [first] at pending
        rw [← Nat.add_zero (index + 1), ← List.getElem?_drop, ← pending]
        rfl
      · rw [if_neg (Nat.succ_ne_zero index)]
  | @delivered _ raw joined following source text reads emitted first passes attempt =>
      refine ⟨raw, (position.next numbered first).1, joined,
        ⟨text, 0, .first consumes attempt, ?_, (if_pos rfl).symm⟩,
        position.number_of_passes numbered first passes⟩
      obtain ⟨piece, others, _, divided⟩ := exists_pieces text
      rw [divided]
      rfl

end Step

/-! ### All calls -/

/-- After all calls, what a reader holds comes from the raw line that was expanded last. The lines
that are held are told by the last calls, so the induction is from the end. -/
theorem holds_after (numbered : Numbered lines) (position : At lines reader)
    (emitted : reader.pending = []) (calls : List Call) :
    Holds lines (reader.exchanges calls) (reader.after calls) := by
  induction calls using List.reverseRecOn with
  | nil => exact fun waiting => absurd emitted waiting
  | append_singleton calls call ih =>
      obtain ⟨consumed, serves⟩ := serves_answer call (reader.after calls)
      rw [exchanges_concat, after_concat]
      exact ih.step numbered (position.after numbered calls) serves

theorem mirror_of_mem {content : List UInt8} {mirror : Option (List UInt8)}
    (inside : raw ∈ RawLine.ofContent content mirror) :
    raw.mirror = mirror.bind fun bytes => (RawLine.texts bytes)[raw.number - 1]? := by
  rw [RawLine.ofContent_eq_mapIdx] at inside
  obtain ⟨index, bound, rfl⟩ := List.mem_mapIdx.mp inside
  rfl

/-- A line refers to the raw line with which its text begins just if none has been joined to it. The
numbers differ by as many lines as have been joined. -/
theorem ComesFrom.refersTo_iff {content : List UInt8} {mirror : Option (List UInt8)}
    (comesFrom : ComesFrom run raw joined line) (inside : raw ∈ RawLine.ofContent content mirror) :
    RefersTo mirror raw line ↔ joined = [] := by
  have number := comesFrom.number_eq
  constructor
  · intro refersTo
    have same := refersTo.number_eq
    exact List.eq_nil_of_length_eq_zero (by omega)
  · rintro rfl
    obtain ⟨text, index, _, _, mirrored⟩ := comesFrom.emitted
    refine ⟨number, fun shown isShown => ?_⟩
    rw [number, List.length_nil, Nat.add_zero, ← mirror_of_mem inside]
    split at mirrored
    · exact mirrored.symm.trans isShown
    · rw [mirrored] at isShown
      contradiction

variable {file : String} {content : List UInt8} {mirror : Option (List UInt8)}
  {macros : Option MacroScope} {calls : List Call} {later : Reader}

/-- Every line that a reader of a file hands out is a piece of what it makes of one raw line and of
the lines joined to it. It has the number of the last of these, and the mirror's line that the first
of its pieces has is that of the raw line. So it refers to the raw line just if none is joined. This
is why a line refers to the raw line with which its text begins just if no line has been joined to
it. -/
theorem comesFrom_nextLine
    (handsOut : ((ofContent file content mirror macros).after calls).nextLine =
      (.ok (some line), later)) :
    ∃ raw ∈ RawLine.ofContent content mirror, ∃ joined,
      ComesFrom ((ofContent file content mirror macros).exchanges (calls ++ [.next])) raw joined
        line ∧
      (∀ other others, ComesFrom ((ofContent file content mirror macros).exchanges
        (calls ++ [.next])) other others line → other = raw ∧ others = joined) ∧
      (RefersTo mirror raw line ↔ joined = []) := by
  have numbered := numbered_ofContent content mirror
  have start := at_ofContent file content mirror macros
  have answer := answer_of_line (rfl : Call.next.reads = true) handsOut
  obtain ⟨consumed, serves⟩ :=
    serves_answer .next ((ofContent file content mirror macros).after calls)
  rw [answer] at serves
  have holds := holds_after numbered start rfl calls
  obtain ⟨raw, inside, joined, comesFrom⟩ :=
    holds.comesFrom numbered (start.after numbered calls) serves
  rw [exchanges_concat, answer]
  exact ⟨raw, inside, joined, comesFrom, fun other others => comesFrom.unique,
    comesFrom.refersTo_iff inside⟩

/-- A file in which an argument list is open at the end of the first line. -/
def pairsContent : List UInt8 :=
  "x = PAIR(1,\n    2);\ny\n".toUTF8.toList

/-- A mirror of the file, line by line. -/
def pairsMirror : Option (List UInt8) :=
  some "X1\nX2\nY\n".toUTF8.toList

/-- A reader of the file with its mirror. -/
def mirroredPairs : Reader :=
  ofContent "pairs.t" pairsContent pairsMirror (some pairMacros)

/-- A line with the number of the second raw line and the mirror's line of the first one. -/
def pairsLine : SourceLine :=
  ⟨2, "x = [1, 2];".toList, some "X1".toList⟩

/-- The line is made of both raw lines, so it refers to neither of them. -/
theorem comesFrom_pairsLine :
    mirroredPairs.nextLine.1 = .ok (some pairsLine) ∧
      ∃ raw ∈ RawLine.ofContent pairsContent pairsMirror, ∃ joined,
        ComesFrom (mirroredPairs.exchanges [.next]) raw joined pairsLine ∧
        (∀ other others, ComesFrom (mirroredPairs.exchanges [.next]) other others pairsLine →
          other = raw ∧ others = joined) ∧
        (RefersTo pairsMirror raw pairsLine ↔ joined = []) := by
  have handsOut : mirroredPairs.nextLine.1 = .ok (some pairsLine) := by decide +kernel
  have read : ((ofContent "pairs.t" pairsContent pairsMirror (some pairMacros)).after []).nextLine =
      (.ok (some pairsLine), mirroredPairs.nextLine.2) :=
    Prod.ext handsOut rfl
  exact ⟨handsOut, comesFrom_nextLine read⟩

/-- With two lines joined, the line that is handed out refers to no raw line at all. -/
theorem not_refersTo_pairsLine :
    mirroredPairs.nextLine.1 = .ok (some pairsLine) ∧
      ∀ raw, ¬RefersTo pairsMirror raw pairsLine := by
  constructor
  · decide +kernel
  · intro raw refersTo
    have second : (pairsMirror.bind fun bytes => (RawLine.texts bytes)[pairsLine.number - 1]?) =
        some "X2".toList := by
      decide +kernel
    have first := second.symm.trans (refersTo.mirror_eq _ rfl)
    revert first
    decide +kernel

end TadsReference.Reader
