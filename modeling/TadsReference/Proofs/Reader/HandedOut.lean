import TadsReference.Proofs.Entry.InStep
import TadsReference.Proofs.Reader.Accounting
import TadsReference.Proofs.Text.DecodedLines
import TadsReference.Source.Input

/-!
# What a reader that expands no macros hands out

A reader without macros hands out the raw lines of its file one by one, whatever calls are made on
it. `handsOut_ofContent` compares them with the lines that the first look at the file counts, which
are those of its text decoded as a whole.
-/

namespace TadsReference

namespace Reader

/-- Whether a reader hands out the given lines in order, one for each call that reads, and reaches
the end of the file behind them. -/
def HandsOut (reader : Reader) (lines : List SourceLine) : Prop :=
  ∀ calls : List Call, (reader.after calls).nextLine.1 = .ok lines[calls.countP Call.reads]?

/-- A reader without macros hands out the lines that are ahead of it, one for each call that reads.
The induction is on these lines, and a call that defines a macro is passed by. -/
theorem handsOut_of_foresees {expected : RawLine → Prop} {reader : Reader}
    (foresees : reader.Foresees expected) :
    reader.HandsOut (reader.source.ahead.map RawLine.plain) := by
  intro calls
  induction calls generalizing reader with
  | nil =>
      rcases foresees.nextLine with ⟨ended, next⟩ | ⟨raw, following, read, _, _, next⟩
      · simp [after, next, LineSource.ahead_of_read?_none ended]
      · simp [after, next, LineSource.ahead_of_read? read]
  | cons call calls ih =>
      rw [after_cons]
      by_cases reads : call.reads = true
      · rw [answer_snd reads, List.countP_cons_of_pos reads]
        rcases foresees.nextLine with ⟨ended, next⟩ | ⟨raw, following, read, _, behind, next⟩
        · rw [next, ih foresees, LineSource.ahead_of_read?_none ended]
          rfl
        · rw [next, ih behind, LineSource.ahead_of_read? read]
          rfl
      · rw [List.countP_cons_of_neg reads]
        cases call with
        | define definition =>
            change ((reader.define definition).after calls).nextLine.1 = _
            rw [define_of_plain foresees.plain, ih foresees]
        | next => simp [Call.reads] at reads
        | require => simp [Call.reads] at reads

end Reader

namespace RawLine

/-- The lines of a file get the texts of its lines, and whatever lines the mirror has. -/
theorem ofContent_eq_mapIdx (content : List UInt8) (mirror : Option (List UInt8)) :
    ofContent content mirror = (texts content).mapIdx fun index text =>
      ⟨index + 1, text, mirror.bind fun bytes => (texts bytes)[index]?⟩ := by
  apply List.ext_getElem?
  intro index
  rw [ofContent, getElem?_enumerate, List.getElem?_mapIdx]
  cases mirror <;> simp

end RawLine

namespace Reader

open Text

/-- A reader without macros hands out as many lines as the first look at the file counts, numbered
from one. But for the carriage returns at their ends they are the lines of the file's text decoded
as a whole, and they go with those of the mirror's text for as long as the mirror has any. Dividing
the bytes into lines and decoding each is decoding the whole and dividing its text. -/
theorem handsOut_ofContent (path : String) (content : List UInt8) (mirror : Option (List UInt8)) :
    ∃ handedOut : List SourceLine,
      (ofContent (SourceFile.ofPath path).shortName content mirror none).HandsOut handedOut ∧
      handedOut.length = ((SourceFile.ofPath path).scanned content).lineCount ∧
      handedOut.map (·.number) = List.range' 1 handedOut.length ∧
      handedOut.map (·.text) = (lines (Utf8.decode content)).map dropReturns ∧
      handedOut.map (·.mirror) = (List.range handedOut.length).map fun index =>
        mirror.bind fun bytes => (bareLines (Utf8.decode bytes))[index]? := by
  have foresees : (ofContent (SourceFile.ofPath path).shortName content mirror none).Foresees
      fun _ => True := foresees_ofContent (by simp)
  have divided (content : List UInt8) :
      RawLine.texts content = bareLines (Utf8.decode content) := RawLine.texts_eq_bareLines content
  let handedOut := (RawLine.ofContent content mirror).map RawLine.plain
  have size : handedOut.length = (RawLine.texts content).length := by
    simp [handedOut, RawLine.ofContent_eq_mapIdx]
  refine ⟨handedOut, handsOut_of_foresees foresees, ?_, ?_, ?_, ?_⟩
  · rw [size, divided, length_bareLines]
    rfl
  · rw [size]
    apply List.ext_getElem <;> simp [handedOut, RawLine.ofContent_eq_mapIdx, RawLine.plain,
      Nat.add_comm]
  · rw [← map_dropReturns_bareLines, ← divided]
    apply List.ext_getElem <;> simp [handedOut, RawLine.ofContent_eq_mapIdx, RawLine.plain,
      dropReturns]
  · rw [size]
    apply List.ext_getElem <;> simp [handedOut, RawLine.ofContent_eq_mapIdx, RawLine.plain, divided]

end Reader

end TadsReference
