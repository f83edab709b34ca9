import Mathlib.Data.List.Basic
import TadsReference.Text.Blank
import TadsReference.Proofs.Text.Decoding

/-!
# Lines of a decoded text

A byte of ASCII never belongs to a longer character, and it ends one that has been begun. Hence a
file may be divided into lines before its bytes are decoded or after that, with the same result:
`texts_eq_bareLines`. The two readings of a line's end differ at the last line alone, and only if no
line feed ends it.
-/

namespace TadsReference

namespace Text

namespace Utf8

variable {decoder : Decoder} {byte : UInt8} {character : Char}

/-! ### Bytes of ASCII -/

/-- Whether a character that has been begun cannot go on with a byte of ASCII. -/
def Decoder.StopsAtAscii (decoder : Decoder) : Prop :=
  ∀ pending, decoder.pending = some pending → 0x80 ≤ pending.least

namespace Decoder.StopsAtAscii

theorem start (decoder : Decoder) (byte : Nat) : (decoder.start byte).StopsAtAscii := by
  unfold Decoder.start
  repeat' split
  all_goals simp [Decoder.StopsAtAscii]

/-- Whatever is read, the decoder stops at a byte of ASCII again, since only bytes beyond ASCII go
on with a character. -/
theorem read (decoder : Decoder) (byte : UInt8) : (decoder.read byte).StopsAtAscii := by
  unfold Decoder.read
  split
  · exact start _ _
  · split
    · split
      · simp [Decoder.StopsAtAscii]
      · simp only [Decoder.StopsAtAscii, Option.some.injEq, forall_eq']
        exact Nat.le_refl _
    · exact start _ _

theorem foldl (bytes : List UInt8) (stops : decoder.StopsAtAscii) :
    (bytes.foldl Decoder.read decoder).StopsAtAscii := by
  induction bytes generalizing decoder with
  | nil => exact stops
  | cons byte bytes ih => exact ih (read decoder byte)

end Decoder.StopsAtAscii

/-- A byte of ASCII is decoded on its own, behind all that came before it. -/
theorem read_ascii (stops : decoder.StopsAtAscii) (ascii : byte.toNat < 0x80) :
    decoder.read byte = ⟨none, some (Char.ofNat byte.toNat) :: decoder.finish.reverse⟩ := by
  rcases decoder with ⟨_ | pending, decoded⟩
  · simp [Decoder.read, Decoder.start, Decoder.finish, ascii]
  · have least : 0x80 ≤ pending.least := stops pending rfl
    have outside : ¬pending.least ≤ byte.toNat := by omega
    simp [Decoder.read, Decoder.start, Decoder.finish, ascii, outside]

/-! ### What was decoded before -/

/-- The decoder that has decoded something more before everything else. -/
def Decoder.behind (decoded : List (Option Char)) (decoder : Decoder) : Decoder :=
  { decoder with decoded := decoder.decoded ++ decoded }

theorem start_behind (decoded : List (Option Char)) (decoder : Decoder) (byte : Nat) :
    (decoder.behind decoded).start byte = (decoder.start byte).behind decoded := by
  simp only [Decoder.start, Decoder.behind]
  repeat' split
  all_goals rfl

theorem read_behind (decoded : List (Option Char)) (decoder : Decoder) (byte : UInt8) :
    (decoder.behind decoded).read byte = (decoder.read byte).behind decoded := by
  rcases decoder with ⟨_ | pending, before⟩
  · exact start_behind decoded ⟨none, before⟩ byte.toNat
  · have fault := start_behind decoded ⟨none, none :: before⟩ byte.toNat
    simp only [Decoder.read, Decoder.behind] at fault ⊢
    split
    · split <;> rfl
    · exact fault

theorem foldl_behind (decoded : List (Option Char)) (decoder : Decoder) (bytes : List UInt8) :
    bytes.foldl Decoder.read (decoder.behind decoded) =
      (bytes.foldl Decoder.read decoder).behind decoded := by
  induction bytes generalizing decoder with
  | nil => rfl
  | cons byte bytes ih => rw [List.foldl_cons, read_behind, ih, List.foldl_cons]

theorem finish_behind (decoded : List (Option Char)) (decoder : Decoder) :
    (decoder.behind decoded).finish = decoded.reverse ++ decoder.finish := by
  rcases decoder with ⟨_ | pending, before⟩ <;> simp [Decoder.behind, Decoder.finish]

/-! ### Decoded texts -/

/-- Decoding goes on afresh behind a byte of ASCII. -/
theorem decode_append_cons (front rest : List UInt8) (ascii : byte.toNat < 0x80) :
    decode (front ++ byte :: rest) =
      decode front ++ Char.ofNat byte.toNat :: decode rest := by
  have stops : (front.foldl Decoder.read ⟨none, []⟩).StopsAtAscii :=
    Decoder.StopsAtAscii.foldl front (by simp [Decoder.StopsAtAscii])
  have afresh : (⟨none, some (Char.ofNat byte.toNat) :: (scan front).reverse⟩ : Decoder) =
      Decoder.behind (some (Char.ofNat byte.toNat) :: (scan front).reverse) ⟨none, []⟩ := rfl
  have scanned : scan (front ++ byte :: rest) =
      scan front ++ some (Char.ofNat byte.toNat) :: scan rest := by
    rw [scan, List.foldl_append, List.foldl_cons, read_ascii stops ascii]
    change (rest.foldl Decoder.read
      ⟨none, some (Char.ofNat byte.toNat) :: (scan front).reverse⟩).finish = _
    rw [afresh, foldl_behind, finish_behind]
    simp [scan]
  simp [decode, scanned]

/-- The last byte yields the end of what is decoded, whatever came before it. -/
theorem scan_concat (front : List UInt8) (byte : UInt8) :
    scan (front ++ [byte]) =
      (front.foldl Decoder.read ⟨none, []⟩).decoded.reverse ++
        (Decoder.read ⟨(front.foldl Decoder.read ⟨none, []⟩).pending, []⟩ byte).finish := by
  rw [scan, List.foldl_append, List.foldl_cons, List.foldl_nil, ← finish_behind, ← read_behind]
  rfl

theorem finish_start_ne_nil (decoder : Decoder) (byte : Nat) :
    (decoder.start byte).finish ≠ [] := by
  unfold Decoder.start
  repeat' split
  all_goals simp [Decoder.finish]

theorem finish_read_ne_nil (decoder : Decoder) (byte : UInt8) :
    (decoder.read byte).finish ≠ [] := by
  unfold Decoder.read
  split
  · exact finish_start_ne_nil _ _
  · split
    · split <;> simp [Decoder.finish]
    · exact finish_start_ne_nil _ _

/-- Only nothing is decoded to nothing. -/
theorem decode_eq_nil_iff {bytes : List UInt8} : decode bytes = [] ↔ bytes = [] := by
  constructor
  · intro empty
    rcases List.eq_nil_or_concat' bytes with rfl | ⟨front, byte, rfl⟩
    · rfl
    · rw [decode, List.map_eq_nil_iff, scan_concat, List.append_eq_nil_iff] at empty
      exact absurd empty.2 (finish_read_ne_nil _ _)
  · rintro rfl
    rfl

/-- A character that has been begun can only become one beyond ASCII. No byte is both a line feed
and a carriage return, so there is always a character of ASCII that the byte does not stand for. -/
theorem beyondAscii_of_foldl (bytes : List UInt8)
    (beyond : ∀ pending, decoder.pending = some pending → pending.BeyondAscii) :
    ∀ pending, (bytes.foldl Decoder.read decoder).pending = some pending →
      pending.BeyondAscii := by
  induction bytes generalizing decoder with
  | nil => exact beyond
  | cons byte bytes ih =>
      apply ih
      have same : (decoder.read byte).pending =
          (Decoder.read ⟨decoder.pending, []⟩ byte).pending := by
        change
          (Decoder.read (Decoder.behind decoder.decoded ⟨decoder.pending, []⟩) byte).pending = _
        rw [read_behind]
        rfl
      rw [same]
      by_cases feed : byte.toNat = 10
      · have lacks : Decoder.Lacks '\r' ⟨decoder.pending, []⟩ := ⟨by simp, beyond⟩
        exact (lacks.read (by decide) (by decide) (by simp [feed])).pending
      · have lacks : Decoder.Lacks '\n' ⟨decoder.pending, []⟩ := ⟨by simp, beyond⟩
        exact (lacks.read (by decide) (by decide) (by simpa using feed)).pending

/-- A decoded text ends in a character of ASCII only if the bytes end in that character's byte. -/
theorem getLast?_of_getLast?_decode {bytes : List UInt8} (ascii : character.toNat < 0x80)
    (notNul : character.toNat ≠ 0) (ends : (decode bytes).getLast? = some character) :
    ∃ byte, bytes.getLast? = some byte ∧ byte.toNat = character.toNat := by
  rcases List.eq_nil_or_concat' bytes with rfl | ⟨front, byte, rfl⟩
  · contradiction
  · refine ⟨byte, by simp, ?_⟩
    by_contra other
    have lacks : Decoder.Lacks character
        (Decoder.read ⟨(front.foldl Decoder.read ⟨none, []⟩).pending, []⟩ byte) :=
      Decoder.Lacks.read ⟨by simp, beyondAscii_of_foldl front (by simp)⟩ ascii notNul other
    apply lacks.not_mem_finish ascii
    rw [decode, scan_concat, List.map_append, List.getLast?_append_of_ne_nil] at ends
    · exact List.mem_of_getLast? ends
    · simpa using finish_read_ne_nil _ byte

/-- A carriage return at the end may be dropped before the bytes are decoded or after that. -/
theorem decode_dropLastIf_return (bytes : List UInt8) :
    decode (dropLastIf 13 bytes) = dropLastIf '\r' (decode bytes) := by
  by_cases ends : bytes.getLast? = some 13
  · obtain ⟨front, rfl⟩ := List.getLast?_eq_some_iff.mp ends
    have decoded : decode (front ++ [13]) = decode front ++ ['\r'] :=
      decode_append_cons front [] (by decide)
    simp [dropLastIf, decoded]
  · have others : (decode bytes).getLast? ≠ some '\r' := by
      intro last
      rcases getLast?_of_getLast?_decode (by decide) (by decide) last with ⟨byte, found, code⟩
      obtain rfl : byte = 13 := UInt8.toNat_inj.mp code
      exact ends found
    simp [dropLastIf, ends, others]

/-- A text has a line feed only where the bytes have one. -/
theorem feed_not_mem_decode {bytes : List UInt8} (absent : 10 ∉ bytes) : '\n' ∉ decode bytes := by
  apply not_mem_decode (by decide) (by decide)
  rintro byte member code
  obtain rfl : byte = 10 := UInt8.toNat_inj.mp code
  exact absent member

end Utf8

/-! ### Dividing a sequence -/

section Dividing

variable {α : Type} [BEq α] [LawfulBEq α] {terminator : α}

/-- A sequence is divided behind the first terminator, and what follows is divided in turn. -/
theorem splitAfter_append_cons {front : List α} (rest : List α) (absent : terminator ∉ front) :
    splitAfter terminator (front ++ terminator :: rest) =
      (front ++ [terminator]) :: splitAfter terminator rest := by
  induction front with
  | nil => simp [splitAfter]
  | cons item front ih =>
      rw [List.mem_cons, not_or] at absent
      have goesOn : (item == terminator) = false := beq_eq_false_iff_ne.mpr (Ne.symm absent.1)
      have divided := ih absent.2
      simp only [splitAfter] at divided
      simp only [splitAfter, List.cons_append, List.foldr_cons, goesOn, divided]
      rfl

/-- A sequence without a terminator is one piece. -/
theorem splitAfter_of_not_mem {sequence : List α} (absent : terminator ∉ sequence)
    (filled : sequence ≠ []) : splitAfter terminator sequence = [sequence] := by
  induction sequence with
  | nil => contradiction
  | cons item rest ih =>
      rw [List.mem_cons, not_or] at absent
      have goesOn : (item == terminator) = false := beq_eq_false_iff_ne.mpr (Ne.symm absent.1)
      cases rest with
      | nil => simp [splitAfter, goesOn]
      | cons next others =>
          have divided := ih absent.2 (by simp)
          simp only [splitAfter] at divided
          simp only [splitAfter, List.foldr_cons (a := item), goesOn, divided]
          rfl

end Dividing

theorem dropLastIf_concat {α : Type} [BEq α] [LawfulBEq α] (item : α) (front : List α) :
    dropLastIf item (front ++ [item]) = front := by
  simp [dropLastIf]

theorem dropLastIf_of_not_mem {α : Type} [BEq α] [LawfulBEq α] {item : α} {sequence : List α}
    (absent : item ∉ sequence) : dropLastIf item sequence = sequence := by
  rw [dropLastIf, if_neg]
  rw [beq_iff_eq]
  exact fun last => absent (List.mem_of_getLast? last)

/-- The lines of a text, each without its line feed and without one carriage return at the end. They
differ from `lines` where a carriage return ends the text: there no line feed is behind it. -/
def bareLines (text : List Char) : List (List Char) :=
  (splitAfter '\n' text).map fun line => dropLastIf '\r' (dropLastIf '\n' line)

/-- A line without the carriage returns at its end. -/
def dropReturns (line : List Char) : List Char :=
  dropEndWhile (· == '\r') line

end Text

namespace RawLine

open Text

/-- It makes no difference whether the bytes of a file are divided into lines first or decoded
first. A line feed is decoded on its own, so decoding goes on afresh behind each of them, and the
induction is on the number of line feeds. -/
theorem texts_eq_bareLines (content : List UInt8) :
    texts content = bareLines (Utf8.decode content) := by
  by_cases divided : (10 : UInt8) ∈ content
  · obtain ⟨front, rest, shape, absent⟩ := List.eq_append_cons_of_mem divided
    have shorter : rest.length < content.length := by simp [shape]; omega
    have text : Utf8.decode content = Utf8.decode front ++ '\n' :: Utf8.decode rest := by
      rw [shape]
      exact Utf8.decode_append_cons front rest (by decide)
    have first : decode (front ++ [10]) = dropLastIf '\r' (Utf8.decode front) := by
      rw [decode, dropLastIf_concat, Utf8.decode_dropLastIf_return]
    calc texts content = decode (front ++ [10]) :: texts rest := by
          rw [shape, texts, splitAfter_append_cons rest absent]
          rfl
      _ = dropLastIf '\r' (Utf8.decode front) :: bareLines (Utf8.decode rest) := by
          rw [first, texts_eq_bareLines rest]
      _ = bareLines (Utf8.decode content) := by
          rw [text, bareLines, bareLines,
            splitAfter_append_cons _ (Utf8.feed_not_mem_decode absent), List.map_cons,
            dropLastIf_concat]
  · by_cases empty : content = []
    · subst empty
      rfl
    · have feeds := Utf8.feed_not_mem_decode divided
      have filled : Utf8.decode content ≠ [] := mt Utf8.decode_eq_nil_iff.mp empty
      rw [texts, splitAfter_of_not_mem divided empty, bareLines, splitAfter_of_not_mem feeds filled]
      simp only [List.map_cons, List.map_nil, decode, dropLastIf_of_not_mem divided,
        dropLastIf_of_not_mem feeds, Utf8.decode_dropLastIf_return]
termination_by content.length

end RawLine

namespace Text

/-! ### The two readings of a line's end -/

theorem dropReturns_dropLastIf (line : List Char) :
    dropReturns (dropLastIf '\r' line) = dropReturns line := by
  rcases List.eq_nil_or_concat' line with rfl | ⟨front, last, rfl⟩
  · rfl
  · by_cases ends : last = '\r' <;> simp [dropLastIf, dropReturns, dropEndWhile, ends]

/-- But for the carriage returns at their ends, the lines are the same. -/
theorem map_dropReturns_bareLines (text : List Char) :
    (bareLines text).map dropReturns = (lines text).map dropReturns := by
  simp only [bareLines, lines, List.map_map]
  apply List.map_congr_left
  intro line _
  simp only [Function.comp_apply, dropReturns_dropLastIf]
  by_cases feed : line.getLast? = some '\n'
  · simp [dropLastIf.eq_1 '\n', feed, dropReturns_dropLastIf]
  · simp [dropLastIf, feed]

theorem length_bareLines (text : List Char) : (bareLines text).length = (lines text).length := by
  simp [bareLines, lines]

end Text

end TadsReference
