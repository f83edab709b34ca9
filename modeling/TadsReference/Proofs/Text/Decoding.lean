import TadsReference.Reader.RawLine

/-!
# What decoding can yield

A character of ASCII other than NUL stands for its own byte in UTF-8: longer sequences decode to
greater characters, and faults to the replacement character. So the text of a line has no line feed
in it.
-/

namespace TadsReference

namespace Text

namespace Utf8

/-- Whether a character that has been begun can only become one beyond ASCII. -/
structure Pending.BeyondAscii (pending : Pending) : Prop where
  last : pending.missing = 1 → 2 ≤ pending.bits
  next : 2 ≤ pending.bits * 0x40 + (pending.least - 0x80)

/-- Whether a decoder has not decoded a character of ASCII, and is not about to. -/
structure Decoder.Lacks (character : Char) (decoder : Decoder) : Prop where
  decoded : some character ∉ decoder.decoded
  pending : ∀ pending, decoder.pending = some pending → pending.BeyondAscii

/-- A code is that of the character made from it, if it is the code of one at all. -/
theorem toNat_ofNat_eq_or (code : Nat) :
    (Char.ofNat code).toNat = code ∨ (Char.ofNat code).toNat = 0 := by
  by_cases valid : code.isValidChar
  · left
    rw [Char.ofNat, dif_pos valid]
    rfl
  · right
    rw [Char.ofNat, dif_neg valid]
    rfl

variable {character : Char} {decoder : Decoder}

namespace Decoder.Lacks

/-- The first byte of a character leads to this character only if it is its byte. A byte of ASCII
stands for itself, and any other one begins a character beyond ASCII or is a fault. -/
theorem start {byte : Nat} (lacks : decoder.Lacks character) (notNul : character.toNat ≠ 0)
    (other : byte ≠ character.toNat) : (decoder.start byte).Lacks character := by
  have keeps (pending : Pending) (beyond : pending.BeyondAscii) :
      Decoder.Lacks character { decoder with pending := some pending } := by
    refine ⟨lacks.decoded, ?_⟩
    rintro _ ⟨⟩
    exact beyond
  unfold Decoder.start
  split
  · refine ⟨?_, by simp⟩
    rw [List.mem_cons, not_or]
    refine ⟨?_, lacks.decoded⟩
    rw [Option.some.injEq]
    rintro rfl
    rcases toNat_ofNat_eq_or byte with same | nul
    · exact other same.symm
    · exact notNul nul
  · split
    · next range =>
        simp only [Bool.and_eq_true, decide_eq_true_eq] at range
        apply keeps
        constructor
        · intro _
          simp only
          omega
        · simp only
          omega
    · split
      · next range =>
          simp only [Bool.and_eq_true, decide_eq_true_eq] at range
          apply keeps
          constructor
          · simp
          · simp only [beq_iff_eq]
            split <;> omega
      · split
        · next range =>
            simp only [Bool.and_eq_true, decide_eq_true_eq] at range
            apply keeps
            constructor
            · simp
            · simp only [beq_iff_eq]
              split <;> omega
        · exact ⟨by simpa using lacks.decoded, by simp⟩

/-- A byte goes on with a character that can only become one beyond ASCII, or it ends this with a
fault and starts another one. -/
theorem read {byte : UInt8} (lacks : decoder.Lacks character) (ascii : character.toNat < 0x80)
    (notNul : character.toNat ≠ 0) (other : byte.toNat ≠ character.toNat) :
    (decoder.read byte).Lacks character := by
  unfold Decoder.read
  split
  · exact lacks.start notNul other
  · next pending shape =>
      have beyond := lacks.pending pending shape
      split
      · next range =>
          simp only [Bool.and_eq_true, decide_eq_true_eq] at range
          have next := beyond.next
          split
          · next ends =>
              have bits := beyond.last (by simpa using ends)
              refine ⟨?_, by simp⟩
              rw [List.mem_cons, not_or]
              refine ⟨?_, lacks.decoded⟩
              intro same
              rw [Option.some.injEq] at same
              rcases toNat_ofNat_eq_or (pending.bits * 0x40 + (byte.toNat - 0x80)) with code | nul
              · rw [← same] at code
                omega
              · exact notNul (by rw [same, nul])
          · refine ⟨lacks.decoded, ?_⟩
            intro later same
            simp only [Option.some.injEq] at same
            subst same
            constructor
            · intro _
              simp only
              omega
            · simp only
              omega
      · apply start _ notNul other
        exact ⟨by simpa using lacks.decoded, by simp⟩

/-- If the byte of a character of ASCII is not among the bytes, the character is not among what they
are decoded to. -/
theorem foldl {bytes : List UInt8} (lacks : decoder.Lacks character)
    (ascii : character.toNat < 0x80) (notNul : character.toNat ≠ 0)
    (others : ∀ byte ∈ bytes, byte.toNat ≠ character.toNat) :
    (bytes.foldl Decoder.read decoder).Lacks character := by
  induction bytes generalizing decoder with
  | nil => exact lacks
  | cons byte bytes ih =>
      rw [List.forall_mem_cons] at others
      exact ih (lacks.read ascii notNul others.1) others.2

end Decoder.Lacks

/-- Nothing that a decoder lacks is in the text that it ends with. -/
theorem Decoder.Lacks.not_mem_finish (lacks : decoder.Lacks character)
    (ascii : character.toNat < 0x80) : character ∉ decoder.finish.map (·.getD '\uFFFD') := by
  intro member
  have absent : some character ∉ decoder.finish := by
    unfold Decoder.finish
    split <;> simpa using lacks.decoded
  rw [List.mem_map] at member
  rcases member with ⟨item, scanned, shown⟩
  cases item with
  | none =>
      simp only [Option.getD_none] at shown
      subst shown
      simp at ascii
  | some found =>
      simp only [Option.getD_some] at shown
      subst shown
      exact absent scanned

/-- A character of ASCII is not in a decoded text unless its own byte is among the bytes. -/
theorem not_mem_decode {bytes : List UInt8} (ascii : character.toNat < 0x80)
    (notNul : character.toNat ≠ 0) (others : ∀ byte ∈ bytes, byte.toNat ≠ character.toNat) :
    character ∉ decode bytes := by
  have lacks : (bytes.foldl Decoder.read ⟨none, []⟩).Lacks character :=
    Decoder.Lacks.foldl ⟨by simp, by simp⟩ ascii notNul others
  exact lacks.not_mem_finish ascii

end Utf8

/-- The first piece of a sequence has its terminator at the end, if it has one at all. -/
theorem exists_cutAfter_eq {α : Type} [BEq α] [LawfulBEq α] (terminator : α) (sequence : List α) :
    ∃ front, terminator ∉ front ∧
      ((cutAfter terminator sequence).1 = front ∨
        (cutAfter terminator sequence).1 = front ++ [terminator]) := by
  induction sequence with
  | nil => exact ⟨[], by simp, .inl rfl⟩
  | cons item rest ih =>
      rw [cutAfter]
      split
      · next ends =>
          rw [beq_iff_eq] at ends
          exact ⟨[], by simp, .inr (by simp [ends])⟩
      · next goesOn =>
          rw [beq_iff_eq] at goesOn
          rcases ih with ⟨front, absent, shape⟩
          refine ⟨item :: front, by simp [absent, Ne.symm goesOn], ?_⟩
          rcases shape with whole | ended
          · exact .inl (by simp [whole])
          · exact .inr (by simp [ended])

end Text

namespace RawLine

/-- The text of a line has no line feed in it. The bytes of a line have none but at the end, which
is taken away. -/
theorem newline_not_mem_of_readText? {content rest : List UInt8} {text : List Char}
    (read : readText? content = some (text, rest)) : '\n' ∉ text := by
  unfold readText? at read
  split at read
  · contradiction
  · cases read
    rcases Text.exists_cutAfter_eq 10 content with ⟨front, absent, shape⟩
    have ended : Text.dropLastIf 10 (Text.cutAfter 10 content).1 = front := by
      rcases shape with whole | terminated
      · rw [whole, Text.dropLastIf, if_neg]
        rw [beq_iff_eq]
        exact fun last => absent (List.mem_of_getLast? last)
      · simp [terminated, Text.dropLastIf]
    apply Text.Utf8.not_mem_decode (by decide) (by decide)
    rw [ended]
    intro byte inLine code
    obtain rfl : byte = 10 := UInt8.toNat_inj.mp code
    apply absent
    unfold Text.dropLastIf at inLine
    split at inLine
    · exact List.dropLast_subset _ inLine
    · exact inLine

end RawLine

end TadsReference
