import TadsReference.Text.Lines
import TadsReference.Text.Utf8

/-!
# Raw lines

The lines of a source file as they stand there, each with its number and with the line of the same
number in the mirror, a second copy of the file whose macros have been expanded. A source serves
them one by one and takes back lines that were only read to look ahead.
-/

namespace TadsReference

/-- A line of a source file as it stands there. -/
structure RawLine where
  /-- The number of the line, counted from one. -/
  number : Nat
  text : List Char
  /-- The mirror's line of the same number, if there is one. -/
  mirror : Option (List Char)
deriving Repr, DecidableEq, Inhabited

namespace RawLine

/-- The text of a line of bytes, without its line feed and without one carriage return at the
end. -/
def decode (line : List UInt8) : List Char :=
  Text.Utf8.decode (Text.dropLastIf 13 (Text.dropLastIf 10 line))

/-- The text of the first line of a file, and the bytes behind it. -/
def readText? (content : List UInt8) : Option (List Char × List UInt8) :=
  if content.isEmpty then none
  else
    let (line, rest) := Text.cutAfter 10 content
    some (decode line, rest)

/-- The texts of the lines of a file. -/
def texts (content : List UInt8) : List (List Char) :=
  (Text.splitAfter 10 content).map decode

/-- Numbers lines from the one after `number`, and gives them the lines of the mirror in
order. -/
def enumerate (number : Nat) : (lines mirror : List (List Char)) → List RawLine
  | [], _ => []
  | line :: lines, mirror =>
      ⟨number + 1, line, mirror.head?⟩ :: enumerate (number + 1) lines mirror.tail

/-- The lines of a file that may have a mirror. -/
def ofContent (content : List UInt8) (mirror : Option (List UInt8)) : List RawLine :=
  enumerate 0 (texts content) ((mirror.map texts).getD [])

theorem texts_of_readText? {content rest : List UInt8} {text : List Char}
    (read : readText? content = some (text, rest)) : texts content = text :: texts rest := by
  cases content with
  | nil => simp [readText?] at read
  | cons byte others =>
      simp only [readText?, List.isEmpty_cons, Bool.false_eq_true, ↓reduceIte, Option.some.injEq,
        Prod.mk.injEq] at read
      simp only [texts, Text.splitAfter_cons, List.map_cons, read]

theorem texts_of_readText?_none {content : List UInt8} (read : readText? content = none) :
    texts content = [] := by
  cases content with
  | nil => rfl
  | cons byte others => simp [readText?] at read

end RawLine

/-- The raw lines of a file that are still to be read. -/
structure LineSource where
  /-- Lines that were read ahead and handed back. They are read again before the others. -/
  handedBack : List RawLine
  /-- The bytes of the file that have not been read. -/
  content : List UInt8
  /-- The bytes of the mirror that have not been read, if there is a mirror. -/
  mirror : Option (List UInt8)
  /-- The number of the line that was read last. -/
  number : Nat
  /-- How many lines have been read from the bytes of the file. -/
  taken : Nat
deriving Repr, DecidableEq

namespace LineSource

/-- A source in front of the first line of a file. -/
def ofContent (content : List UInt8) (mirror : Option (List UInt8)) : LineSource where
  handedBack := []
  content := content
  mirror := mirror
  number := 0
  taken := 0

/-- The next raw line, if there is one. The mirror is read in step with the file. -/
def read? (source : LineSource) : Option (RawLine × LineSource) :=
  match source.handedBack with
  | line :: others => some (line, { source with handedBack := others, number := line.number })
  | [] =>
      match RawLine.readText? source.content with
      | none => none
      | some (text, rest) =>
          let number := source.taken + 1
          let mirrored := source.mirror.bind RawLine.readText?
          some (⟨number, text, mirrored.map (·.1)⟩,
            { source with
              content := rest
              mirror := source.mirror.map fun bytes => (mirrored.map (·.2)).getD bytes
              number := number
              taken := number })

/-- Hands lines back to be read again, behind the line of a given number. -/
def handBack (lines : List RawLine) (number : Nat) (source : LineSource) : LineSource :=
  { source with handedBack := lines ++ source.handedBack, number := number }

/-- The lines that the bytes of the file and of the mirror still hold. -/
def unread (source : LineSource) : List RawLine :=
  RawLine.enumerate source.taken (RawLine.texts source.content)
    ((source.mirror.map RawLine.texts).getD [])

/-- All lines that are still to be read. -/
def ahead (source : LineSource) : List RawLine :=
  source.handedBack ++ source.unread

@[simp] theorem ahead_ofContent (content : List UInt8) (mirror : Option (List UInt8)) :
    (ofContent content mirror).ahead = RawLine.ofContent content mirror :=
  rfl

@[simp] theorem ahead_handBack (lines : List RawLine) (number : Nat) (source : LineSource) :
    (source.handBack lines number).ahead = lines ++ source.ahead := by
  simp [ahead, handBack, unread]

@[simp] theorem number_handBack (lines : List RawLine) (number : Nat) (source : LineSource) :
    (source.handBack lines number).number = number :=
  rfl

/-- Reading from the bytes takes the first of the lines that they hold. -/
theorem texts_mirror (mirror : Option (List UInt8)) :
    let mirrored := mirror.bind RawLine.readText?
    ((mirror.map RawLine.texts).getD []).head? = mirrored.map (·.1) ∧
      ((mirror.map RawLine.texts).getD []).tail =
        ((mirror.map fun bytes => (mirrored.map (·.2)).getD bytes).map RawLine.texts).getD [] := by
  cases mirror with
  | none => simp
  | some bytes =>
      cases read : RawLine.readText? bytes with
      | none => simp [read, RawLine.texts_of_readText?_none read]
      | some found => simp [read, RawLine.texts_of_readText? read]

theorem ahead_of_read? {source behind : LineSource} {line : RawLine}
    (read : source.read? = some (line, behind)) : source.ahead = line :: behind.ahead := by
  unfold read? at read
  split at read
  · next others shape =>
      cases read
      simp [ahead, shape, unread]
  · next shape =>
      split at read
      · contradiction
      · next text rest found =>
          cases read
          obtain ⟨first, others⟩ := texts_mirror source.mirror
          simp only [ahead, shape, unread, List.nil_append, RawLine.texts_of_readText? found,
            RawLine.enumerate, first, others]

theorem number_of_read? {source behind : LineSource} {line : RawLine}
    (read : source.read? = some (line, behind)) : behind.number = line.number := by
  unfold read? at read
  split at read
  · cases read
    rfl
  · split at read
    · contradiction
    · cases read
      rfl

theorem ahead_of_read?_none {source : LineSource} (read : source.read? = none) :
    source.ahead = [] := by
  unfold read? at read
  split at read
  · contradiction
  · next shape =>
      split at read
      · next found =>
          simp [ahead, shape, unread, RawLine.texts_of_readText?_none found, RawLine.enumerate]
      · contradiction

end LineSource

end TadsReference
