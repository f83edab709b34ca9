import TadsReference.Reader.Basic
import TadsReference.Source.File

/-!
# Input files

An input file is a source file with its content, and with its mirror if it has one.
-/

namespace TadsReference

/-- The second copy of a source file, with its macros expanded. -/
inductive Mirror where
  | absent
  | content (bytes : List UInt8)
  /-- There is one, but its lines cannot be read. -/
  | unreadable (fault : StorageFault)
deriving Repr, DecidableEq, Inhabited

namespace Mirror

/-- The content of a mirror that can be read. -/
def content? : Mirror → Option (List UInt8)
  | content bytes => some bytes
  | _ => none

end Mirror

/-- An input file with all that is read of it. -/
structure InputFile where
  source : SourceFile
  content : List UInt8
  mirror : Mirror
deriving Repr, DecidableEq, Inhabited

namespace InputFile

/-- An input file of given content, with its includes and lines counted. -/
def ofContent (path : String) (content : List UInt8) (mirror : Mirror) : InputFile where
  source := (SourceFile.ofPath path).scanned content
  content := content
  mirror := mirror

/-- The reader at the start of a file. A mirror that cannot be read is a failure as soon as the
file has a line. -/
def reader (input : InputFile) (macros : Option MacroScope) : Except Failure Reader :=
  match input.mirror, input.content with
  | .unreadable fault, _ :: _ => .error (.storage input.source.path fault)
  | _, _ =>
      .ok (Reader.ofContent input.source.shortName input.content input.mirror.content? macros)

end InputFile

end TadsReference
