import TadsReference.Path
import TadsReference.Source.Includes
import TadsReference.Text.Utf8

/-!
# Source files

What is known of an input file before its lines are classified.
-/

namespace TadsReference

/-- A source file, with what is known of it before it is classified. -/
structure SourceFile where
  path : String
  /-- The name without directories, by which other files include this one. -/
  shortName : String
  isHeader : Bool
  includes : List String
  lineCount : Nat
deriving Repr, DecidableEq, Inhabited

namespace SourceFile

/-- The file of a path, before it has been read. -/
def ofPath (path : String) : SourceFile where
  path := path
  shortName := (Path.fileName? path).getD path
  isHeader := Path.extension? path == some "h"
  includes := []
  lineCount := 0

/-- Adds what a first look at the content of a file shows. -/
def scanned (file : SourceFile) (content : List UInt8) : SourceFile :=
  let text := Text.Utf8.decode content
  { file with lineCount := (Text.lines text).length, includes := includedNames text }

end SourceFile

end TadsReference
