import TadsReference.Text.Search

/-!
# Failures

The causes for which reading the source files or writing the site stops, and their wording.
-/

namespace TadsReference

/-- What can go wrong where files are read and written. -/
inductive StorageFault where
  | notFound
  | isDirectory
  | notDirectory
  | alreadyExists
  /-- A name, or the path as a whole, is longer than the file system allows. -/
  | nameTooLong
  /-- The path contains the character that ends a path for the operating system. -/
  | nulInPath
  /-- The content is not valid UTF-8 where a text is needed. -/
  | notText
  /-- Any other fault, in the words and with the number of the operating system. -/
  | other (description : String) (code : Nat)
deriving Repr, DecidableEq

namespace StorageFault

/-- The wording of a fault, with the number that the operating system gives it. -/
def message : StorageFault → String
  | notFound => "No such file or directory (os error 2)"
  | isDirectory => "Is a directory (os error 21)"
  | notDirectory => "Not a directory (os error 20)"
  | alreadyExists => "File exists (os error 17)"
  | nameTooLong => "File name too long (os error 36)"
  | nulInPath => "file name contained an unexpected NUL byte"
  | notText => "stream did not contain valid UTF-8"
  | other description code => s!"{description} (os error {code})"

end StorageFault

/-- Expansion passes tried on one line before its macros count as endless. -/
def expansionLimit : Nat := 64

/-- Why no graph and no site can be made of the input files. -/
inductive Failure where
  /-- A file includes one that is not among the input files. -/
  | unknownInclude (file included : String)
  /-- These files are part of an include cycle or depend on one. -/
  | cyclicIncludes (files : List String)
  /-- Expanding this macro in a line did not come to an end. -/
  | endlessExpansion (name : String)
  /-- A construct that spans several lines was cut short by the end of its file. -/
  | unexpectedEnd (file : String) (line : Nat)
  | storage (path : String) (fault : StorageFault)
  | unknownFormat (name : String)
deriving Repr, DecidableEq

namespace Failure

/-- The text in which a failure is reported. The fault that caused it is reported apart from it. -/
def message : Failure → String
  | unknownInclude file included =>
      "unknown include file `" ++ included ++ "` (included from " ++ file ++ ")"
  | cyclicIncludes files => "cyclic #include dependency among: " ++ Text.join ", " files
  | endlessExpansion name =>
      "macro expansion of `" ++ name ++ "` did not settle after " ++ toString expansionLimit ++
        " passes"
  | unexpectedEnd file line => s!"unexpected end of input in {file} after line {line}"
  | storage path _ => s!"i/o error on {path}"
  | unknownFormat name => s!"unknown format: {name}. Use markdown or json"

end Failure

end TadsReference
