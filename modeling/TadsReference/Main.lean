import TadsReference.CommandLine.Run

/-!
# The program

The operations on files are those of the operating system here, and the arguments are those of the
command line.
-/

namespace TadsReference

/-- The number of an error without its sign, which some operations change. -/
def unsigned (number : UInt32) : Nat :=
  if number.toNat < 0x80000000 then number.toNat else 0x100000000 - number.toNat

/-- The number that the operating system gives an error, with its words. -/
def faultNumber? : IO.Error → Option (Nat × String)
  | .alreadyExists _ number words | .otherError number words | .resourceBusy number words
  | .resourceVanished number words | .unsupportedOperation number words
  | .hardwareFault number words | .unsatisfiedConstraints number words
  | .illegalOperation number words | .protocolError number words | .timeExpired number words
  | .interrupted _ number words | .noFileOrDirectory _ number words
  | .invalidArgument _ number words | .permissionDenied _ number words
  | .resourceExhausted _ number words | .inappropriateType _ number words
  | .noSuchThing _ number words => some (unsigned number, words)
  | .unexpectedEof | .userError _ => none

/-- The fault that an error of the operating system stands for. -/
def faultOf (error : IO.Error) : StorageFault :=
  match faultNumber? error with
  | some (2, _) => .notFound
  | some (17, _) => .alreadyExists
  | some (20, _) => .notDirectory
  | some (21, _) => .isDirectory
  | some (36, _) => .nameTooLong
  | some (number, words) => .other words number
  | none => .other (toString error) 0

/-- An operation on a path whose errors are faults. -/
def guarded {Result : Type} (operation : String → IO Result) (path : String) :
    ExceptT StorageFault IO Result :=
  ExceptT.mk do
    if Path.hasNul path then return .error .nulInPath
    try
      return .ok (← operation path)
    catch error =>
      return .error (faultOf error)

/-- What stands at a path on the disk, symbolic links followed. What cannot be looked at counts as
missing. -/
def kindOnDisk (path : String) : IO (Option PlaceKind) := do
  if Path.hasNul path then return none
  try
    let found ← IO.FS.realPath path
    match (← found.metadata).type with
    | .dir => return some .directory
    | .file => return some .file
    | _ => return none
  catch _ =>
    return none

/-- The names in a directory on the disk, in the order in which the operating system gives them. -/
def namesOnDisk (path : String) : IO (List String) := do
  let found ← IO.FS.realPath path
  return (← found.readDir).toList.map (·.fileName)

/-- The disk as a storage. Faults of the operating system are turned into those of a storage. -/
instance : Storage IO where
  kind? := kindOnDisk
  names := guarded namesOnDisk
  read := guarded fun path => do return (← IO.FS.readBinFile path).toList
  write path content := guarded (fun path => IO.FS.writeBinFile path ⟨content.toArray⟩) path
  makeDirectory := guarded fun path => IO.FS.createDir path

/-- The text that explains how the program is called. -/
def usage : String :=
  "usage: tads-reference -o DIRECTORY -i FILE [OPTION]... PATH...\n\n" ++
  "Writes a cross-referenced site for TADS 3 library sources. A PATH is a source file, a\n" ++
  "directory of source files or a pattern of file names.\n\n" ++
  "  -o, --output DIRECTORY      the directory of the site\n" ++
  "  -i, --intro FILE            the introduction for the index page\n" ++
  "  -m, --mirror-dir DIRECTORY  copies of the sources with their macros expanded\n" ++
  "      --tads-version VERSION  the version of the library\n" ++
  "      --version-file FILE     a file whose first line is the version of the library\n" ++
  "  -d, --dump FILE             also write the declarations as plain text\n" ++
  "  -f, --format FORMAT         markdown (the default) or json\n" ++
  "      --expand-macros         expand macros in the sources\n" ++
  "  -v, --verbose               accepted, although a run reports nothing but failures\n" ++
  "  -h, --help                  show this text"

/-- Tells the user how a run has ended. -/
def announce : CommandLine.Ending → IO Unit
  | .finished => return
  | .failed failure => IO.eprintln failure.report
  | .stopped .help => IO.println usage
  | .stopped .misuse => IO.eprintln usage

end TadsReference

/-- Runs the program on the disk. -/
def main (arguments : List String) : IO UInt32 := do
  let ending ← (TadsReference.CommandLine.execute arguments : IO TadsReference.CommandLine.Ending)
  TadsReference.announce ending
  return UInt32.ofNat ending.code
