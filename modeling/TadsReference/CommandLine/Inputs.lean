import TadsReference.CommandLine.RunFailure
import TadsReference.Glob.Search
import TadsReference.Source.Input

/-!
# Inputs

The input files that the arguments of the command line stand for.
-/

namespace TadsReference.CommandLine

variable {m : Type → Type} [Monad m] [Storage m]

/-- Whether a path has the name of a source file, a header or not. Only such files are taken from a
directory. -/
def isSourceName (path : String) : Bool :=
  match Path.extension? path with
  | some extension => ["t", "h"].contains extension
  | none => false

/-- The source files that stand directly in a directory, in the order in which the storage lists
them. -/
def sourcesIn (directory : String) : ExceptT RunFailure m (List String) := do
  let names ← ExceptT.adapt (RunFailure.directory directory)
    (Storage.names directory : ExceptT StorageFault m (List String))
  let paths := (names.map (Path.join directory)).filter isSourceName
  (paths.filterM Storage.isFile : m (List String))

/-- The files that an argument stands for: itself, the sources in a directory, or the files that a
pattern matches. -/
def filesFor (argument : String) : ExceptT RunFailure m (List String) := do
  match ← (Storage.kind? argument : m (Option PlaceKind)) with
  | some .file => return [argument]
  | some .directory => sourcesIn argument
  | none => ExceptT.adapt (RunFailure.pattern argument) (Glob.files argument)

/-- The paths of all input files, sorted and each of them once. -/
def inputPaths (arguments : List String) : ExceptT RunFailure m (List String) := do
  let found ← arguments.flatMapM filesFor
  return (found.mergeSort Path.atMost).eraseRepsBy Path.same

/-- The mirror of a source file. One that stands for a directory cannot be read. -/
def mirrorOf (mirrorDirectory : Option String) (path : String) : m Mirror := do
  match mirrorDirectory with
  | none => return .absent
  | some directory =>
      let mirror := Path.join directory (SourceFile.ofPath path).shortName
      match ← (Storage.read mirror : ExceptT StorageFault m (List UInt8)).run with
      | .ok content => return .content content
      | .error .isDirectory => return .unreadable .isDirectory
      | .error _ => return .absent

/-- The input file at a path, with its copy in the mirror directory if there is one. A file that
cannot be read is a failure, while a missing mirror is none. -/
def readInput (mirrorDirectory : Option String) (path : String) :
    ExceptT Failure m InputFile := do
  let content ← ExceptT.adapt (Failure.storage path)
    (Storage.read path : ExceptT StorageFault m (List UInt8))
  let mirror ← (mirrorOf mirrorDirectory path : m Mirror)
  return .ofContent path content mirror

end TadsReference.CommandLine
