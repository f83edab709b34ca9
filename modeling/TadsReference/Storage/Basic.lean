import TadsReference.Failure
import TadsReference.Path

/-!
# Storage

What the program asks of the place where its files are kept. The operations are those of a monad,
so that the program can be run on a disk as well as on a tree of files held in memory.
-/

namespace TadsReference

/-- What can stand at a path. -/
inductive PlaceKind where
  | file
  | directory
deriving Repr, DecidableEq

/-- A monad in which files can be read and written. -/
class Storage (m : Type → Type) where
  kind? : String → m (Option PlaceKind)
  names : String → ExceptT StorageFault m (List String)
  read : String → ExceptT StorageFault m (List UInt8)
  /-- Gives a file a content. The file is made if there is none. -/
  write : String → List UInt8 → ExceptT StorageFault m Unit
  /-- Makes a directory where nothing stands. -/
  makeDirectory : String → ExceptT StorageFault m Unit

namespace Storage

variable {m : Type → Type} [Monad m] [Storage m]

/-- Whether a file stands at a path. -/
def isFile (path : String) : m Bool := do
  return (← kind? path) == some .file

/-- Whether a directory stands at a path. -/
def isDirectory (path : String) : m Bool := do
  return (← kind? path) == some .directory

/-- Makes a directory, unless it is there. -/
def requireDirectory (path : String) : ExceptT StorageFault m Unit :=
  tryCatch (makeDirectory path) fun fault => do
    unless ← (isDirectory path : m Bool) do throw fault

/-- Makes the first directory of a list, unless it is there. If the directory around it is missing,
the others of the list are made before it. -/
def makeFirst : List String → ExceptT StorageFault m Unit
  | [] => return
  | path :: ancestors =>
      tryCatch (requireDirectory path) fun fault => do
        if fault = .notFound then
          makeFirst ancestors
          requireDirectory path
        else throw fault

/-- Makes a directory and those around it, as far as they are missing. -/
def makeDirectories (path : String) : ExceptT StorageFault m Unit :=
  makeFirst (Path.ancestors path)

end Storage

end TadsReference
