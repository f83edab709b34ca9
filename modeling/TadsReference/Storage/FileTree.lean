import TadsReference.Storage.Basic

/-!
# File trees

A tree of files and directories in memory. Its places are known by the names that lead to them
from the root.
-/

namespace TadsReference

/-- What stands at a place of a file tree. -/
inductive Node where
  | file (content : List UInt8)
  | directory
deriving Repr, DecidableEq, Inhabited

namespace Node

/-- What a node of a tree is. -/
def kind : Node → PlaceKind
  | file _ => .file
  | directory => .directory

end Node

/-- The names that lead to a place from the root. -/
abbrev Place := List String

/-- A tree of files. The root is a directory and is not listed. -/
structure FileTree where
  /-- What stands at the places of the tree, in the order in which it was made. -/
  nodes : List (Place × Node)
  /-- The directory at which paths begin that do not begin at the root. -/
  current : Place
deriving Repr, DecidableEq, Inhabited

namespace FileTree

/-- The tree of which only the root is there. -/
def empty : FileTree := ⟨[], []⟩

/-- The tree of which only a current directory below the root is there. -/
def inDirectory (name : String) : FileTree := ⟨[([name], .directory)], [name]⟩

/-- What stands at a place of a tree. At the root there is always a directory. -/
def node? (tree : FileTree) (place : Place) : Option Node :=
  if place.isEmpty then some .directory else tree.nodes.lookup place

/-- Puts something at a place other than the root. -/
def put (tree : FileTree) (place : Place) (node : Node) : FileTree :=
  let nodes :=
    if (tree.nodes.lookup place).isSome then
      tree.nodes.map fun entry => if entry.1 == place then (place, node) else entry
    else tree.nodes ++ [(place, node)]
  { tree with nodes }

/-- The place to which a part of a path leads from a directory. The root is its own parent. -/
def follow (place : Place) (part : String) : Place :=
  if part == "" || part == "." then place
  else if part == ".." then place.dropLast
  else place ++ [part]

/-- The bytes that a name may have. -/
def nameLimit : Nat := 255

/-- The bytes that a path may have. -/
def pathLimit : Nat := 4095

/-- The place to which the parts of a path lead. All places on the way to it are directories, but
nothing need stand at the last one. -/
def walk (tree : FileTree) (place : Place) : List String → Except StorageFault Place
  | [] => .ok place
  | part :: parts =>
      match tree.node? place with
      | some .directory =>
          if part.utf8ByteSize > nameLimit then .error .nameTooLong
          else walk tree (follow place part) parts
      | some (.file _) => .error .notDirectory
      | none => .error .notFound

/-- The place at which a path begins. -/
def start (tree : FileTree) (path : String) : Place :=
  if Path.isAbsolute path then [] else tree.current

/-- The place to which a path leads in a tree, or why it leads to none. -/
def locate (tree : FileTree) (path : String) : Except StorageFault Place :=
  if Path.hasNul path then .error .nulInPath
  else if path == "" then .error .notFound
  else if path.utf8ByteSize > pathLimit then .error .nameTooLong
  else tree.walk (tree.start path) (Path.parts path)

/-- What stands at a path in a tree. -/
def find (tree : FileTree) (path : String) : Except StorageFault Node := do
  let place ← tree.locate path
  match tree.node? place with
  | some node => return node
  | none => throw .notFound

/-- The names in a directory of a tree. -/
def names (tree : FileTree) (path : String) : Except StorageFault (List String) := do
  let place ← tree.locate path
  match tree.node? place with
  | some .directory =>
      return tree.nodes.filterMap fun entry =>
        if entry.1.dropLast == place then entry.1.getLast? else none
  | some (.file _) => throw .notDirectory
  | none => throw .notFound

/-- The content of a file of a tree. -/
def read (tree : FileTree) (path : String) : Except StorageFault (List UInt8) := do
  match ← tree.find path with
  | .file content => return content
  | .directory => throw .isDirectory

/-- Whether a path ends in a slash, by which it asks for a directory. -/
def endsInSlash (path : String) : Bool :=
  path.toList.getLast? == some '/'

/-- A path without the slashes at its end. The path of the root keeps one. -/
def withoutSlashes (path : String) : String :=
  if path != "" && path.toList.all (· == '/') then "/"
  else String.ofList (path.toList.reverse.dropWhile (· == '/')).reverse

/-- A tree with a file written at a path. The directory of the file has to be there, and no
directory may stand at its place. -/
def write (tree : FileTree) (path : String) (content : List UInt8) :
    Except StorageFault FileTree := do
  let place ← tree.locate (withoutSlashes path)
  if endsInSlash path || (tree.node? place) == some .directory then throw .isDirectory
  else return tree.put place (.file content)

/-- Makes a directory where nothing stands. -/
def makeDirectory (tree : FileTree) (path : String) : Except StorageFault FileTree := do
  let place ← tree.locate (withoutSlashes path)
  if (tree.node? place).isSome then throw .alreadyExists
  else return tree.put place .directory

/-- The directories around a place, from the outside in. -/
def around (place : Place) : List Place :=
  (List.range (place.length - 1)).map fun count => place.take (count + 1)

/-- Adds a file and the directories around it. -/
def addFile (tree : FileTree) (path : String) (content : List UInt8) : FileTree :=
  let place := (Path.parts path).foldl follow (tree.start path)
  ((around place).foldl (fun tree directory => tree.put directory .directory) tree).put place
    (.file content)

/-- A tree with some files added. -/
def addFiles (tree : FileTree) (files : List (String × List UInt8)) : FileTree :=
  files.foldl (fun tree file => tree.addFile file.1 file.2) tree

/-- The files below the current directory with their paths. -/
def files (tree : FileTree) : List (String × List UInt8) :=
  tree.nodes.filterMap fun entry =>
    match entry.2 with
    | .file content =>
        if tree.current.isPrefixOf entry.1 then
          some (Text.join "/" (entry.1.drop tree.current.length), content)
        else none
    | .directory => none

/-- An operation that changes the tree or fails. -/
def change (operation : FileTree → Except StorageFault FileTree) :
    ExceptT StorageFault (StateM FileTree) Unit := do
  set (← ofExcept (operation (← get)))

/-- A tree in memory as a storage. -/
instance : Storage (StateM FileTree) where
  kind? path := do
    return match (← get).find path with
      | .ok node => some node.kind
      | .error _ => none
  names path := do ofExcept ((← get).names path)
  read path := do ofExcept ((← get).read path)
  write path content := change (·.write path content)
  makeDirectory path := change (·.makeDirectory path)

end FileTree

end TadsReference
