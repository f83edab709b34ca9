import TadsReference.Glob.Pattern
import TadsReference.Storage.Basic

/-!
# Searching for files

The files whose paths a pattern matches are found from the root or the current directory on, one
part of the pattern after the other.
-/

namespace TadsReference.Glob

variable {m : Type → Type} [Monad m] [Storage m]

/-- The path of an entry of a directory. Entries of the current directory have bare names. -/
def entryPath (directory name : String) : String :=
  if Path.same directory "." then name else Path.join directory name

/-- The names of the entries of a directory, or nothing if it cannot be read. -/
def entryNames (directory : String) : m (List String) := do
  match ← (Storage.names directory : ExceptT StorageFault m (List String)).run with
  | .ok names => return names
  | .error _ => return []

/-- The entries of a directory whose own names a pattern accepts. -/
def matchingEntries (pattern : Pattern) (directory : String) : m (List String) := do
  let names ← entryNames directory
  return (names.filter (pattern.accepts ·.toList)).map (entryPath directory)

/-- The names of a directory and of its parent that a pattern matches. Only one that begins with a
dot matches them. -/
def matchingDots (pattern : Pattern) : List String :=
  if pattern.head? == some (.character '.') then
    [".", ".."].filter (pattern.accepts ·.toList)
  else []

/-- How deep directories are searched. No path is longer than 4096 bytes, so none has more
names. -/
def depthLimit : Nat := 4096

/-- A directory and all those below it down to a depth. -/
def directoriesFrom : (depth : Nat) → (path : String) → m (List String)
  | 0, _ => return []
  | depth + 1, path => do
      if ← Storage.isDirectory path then
        let names ← entryNames path
        let below ← names.flatMapM fun name => directoriesFrom depth (entryPath path name)
        return path :: below
      else return []

/-- Whether a name without wildcards leads on from a path. -/
def leadsOn (path name : String) : m Bool := do
  if name == "." || name == ".." then Storage.isDirectory path
  else return (← Storage.kind? (entryPath path name)).isSome

/-- The paths that several patterns match from a path on. Nothing but directories is matched by
two stars at the end, so those are left out. -/
def search : List Pattern → (path : String) → m (List String)
  | [], path => return [path]
  | [[.anyDirectories]], _ => return []
  | [.anyDirectories] :: pattern :: patterns, path => do
      let directories ← directoriesFrom depthLimit path
      let found ← directories.flatMapM (matchingEntries pattern)
      found.flatMapM (search patterns)
  | pattern :: patterns, path => do
      match pattern.plain? with
      | some name =>
          if ← leadsOn path (String.ofList name) then
            search patterns (entryPath path (String.ofList name))
          else return []
      | none =>
          if ← Storage.isDirectory path then
            let entries ← matchingEntries pattern path
            let dots := (matchingDots pattern).map (Path.join path)
            (entries ++ dots).flatMapM (search patterns)
          else return []

/-- The patterns with runs of two stars shortened to one. -/
def collapse (patterns : List Pattern) : List Pattern :=
  patterns.eraseRepsBy fun left right => left == [.anyDirectories] && right == left

/-- The files that the patterns of a path pattern's parts match. One that ends in a slash matches
directories only. -/
def filesOf (text : String) (patterns : List Pattern) : m (List String) := do
  let found ← search (collapse patterns) (if Path.isAbsolute text then "/" else ".")
  if text.toList.getLast? == some '/' then return []
  else found.filterM Storage.isFile

/-- The files whose paths a path pattern matches. -/
def files (text : String) : ExceptT PatternError m (List String) := do
  let patterns ← ofExcept (Pattern.ofPath text.toList)
  (filesOf text patterns : m (List String))

end TadsReference.Glob
