import TadsReference.Text.Search

/-!
# Paths

A path is a text of names between slashes. Empty names and single dots have no meaning, except for
a dot at the front, which is kept apart from the bare name.
-/

namespace TadsReference.Path

/-- One step of a path. -/
inductive Component where
  | root
  | current
  | parent
  | name (name : String)
deriving Repr, DecidableEq, Inhabited

namespace Component

/-- The steps in the order in which paths are sorted. -/
def rank : Component → Nat
  | root => 0
  | current => 1
  | parent => 2
  | name _ => 3

/-- The name of a step that has one. -/
def nameOf : Component → String
  | name text => text
  | _ => ""

/-- Whether a step comes before another one or equals it. Names go by their code points. -/
def atMost (left right : Component) : Bool :=
  left.rank < right.rank || (left.rank == right.rank && left.nameOf ≤ right.nameOf)

end Component

/-- The step that a part of a path between two slashes stands for, if it is not the first. -/
def step? (part : String) : Option Component :=
  if part == "" || part == "." then none
  else if part == ".." then some .parent
  else some (.name part)

/-- The parts of a path between its slashes. -/
def parts (path : String) : List String :=
  (path.toList.splitOn '/').map String.ofList

/-- Whether a path contains the character that ends a path for the operating system. -/
def hasNul (path : String) : Bool :=
  path.toList.contains '\x00'

/-- Whether a path begins at the root. -/
def isAbsolute (path : String) : Bool :=
  path.toList.head? == some '/'

/-- The steps that a path leads through. Empty parts and inner `.` are no steps. -/
def components (path : String) : List Component :=
  let front :=
    if isAbsolute path then [.root]
    else if (parts path).head? == some "." then [.current]
    else []
  front ++ (parts path).filterMap step?

/-- The last name of a path, if the path ends in a name. -/
def fileName? (path : String) : Option String :=
  match (components path).getLast? with
  | some (.name text) => some text
  | _ => none

/-- The part of a file name behind its last dot. A dot at the front does not count. -/
def nameExtension? (fileName : String) : Option String :=
  let reversed := fileName.toList.reverse
  match reversed.dropWhile (· != '.') with
  | _ :: _ :: _ => some (String.ofList (reversed.takeWhile (· != '.')).reverse)
  | _ => none

/-- The extension of the file name of a path, if it has one. -/
def extension? (path : String) : Option String :=
  (fileName? path).bind nameExtension?

/-- A path below a directory. -/
def join (directory path : String) : String :=
  if isAbsolute path || directory == "" then path
  else if directory.toList.getLast? == some '/' then directory ++ path
  else directory ++ "/" ++ path

/-- A step as it is written. -/
def Component.text : Component → String
  | root => "/"
  | current => "."
  | parent => ".."
  | name text => text

/-- The path that leads through some steps. -/
def ofComponents (steps : List Component) : String :=
  (steps.map Component.text).foldl join ""

/-- The paths of a sequence of steps, last step first, and of those before it, longest first. -/
def ofReversed : List Component → List String
  | [] => []
  | step :: steps => ofComponents (step :: steps).reverse :: ofReversed steps

/-- A path, and the paths of the directories around it from the inside out. -/
def ancestors (path : String) : List String :=
  match (components path).reverse with
  | [] => []
  | _ :: steps => path :: ofReversed steps

/-- Whether a sequence of steps comes before another one or equals it. -/
def componentsAtMost : List Component → List Component → Bool
  | [], _ => true
  | _ :: _, [] => false
  | left :: lefts, right :: rights =>
      if left == right then componentsAtMost lefts rights else left.atMost right

/-- Whether a path comes before another one or equals it, step by step. -/
def atMost (left right : String) : Bool :=
  componentsAtMost (components left) (components right)

/-- Whether two paths have the same steps. -/
def same (left right : String) : Bool :=
  components left == components right

end TadsReference.Path
