import TadsReference.Failure
import TadsReference.Source.File

/-!
# Reading order

Files are read so that each comes after all the files that it includes. In every pass over the
list the files whose includes have all been placed are placed, until a pass places none. The
files left over are part of an include cycle or depend on one.
-/

namespace TadsReference.ReadingOrder

/-- The position of the last file with a short name. -/
def position? (files : List SourceFile) (shortName : String) : Option Nat :=
  (files.zipIdx.reverse.find? (·.1.shortName == shortName)).map (·.2)

/-- The positions of the files that a file includes. -/
def targets (files : List SourceFile) (file : SourceFile) : Except Failure (List Nat) :=
  file.includes.mapM fun included =>
    match position? files included with
    | some position => .ok position
    | none => .error (.unknownInclude file.shortName included)

/-- Whether all files that a file needs have been placed. -/
def ready (needs : List (List Nat)) (placed : List Nat) (position : Nat) : Bool :=
  ((needs[position]?).getD []).all placed.contains

/-- Places a file behind the others, if it is ready and has not been placed. -/
def place (needs : List (List Nat)) (placed : List Nat) (position : Nat) : List Nat :=
  if !placed.contains position && ready needs placed position then placed ++ [position]
  else placed

/-- One pass through all files, which places each file that has all it needs in front of it. -/
def pass (needs : List (List Nat)) (placed : List Nat) : List Nat :=
  (List.range needs.length).foldl (place needs) placed

/-- Repeats passes until one places nothing, at most `passes` of them. -/
def settle (needs : List (List Nat)) : (passes : Nat) → (placed : List Nat) → List Nat
  | 0, placed => placed
  | passes + 1, placed =>
      let next := pass needs placed
      if next.length == placed.length then placed else settle needs passes next

/-- The positions of the files that can be placed, in the order of their placement. Every pass
but the last places a file, so there are at most as many as files. -/
def placement (needs : List (List Nat)) : List Nat :=
  settle needs needs.length []

/-- The positions of the files in an order in which each comes after the files that it
includes. -/
def positions (files : List SourceFile) : Except Failure (List Nat) := do
  let needs ← files.mapM (targets files)
  let placed := placement needs
  if placed.length == files.length then
    return placed
  else
    throw (.cyclicIncludes
      ((files.zipIdx.filter fun entry => !placed.contains entry.2).map (·.1.shortName)))

/-- The files in an order in which each comes after the files that it includes. -/
def order (files : List SourceFile) : Except Failure (List SourceFile) :=
  (positions files).map fun ordered => ordered.filterMap (files[·]?)

end TadsReference.ReadingOrder
