import TadsReference.Graph.Basic

/-!
# Display order

Declarations are shown by name regardless of case, then by source file, then by line. Sorting
keeps the order of declarations that compare equal.
-/

namespace TadsReference

namespace Decl

/-- How two declarations compare in display order. -/
def displayOrder (left right : Decl) : Ordering :=
  (compare (Text.lowerCase left.name) (Text.lowerCase right.name)).then
    ((compare (Text.lowerCase left.location.file) (Text.lowerCase right.location.file)).then
      (compare left.location.line right.location.line))

end Decl

namespace Graph

/-- The order of two declarations of a graph in the lists that are shown. -/
def displayOrder (graph : Graph) (left right : DeclId) : Ordering :=
  (graph.decl left).displayOrder (graph.decl right)

/-- Declarations in the order in which they are shown. Those that compare equal keep their order. -/
def sorted (graph : Graph) (ids : List DeclId) : List DeclId :=
  ids.mergeSort fun left right => (graph.displayOrder left right).isLE

/-- What enumeration groups are sorted by: the name of the first constant. -/
def groupKey (graph : Graph) (id : GroupId) : String :=
  match (graph.group id).members with
  | first :: _ => Text.lowerCase (graph.name first)
  | [] => ""

/-- Enumeration groups by the names of their first constants. -/
def sortedGroups (graph : Graph) (ids : List GroupId) : List GroupId :=
  ids.mergeSort fun left right => (compare (graph.groupKey left) (graph.groupKey right)).isLE

/-- Files by their short names. -/
def sortedFiles (files : List FileRecord) : List FileRecord :=
  files.mergeSort fun left right =>
    (compare (Text.lowerCase left.source.shortName)
      (Text.lowerCase right.source.shortName)).isLE

end Graph

end TadsReference
