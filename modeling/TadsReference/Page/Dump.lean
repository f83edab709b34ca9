import TadsReference.Page.Address

/-!
# The plain dump

A plain text that lists classes and objects with their members, a line each.
-/

namespace TadsReference.Dump

/-- A property as a line of the dump. -/
def propertyLine (decl : Decl) : String :=
  "\tproperty " ++ decl.name ++ " // " ++ decl.description ++ "\n"

/-- A method as a line of the dump. -/
def methodLine (decl : Decl) : String :=
  "\tmethod " ++ decl.name ++ " (" ++
    String.join ((decl.parameters?.getD []).map (" " ++ ·)) ++ " ) // " ++ decl.description ++
    "\n"

/-- A class or an object with its members. -/
def blockText (graph : Graph) (id : DeclId) : String :=
  let decl := graph.decl id
  decl.kindLabel ++ " " ++ decl.name ++ " :" ++
    String.join (decl.bases.map (" " ++ graph.baseName ·)) ++ " // " ++ decl.description ++
    "\n" ++
    String.join ((decl.members .property).map fun member => propertyLine (graph.decl member)) ++
    String.join ((decl.members .method).map fun member => methodLine (graph.decl member))

/-- All classes, then all objects. -/
def text (graph : Graph) : String :=
  String.join ((graph.classes ++ graph.objects).map (blockText graph))

end TadsReference.Dump
