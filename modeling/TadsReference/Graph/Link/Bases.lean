import TadsReference.Graph.Inheritance

/-!
# Resolving bases

The names in base lists are resolved, and each class learns which classes and objects have it as a
base. After that the members that override inherited ones are marked.
-/

namespace TadsReference.Graph

/-- Resolves a base. A name that no class or object has stays a name. -/
def resolveBase (graph : Graph) : BaseRef → BaseRef
  | .decl id => .decl id
  | .name name =>
      match graph.findBlock? name with
      | some id => .decl id
      | none => .name name

/-- The declarations that the names of a base list resolve to. -/
def newBases (graph : Graph) (bases : List BaseRef) : List DeclId :=
  bases.filterMap fun base =>
    match base with
    | .decl _ => none
    | .name name => graph.findBlock? name

/-- A list with one more number, unless it is there already. -/
def insertOnce (ids : List DeclId) (id : DeclId) : List DeclId :=
  if ids.contains id then ids else ids ++ [id]

/-- Notes on a class that a class or an object has it as a base. -/
def noteHeir (heir : DeclId) (heirIsClass : Bool) (graph : Graph) (base : DeclId) : Graph :=
  graph.modifyDecl base fun decl => decl.mapClass fun details =>
    if heirIsClass then { details with subclasses := insertOnce details.subclasses heir }
    else { details with globalObjects := insertOnce details.globalObjects heir }

/-- Resolves the bases of a class or an object. -/
def linkBases (graph : Graph) (id : DeclId) : Graph :=
  let decl := graph.decl id
  let noted := (graph.newBases decl.bases).foldl (noteHeir id decl.isClass) graph
  noted.modifyDecl id fun holder => holder.mapBlock fun block =>
    { block with bases := block.bases.map graph.resolveBase }

/-- Resolves the bases of all classes and then those of all objects. -/
def linkAllBases (graph : Graph) : Graph :=
  (graph.classes ++ graph.objects).foldl linkBases graph

/-- The members of classes and objects that override inherited ones. -/
def allOverridingMembers (graph : Graph) : List DeclId :=
  (graph.classes ++ graph.objects).flatMap fun id =>
    graph.overridingMembers id .method ++ graph.overridingMembers id .property

/-- Marks all members that override an inherited one. -/
def markOverrides (graph : Graph) : Graph :=
  graph.allOverridingMembers.foldl
    (fun marked member => marked.modifyDecl member fun decl =>
      decl.mapMember fun details => { details with overridden := true })
    graph

end TadsReference.Graph
