import TadsReference.Graph.Basic
import TadsReference.Graph.Walk

/-!
# Inheritance

The ancestors of a declaration are reached along its resolved bases. A declaration is never its
own ancestor, not even in a cycle.
-/

namespace TadsReference

namespace BaseRef

/-- The declaration of a resolved reference. -/
def decl? : BaseRef → Option DeclId
  | decl id => some id
  | name _ => none

end BaseRef

namespace Graph

/-- The bases of a declaration that are declared themselves, in the order in which they are
written. -/
def resolvedBases (graph : Graph) (id : DeclId) : List DeclId :=
  (graph.decl id).bases.filterMap BaseRef.decl?

/-- The resolved bases of a declaration that are classes. -/
def classBases (graph : Graph) (id : DeclId) : List DeclId :=
  (graph.resolvedBases id).filter fun base => (graph.decl base).isClass

/-- The ancestors of a declaration, nearest first in the order of the base lists. -/
def ancestors (graph : Graph) (id : DeclId) : List DeclId :=
  Walk.preorder graph.resolvedBases graph.decls.size [id] (graph.resolvedBases id)

/-- The ancestors that are reached along classes alone. -/
def superclasses (graph : Graph) (id : DeclId) : List DeclId :=
  Walk.preorder graph.classBases graph.decls.size [id] (graph.classBases id)

/-- Whether a superclass of a declaration has a member of a kind and a name. -/
def inheritsMember (graph : Graph) (id : DeclId) (name : String) (kind : MemberKind) : Bool :=
  (graph.superclasses id).any fun ancestor => (graph.findMember? ancestor name kind).isSome

/-- The members of a declaration that a superclass has as well. -/
def overridingMembers (graph : Graph) (id : DeclId) (kind : MemberKind) : List DeclId :=
  ((graph.decl id).members kind).filter fun member =>
    graph.inheritsMember id (graph.name member) kind

/-- The members that a declaration inherits from its ancestors but does not have itself, grouped
by the ancestor. `seen` holds the names that count no more. -/
def inheritedFrom (graph : Graph) (kind : MemberKind) (seen : List String) :
    List DeclId → List (DeclId × List DeclId)
  | [] => []
  | ancestor :: others =>
      let fresh := ((graph.decl ancestor).members kind).foldl
        (fun (found : List DeclId × List String) member =>
          if found.2.contains (graph.name member) then found
          else (found.1 ++ [member], graph.name member :: found.2))
        ([], seen)
      if fresh.1.isEmpty then graph.inheritedFrom kind fresh.2 others
      else (ancestor, fresh.1) :: graph.inheritedFrom kind fresh.2 others

/-- The members that a declaration inherits, grouped by the ancestor that has them. -/
def inheritedMembers (graph : Graph) (id : DeclId) (kind : MemberKind) :
    List (DeclId × List DeclId) :=
  graph.inheritedFrom kind (((graph.decl id).members kind).map graph.name) (graph.ancestors id)

end Graph

end TadsReference
