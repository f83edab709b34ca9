import TadsReference.Graph.Basic

/-!
# Merging `modify` blocks

A `modify` block applies to the first class of its name, or else to the first object. The members
that its target lacks are added to the target. For each of the others the target's member of that
name notes the modification.
-/

namespace TadsReference.Graph

/-- Merges a member of a `modify` block into the block's target. -/
def mergeMember (graph : Graph) (target : DeclId) (kind : MemberKind) (member : DeclId) :
    Graph :=
  match graph.findMember? target (graph.name member) kind with
  | some existing =>
      graph.modifyDecl existing fun decl => decl.mapMember fun details =>
        { details with
          modifiedAt := details.modifiedAt ++ [(graph.decl member).location]
          modifications := details.modifications ++ [member] }
  | none => graph.modifyDecl target fun decl => decl.mapBody (·.addMember kind member)

/-- Merges the members of a `modify` block into a target. -/
def mergeMembers (graph : Graph) (modification target : DeclId) : Graph :=
  let decl := graph.decl modification
  let merged := (decl.members .method).foldl (·.mergeMember target .method ·) graph
  (decl.members .property).foldl (·.mergeMember target .property ·) merged

/-- Merges a `modify` block, if there is a declaration that it modifies. -/
def mergeModification (graph : Graph) (modification : DeclId) : Graph :=
  match graph.findBlock? (graph.name modification) with
  | none => graph
  | some target =>
      let location := (graph.decl modification).location
      let merged := graph.mergeMembers modification target
      let fileName := ((merged.decl target).body?.map (·.fileName)).getD ""
      let noted := merged.modifyDecl target fun decl => decl.mapBlock fun block =>
        { block with
          modifiedAt := block.modifiedAt ++ [location]
          modifications := block.modifications ++ [modification] }
      noted.modifyDecl modification fun decl => decl.mapModify fun details =>
        { details with target := some target, body := { details.body with fileName } }

/-- Merges all `modify` blocks in the order in which they were read. -/
def mergeModifications (graph : Graph) : Graph :=
  graph.modifications.foldl mergeModification graph

end TadsReference.Graph
