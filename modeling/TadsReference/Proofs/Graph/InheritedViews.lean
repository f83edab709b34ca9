import TadsReference.Proofs.Graph.Heirs
import TadsReference.Proofs.Graph.Overrides

/-!
# Overriding and inheriting

What a declaration inherits is decided twice. A member overrides what a superclass has, and
superclasses are reached along classes alone. The members shown as inherited are those of all
ancestors, which objects lead to as well. So the two differ where an object is a base:
`inheritanceViews_of_readings` says by how much, and that they agree where all ancestors are
classes.
-/

namespace TadsReference.Graph

open Relation

variable {graph : Graph} {id ancestor : DeclId} {kind : MemberKind} {name : String}

/-- A class or an object is a base of a declaration. -/
def HasBase (graph : Graph) (id base : DeclId) : Prop :=
  .decl base ∈ (graph.decl id).bases

/-- A declaration has a member of a kind and a name. -/
def HasMember (graph : Graph) (id : DeclId) (kind : MemberKind) (name : String) : Prop :=
  ∃ member ∈ (graph.decl id).members kind, graph.name member = name

/-! ### Ancestors and superclasses -/

theorem lt_size_of_mem_resolvedBases (mirrored : graph.Mirrored) (source target : DeclId)
    (isBase : target ∈ graph.resolvedBases source) : target < graph.decls.size :=
  lt_size_of_view rfl (mirrored.bases source target (mem_resolvedBases.mp isBase))

/-- The ancestors of a declaration are the other declarations that paths along bases lead to. A walk
along bases visits them all, whether there are cycles or not. -/
theorem mem_ancestors_iff (mirrored : graph.Mirrored) :
    ancestor ∈ graph.ancestors id ↔ ancestor ≠ id ∧ TransGen graph.HasBase id ancestor := by
  rw [ancestors, Walk.mem_preorder_start_iff (lt_size_of_mem_resolvedBases mirrored)]
  simp only [mem_resolvedBases]
  exact Iff.rfl

theorem mem_ancestors_of_superclass (mirrored : graph.Mirrored) (other : ancestor ≠ id)
    (path : TransGen graph.ClassBase id ancestor) : ancestor ∈ graph.ancestors id :=
  (mem_ancestors_iff mirrored).mpr ⟨other, TransGen.mono (fun _ _ step => step.1) _ _ path⟩

/-- A member is inherited from an ancestor that is reached along classes alone. -/
theorem inherits_iff_ancestor (mirrored : graph.Mirrored) :
    graph.Inherits id kind name ↔
      ∃ ancestor ∈ graph.ancestors id, TransGen graph.ClassBase id ancestor ∧
        graph.HasMember ancestor kind name := by
  constructor
  · rintro ⟨ancestor, other, path, hasMember⟩
    exact ⟨ancestor, mem_ancestors_of_superclass mirrored other path, path, hasMember⟩
  · rintro ⟨ancestor, isAncestor, path, hasMember⟩
    exact ⟨ancestor, ((mem_ancestors_iff mirrored).mp isAncestor).1, path, hasMember⟩

/-- If all ancestors are classes, they are reached along classes alone. A path to one of them does
not come back to the declaration, so the walk has visited all of the path, which leads along classes
only. -/
theorem superclass_of_mem_ancestors
    (classes : ∀ ancestor ∈ graph.ancestors id, (graph.decl ancestor).isClass = true)
    (isAncestor : ancestor ∈ graph.ancestors id) : TransGen graph.ClassBase id ancestor := by
  rcases Walk.mem_preorder_iff.mp isAncestor with ⟨first, isFirst, isOpen, path⟩
  have reached {target : DeclId}
      (part : ReflTransGen (Walk.OpenStep graph.resolvedBases graph.decls.size [id]) first target) :
      (graph.decl target).isClass = true :=
    classes target (Walk.mem_preorder_iff.mpr ⟨first, isFirst, isOpen, part⟩)
  induction path with
  | refl => exact .single ⟨mem_resolvedBases.mp isFirst, reached .refl⟩
  | @tail middle target before step ih =>
      have visited : middle ∈ graph.ancestors id :=
        Walk.mem_preorder_iff.mpr ⟨first, isFirst, isOpen, before⟩
      exact (ih visited).tail ⟨mem_resolvedBases.mp step.1, reached (before.tail step)⟩

/-- A class or an object keeps the members that it was declared with. -/
theorem mem_members_link_of_own (unlinked : graph.Unlinked)
    (isBlock : (graph.decl id).isBlock = true) {member : DeclId}
    (own : member ∈ (graph.decl id).members kind) :
    member ∈ (graph.link.decl id).members kind := by
  rw [members_link_of_isBlock unlinked isBlock, mem_sorted, mergedMembers, keptMembers]
  exact List.mem_append_left _ own

/-! ### The full account -/

/-- How the marks of overriding members compare with the ancestors that members are inherited
from. -/
structure InheritanceViews (linked : Graph) : Prop where
  walked : ∀ id ancestor,
    ancestor ∈ linked.ancestors id ↔ ancestor ≠ id ∧ TransGen linked.HasBase id ancestor
  overridden : ∀ id kind, (linked.decl id).isBlock = true →
    ∀ member ∈ (linked.decl id).members kind,
      ((linked.decl member).overridden = true ↔
        ∃ ancestor ∈ linked.ancestors id, TransGen linked.ClassBase id ancestor ∧
          linked.HasMember ancestor kind (linked.name member))
  agree : ∀ id kind, (linked.decl id).isBlock = true →
    (∀ ancestor ∈ linked.ancestors id, (linked.decl ancestor).isClass = true) →
      ∀ member ∈ (linked.decl id).members kind,
        ((linked.decl member).overridden = true ↔
          ∃ ancestor ∈ linked.ancestors id, linked.HasMember ancestor kind (linked.name member))

/-- Whatever files are read, the members that linking marks are those that an ancestor reached along
classes has as well. An object as a base ends a path along classes, while the walk goes on behind
it. -/
theorem inheritanceViews_of_readings (files : List SourceFile) (readings : List FileReading) :
    ((ofFiles files).readAll readings).link.InheritanceViews := by
  have mirrored := (mirrored_readAll files readings).link
  have marked := (unlinked_readAll files readings).overridesMarked
  constructor
  · intro id ancestor
    exact mem_ancestors_iff mirrored
  · intro id kind isBlock member isMember
    rw [(marked.home id kind isBlock member isMember).2, inherits_iff_ancestor mirrored]
  · intro id kind isBlock classes member isMember
    rw [(marked.home id kind isBlock member isMember).2, inherits_iff_ancestor mirrored]
    constructor
    · rintro ⟨ancestor, isAncestor, _, hasMember⟩
      exact ⟨ancestor, isAncestor, hasMember⟩
    · rintro ⟨ancestor, isAncestor, hasMember⟩
      exact ⟨ancestor, isAncestor, superclass_of_mem_ancestors classes isAncestor, hasMember⟩

/-! ### An object as a base -/

/-- A header in which an object has another as its base, with a property of the same name. -/
def lanternsText : List UInt8 :=
  "lamp: Thing\n    lit = nil\nlantern: lamp\n    lit = true\n".toUTF8.toList

/-- What the header declares. -/
def lanternsEntries : List Entry :=
  [.declaration "lamp" "" 1 (.objectBlock { bases := ["Thing"] }),
    .declaration "lit" "" 2 (.property false),
    .declaration "lantern" "" 3 (.objectBlock { bases := ["lamp"] }),
    .declaration "lit" "" 4 (.property false)]

/-- The graph of the header when nothing has been read of it. -/
def lanternsUnread : Graph :=
  ofFiles [⟨"lanterns.h", "lanterns.h", true, [], 4⟩]

/-- The graph of the header when it has been read. -/
def lanterns : Graph :=
  lanternsUnread.readAll [⟨0, false, "lanterns.h", lanternsText, none, none⟩]

theorem lanterns_eq : lanterns = lanternsUnread.record 0 lanternsEntries := by
  apply readAll_header <;> decide +kernel

theorem denotes_lamp : lanterns.Denotes "lamp" 0 := by
  rw [lanterns_eq]
  apply Denotes.firstObject
  · decide +kernel
  · constructor
    · decide +kernel
    · decide +kernel
    · decide +kernel

theorem hasBase_lantern : lanterns.link.HasBase 2 0 := by
  have unlinked : lanterns.Unlinked := unlinked_readAll _ _
  have mirrored : lanterns.Mirrored := mirrored_readAll _ _
  apply (mem_bases_link_iff unlinked mirrored).mpr
  refine ⟨"lamp", ?_, denotes_lamp⟩
  rw [lanterns_eq]
  decide +kernel

theorem not_isClass_lanterns (id : DeclId) : (lanterns.link.decl id).isClass = false := by
  have mirrored : lanterns.Mirrored := mirrored_readAll _ _
  have none : lanterns.classes = [] := by
    rw [lanterns_eq]
    decide +kernel
  rw [(keeps_head_link lanterns).isClass, Bool.eq_false_iff, ne_eq, Decl.isClass_iff,
    ← mirrored.classes, none]
  exact List.not_mem_nil

/-- The second property is not marked, although the lantern has an ancestor with such a property. -/
theorem not_overridden_lantern :
    (lanterns.link.decl 2).isBlock = true ∧ 3 ∈ (lanterns.link.decl 2).members .property ∧
      ¬((lanterns.link.decl 3).overridden = true ↔
        ∃ ancestor ∈ lanterns.link.ancestors 2,
          lanterns.link.HasMember ancestor .property (lanterns.link.name 3)) := by
  have unlinked : lanterns.Unlinked := unlinked_readAll _ _
  have mirrored : lanterns.link.Mirrored := (mirrored_readAll _ _).link
  have head := keeps_head_link lanterns
  have isBlock : (lanterns.decl 0).isBlock = true ∧ (lanterns.decl 2).isBlock = true := by
    rw [lanterns_eq]
    decide +kernel
  have own : 1 ∈ (lanterns.decl 0).members .property ∧ 3 ∈ (lanterns.decl 2).members .property := by
    rw [lanterns_eq]
    decide +kernel
  have sameName : lanterns.name 1 = lanterns.name 3 := by
    rw [lanterns_eq]
    decide +kernel
  have isMember := mem_members_link_of_own unlinked isBlock.2 own.2
  have isLinkedBlock : (lanterns.link.decl 2).isBlock = true := by
    rw [head.isBlock]
    exact isBlock.2
  refine ⟨isLinkedBlock, isMember, ?_⟩
  intro agrees
  have hasMember : lanterns.link.HasMember 0 .property (lanterns.link.name 3) := by
    refine ⟨1, mem_members_link_of_own unlinked isBlock.1 own.1, ?_⟩
    rw [head.name, head.name]
    exact sameName
  have isAncestor : 0 ∈ lanterns.link.ancestors 2 :=
    (mem_ancestors_iff mirrored).mpr ⟨by decide, .single hasBase_lantern⟩
  have marked := agrees.mpr ⟨0, isAncestor, hasMember⟩
  have home := unlinked.overridesMarked.home 2 .property isLinkedBlock 3 isMember
  rcases home.2.mp marked with ⟨ancestor, _, path, _⟩
  have isClass : (lanterns.link.decl ancestor).isClass = true := by
    rcases TransGen.tail'_iff.mp path with ⟨_, _, step⟩
    exact step.2
  simp [not_isClass_lanterns] at isClass

end TadsReference.Graph
