import TadsReference.Proofs.Graph.Catalogue
import TadsReference.Proofs.Graph.InOrder
import TadsReference.Proofs.Graph.PageNames

/-!
# What linking leaves as it is

Linking turns names into references and puts lists in order. `LinkFrame` says what is the same
before and after: all that a declaration's own line says of it, the pages, and what the lists hold.
It also says in which order the lists are afterwards.
-/

namespace TadsReference.Graph

variable {graph : Graph} {id : DeclId} {kind : MemberKind}

/-- Enumeration groups have been sorted by the names of their first constants. -/
def GroupsSorted (graph : Graph) (old new : List GroupId) : Prop :=
  StableSort (fun left right => (compare (graph.groupKey left) (graph.groupKey right)).isLE) old new

/-- The lists of a file have been put in order, and the constants of its groups have been listed. -/
structure FileSorted (graph : Graph) (old file : FileRecord) : Prop where
  source : file.source = old.source
  description : file.description = old.description
  lists : ∀ listing, graph.StablySorted (old.list listing) (file.list listing)
  groups : graph.GroupsSorted old.enumGroups file.enumGroups
  constants : file.enums.Perm (graph.constantsOf old.enumGroups)
  enums : graph.InOrder file.enums

/-- A group has the same constants, in some order. -/
structure GroupSorted (old group : EnumGroup) : Prop where
  description : group.description = old.description
  location : group.location = old.location
  members : group.members.Perm old.members

/-- What linking keeps of a graph that has been read, and how it orders the lists. -/
structure LinkFrame (read linked : Graph) : Prop where
  size : linked.decls.size = read.decls.size
  skeleton : Keeps Decl.skeleton read linked
  pageName : Keeps Decl.pageName? read linked
  listed : ∀ listing ≠ .modifications,
    linked.StablySorted (read.listed listing) (linked.listed listing)
  modifications : linked.modifications = read.modifications
  files : ∃ order : List FileRecord, order.Perm read.files ∧
    List.Forall₂ linked.FileSorted order linked.files
  filesInOrder : linked.files.Pairwise fun left right =>
    (compare (Text.lowerCase left.source.shortName)
      (Text.lowerCase right.source.shortName)).isLE = true
  enumGroups : linked.GroupsSorted read.enumGroups linked.enumGroups
  groups : ∀ group, GroupSorted (read.group group) (linked.group group)
  constants : linked.enums.Perm (linked.constantsOf read.enumGroups)
  enums : linked.InOrder linked.enums
  /-- The lists that declarations hold are in order, and what was in order before stays so. -/
  members : ∀ id kind, (read.decl id).kindLabel ≠ "modify" →
    linked.InOrder ((linked.decl id).members kind)
  ownMembers : ∀ id kind ids, linked.InOrder ids → ids.Sublist ((read.decl id).members kind) →
    ids.Sublist ((linked.decl id).members kind)
  globalObjects : ∀ id, linked.InOrder (linked.decl id).globalObjects
  matchClasses : ∀ id,
    linked.StablySorted (read.decl id).matchClasses (linked.decl id).matchClasses
  /-- Display order is a total preorder. -/
  total : ∀ left right : Decl,
    (left.displayOrder right).isLE = true ∨ (right.displayOrder left).isLE = true
  trans : ∀ first second third : Decl, (first.displayOrder second).isLE = true →
    (second.displayOrder third).isLE = true → (first.displayOrder third).isLE = true

/-! ### Files and groups -/

theorem fileSorted_finishedRecord (graph : Graph) (file : FileRecord) :
    graph.FileSorted file (graph.finishedRecord file) where
  source := rfl
  description := rfl
  lists listing := by
    cases listing <;> exact graph.stablySorted_sorted _
  groups := graph.stableSort_sortedGroups file.enumGroups
  constants := graph.perm_sorted _
  enums := graph.inOrder_sorted _

/-- The files of a linked graph are those of the graph that has been read, in the order of their
names and each with its lists in order. -/
theorem forall₂_fileSorted_link (graph : Graph) :
    List.Forall₂ graph.link.FileSorted (sortedFiles graph.files) graph.link.files := by
  rw [files_link, List.forall₂_map_right_iff]
  exact List.forall₂_same.mpr fun file _ => fileSorted_finishedRecord graph.link file

theorem groupSorted_link (graph : Graph) (group : GroupId) :
    GroupSorted (graph.group group) (graph.link.group group) := by
  rw [group_link]
  split
  · exact ⟨rfl, rfl, graph.perm_sorted _⟩
  · exact ⟨rfl, rfl, .refl _⟩

/-! ### The lists of declarations -/

section Unlinked

variable (unlinked : graph.Unlinked)

include unlinked

theorem mem_holders_link
    (holds : (graph.decl id).isBlock = true ∨ (graph.decl id).kindLabel = "grammar") :
    id ∈ graph.link.holders := by
  have listed : id ∈ graph.productions ↔
      id < graph.decls.size ∧ (graph.decl id).kindLabel = "grammar" :=
    unlinked.mem_listed .productions
  rw [holders, classes_link, objects_link, productions_link]
  simp only [List.mem_append, mem_sorted]
  rw [← List.mem_append, unlinked.mem_blocks, listed]
  exact holds.imp_right fun isProduction => ⟨inside_of_isProduction isProduction, isProduction⟩

/-- The members that a declaration shows are in display order, except in `modify` blocks. Those are
shown on the pages of other declarations, so their own lists are never shown. -/
theorem inOrder_members_link (notModification : (graph.decl id).kindLabel ≠ "modify")
    (kind : MemberKind) : graph.link.InOrder ((graph.link.decl id).members kind) := by
  by_cases holds : (graph.decl id).isBlock = true ∨ (graph.decl id).kindLabel = "grammar"
  · rw [← sortLists_link graph (mem_holders_link unlinked holds),
      members_sortLists List.mergeSort_nil]
    exact graph.link.inOrder_sorted _
  · have head := keeps_head_link graph
    rw [not_or, Bool.not_eq_true] at holds
    have takesNone : (graph.link.decl id).takesMembers = false := by
      rw [head.takesMembers, Decl.takesMembers, holds.1, Bool.false_or, beq_eq_false_iff_ne]
      exact notModification
    have notProduction : (graph.link.decl id).kindLabel ≠ "grammar" := by
      rw [head.kindLabel]
      exact holds.2
    rw [Decl.members_of_not_takesMembers takesNone notProduction]
    exact .nil

/-- Classes list the objects that have them as a base in display order. -/
theorem inOrder_globalObjects_link (id : DeclId) :
    graph.link.InOrder (graph.link.decl id).globalObjects := by
  cases isClass : (graph.link.decl id).isClass with
  | false =>
      have none : (graph.link.decl id).globalObjects = [] :=
        Decl.heirs_of_not_isClass isClass false
      rw [none]
      exact .nil
  | true =>
      rw [(keeps_head_link graph).isClass] at isClass
      have holds : (graph.decl id).isBlock = true :=
        (Decl.isBlock_iff _).mpr (.inl ((Decl.isClass_iff _).mp isClass))
      rw [← sortLists_link graph (mem_holders_link unlinked (.inl holds)),
        globalObjects_sortLists List.mergeSort_nil]
      exact graph.link.inOrder_sorted _

/-- What is declared in a class or an object stays there, in display order. Merging only adds to the
members of a block, and what it adds is sorted in among them. -/
theorem sublist_members_link {ids : List DeclId} (inOrder : graph.link.InOrder ids)
    (own : ids.Sublist ((graph.decl id).members kind)) :
    ids.Sublist ((graph.link.decl id).members kind) := by
  rw [(keeps_head_link graph).inOrder] at inOrder
  cases isBlock : (graph.decl id).isBlock with
  | true =>
      rw [members_link_of_isBlock unlinked isBlock]
      have kept : ids.Sublist (graph.mergedMembers id kind) :=
        own.trans (List.sublist_append_left _ _)
      exact (graph.stablySorted_sorted _).stable ids inOrder kept
  | false =>
      by_cases isModification : (graph.decl id).kindLabel = "modify"
      · rw [members_link_of_modify unlinked isModification]
        exact own
      · have takesNone : (graph.decl id).takesMembers = false := by
          simp [Decl.takesMembers, isBlock, isModification]
        rw [unlinked.members_eq_nil takesNone] at own
        rw [List.sublist_nil.mp own]
        exact List.nil_sublist _

/-- Linking keeps a graph that has been read, but for what it is to change. Each field comes from
the step of linking that is the only one to touch what the field speaks of. -/
theorem linkFrame_link : LinkFrame graph graph.link where
  size := size_link graph
  skeleton := keeps_skeleton_link graph
  pageName := keeps_pageName?_link graph
  listed _ := stablySorted_listed_link graph
  modifications := modifications_link graph
  files := ⟨sortedFiles graph.files, perm_sortedFiles graph.files, forall₂_fileSorted_link graph⟩
  filesInOrder := pairwise_files_link graph
  enumGroups := by
    rw [enumGroups_link]
    exact graph.link.stableSort_sortedGroups graph.enumGroups
  groups := groupSorted_link graph
  constants := by
    rw [enums_link]
    exact graph.link.perm_sorted _
  enums := by
    rw [enums_link]
    exact graph.link.inOrder_sorted _
  members _ kind notModification := inOrder_members_link unlinked notModification kind
  ownMembers _ _ _ := sublist_members_link unlinked
  globalObjects := inOrder_globalObjects_link unlinked
  matchClasses id := by
    rw [matchClasses_link unlinked]
    exact stablySorted_sorted_link graph _
  total left right := by
    rw [Decl.displayOrder_swap]
    cases right.displayOrder left <;> simp
  trans _ _ _ := Decl.displayOrder_trans

end Unlinked

/-- Whatever files are read, linking loses and rewrites nothing of what they declare. All lists are
in display order afterwards, and declarations that compare equal keep their order. -/
theorem linkFrame_of_readings (files : List SourceFile) (readings : List FileReading) :
    LinkFrame ((ofFiles files).readAll readings) ((ofFiles files).readAll readings).link :=
  linkFrame_link (unlinked_readAll files readings)

end TadsReference.Graph
