import Mathlib.Data.List.Forall2
import TadsReference.Proofs.Graph.Finishing
import TadsReference.Proofs.Graph.Gathering

/-!
# Lists in display order

Sorting is stable: what stands in display order already stays in that order, declarations that
compare equal among it. So two sorted lists of the same declarations differ at most in how such
declarations follow one another. After linking, every class, object and production holds its lists
sorted: `sortLists_link`.
-/

namespace TadsReference

/-! ### Stable sorts -/

/-- A list has been sorted. What stood in order before, ties among it, still does so. -/
structure StableSort {Item : Type} (le : Item → Item → Bool) (old new : List Item) : Prop where
  perm : new.Perm old
  inOrder : new.Pairwise fun left right => le left right = true
  stable : ∀ items : List Item, (items.Pairwise fun left right => le left right = true) →
    items.Sublist old → items.Sublist new

theorem stableSort_mergeSort {Item : Type} {le : Item → Item → Bool}
    (trans : ∀ first second third, le first second = true → le second third = true →
      le first third = true)
    (total : ∀ left right, (le left right || le right left) = true) (items : List Item) :
    StableSort le items (items.mergeSort le) where
  perm := List.mergeSort_perm items le
  inOrder := List.pairwise_mergeSort trans total items
  stable _ inOrder sublist := List.sublist_mergeSort trans total inOrder sublist

/-- Sorting by a key is stable, since keys are texts and those are ordered. -/
theorem stableSort_byKey {Item : Type} (key : Item → String) (items : List Item) :
    StableSort (fun left right => (compare (key left) (key right)).isLE) items
      (items.mergeSort fun left right => (compare (key left) (key right)).isLE) := by
  apply stableSort_mergeSort
  · intro first second third forth back
    exact Std.TransCmp.isLE_trans forth back
  · intro left right
    have swap : compare (key left) (key right) = (compare (key right) (key left)).swap :=
      Std.OrientedCmp.eq_swap
    rw [swap]
    cases compare (key right) (key left) <;> rfl

namespace Decl

/-- What display order compares: the name, the file and the line. -/
def displayKey (decl : Decl) : String × String × Nat :=
  (Text.lowerCase decl.name, Text.lowerCase decl.location.file, decl.location.line)

/-- How keys compare: as the declarations that have them do. -/
def keyOrder (left right : String × String × Nat) : Ordering :=
  (compare left.1 right.1).then
    ((compare left.2.1 right.2.1).then (compare left.2.2 right.2.2))

/-- Declarations compare equal if and only if their keys are the same, so ties are declarations of
one name at one place. -/
theorem displayOrder_eq_iff {left right : Decl} :
    left.displayOrder right = .eq ↔ left.displayKey = right.displayKey := by
  simp [displayOrder, displayKey, Ordering.then_eq_eq]

theorem displayOrder_eq_of_isLE {left right : Decl}
    (forth : (left.displayOrder right).isLE = true)
    (back : (right.displayOrder left).isLE = true) : left.displayOrder right = .eq :=
  Std.OrientedCmp.isLE_antisymm forth back

theorem sortLists_marked (sort : List DeclId → List DeclId) (decl : Decl) :
    decl.marked.sortLists sort = (decl.sortLists sort).marked := by
  rcases decl with ⟨_, _, _, shape⟩
  cases shape <;> rfl

end Decl

namespace Graph

variable {graph before after : Graph} {id : DeclId} {ids left right : List DeclId}

/-- Declarations stand in display order. -/
def InOrder (graph : Graph) (ids : List DeclId) : Prop :=
  ids.Pairwise fun left right => (graph.displayOrder left right).isLE = true

theorem inOrder_sorted (graph : Graph) (ids : List DeclId) : graph.InOrder (graph.sorted ids) :=
  graph.pairwise_sorted ids

theorem InOrder.sorted_eq (inOrder : graph.InOrder ids) : graph.sorted ids = ids :=
  List.mergeSort_of_pairwise inOrder

theorem Keeps.inOrder (kept : Keeps Decl.head before after) :
    after.InOrder ids ↔ before.InOrder ids := by
  simp only [InOrder, kept.displayOrder]

/-! ### Sorted lists -/

/-- A list of declarations has been put in display order. -/
def StablySorted (graph : Graph) (old new : List DeclId) : Prop :=
  StableSort (fun left right => (graph.displayOrder left right).isLE) old new

theorem stablySorted_sorted (graph : Graph) (ids : List DeclId) :
    graph.StablySorted ids (graph.sorted ids) :=
  stableSort_mergeSort graph.displayOrder_trans graph.displayOrder_total ids

theorem stablySorted_sorted_link (graph : Graph) (ids : List DeclId) :
    graph.link.StablySorted ids (graph.sorted ids) := by
  rw [← (keeps_head_link graph).sorted]
  exact graph.link.stablySorted_sorted ids

/-- Linking sorts the list of each kind, except for the `modify` blocks. Those are merged in the
order in which they were read, and linking leaves them so. -/
theorem stablySorted_listed_link (graph : Graph) {listing : Listing}
    (sorts : listing ≠ .modifications) :
    graph.link.StablySorted (graph.listed listing) (graph.link.listed listing) := by
  rw [listed_link]
  cases listing with
  | modifications => contradiction
  | _ => exact stablySorted_sorted_link graph _

theorem stableSort_sortedGroups (graph : Graph) (groups : List GroupId) :
    StableSort (fun left right => (compare (graph.groupKey left) (graph.groupKey right)).isLE)
      groups (graph.sortedGroups groups) :=
  stableSort_byKey graph.groupKey groups

theorem stableSort_sortedFiles (files : List FileRecord) :
    StableSort (fun left right => (compare (Text.lowerCase left.source.shortName)
      (Text.lowerCase right.source.shortName)).isLE) files (sortedFiles files) :=
  stableSort_byKey (fun file : FileRecord => Text.lowerCase file.source.shortName) files

theorem pairwise_files_link (graph : Graph) :
    graph.link.files.Pairwise fun left right =>
      (compare (Text.lowerCase left.source.shortName)
        (Text.lowerCase right.source.shortName)).isLE = true := by
  rw [files_link]
  exact List.pairwise_map.mpr (stableSort_sortedFiles graph.files).inOrder

/-! ### Ties -/

/-- Two lists hold the same declarations, and at each place two that compare equal. -/
structure SameUpToTies (graph : Graph) (old new : List DeclId) : Prop where
  perm : new.Perm old
  ties : List.Forall₂ (fun left right => graph.displayOrder left right = .eq) old new

/-- Two sorted lists of the same declarations differ in no more than ties. Keys that compare equal
are the same, so there is one way to sort them. -/
theorem sameUpToTies_of_perm (perm : right.Perm left) (leftOrder : graph.InOrder left)
    (rightOrder : graph.InOrder right) : graph.SameUpToTies left right := by
  refine ⟨perm, ?_⟩
  let key (id : DeclId) : String × String × Nat := (graph.decl id).displayKey
  have leftKeys : (left.map key).Pairwise fun old new => (Decl.keyOrder old new).isLE = true :=
    List.pairwise_map.mpr leftOrder
  have rightKeys : (right.map key).Pairwise fun old new => (Decl.keyOrder old new).isLE = true :=
    List.pairwise_map.mpr rightOrder
  have sameKeys : left.map key = right.map key := by
    apply List.Perm.eq_of_pairwise _ leftKeys rightKeys (perm.symm.map key)
    intro old new isOld isNew forth back
    rcases List.mem_map.mp isOld with ⟨oldId, _, rfl⟩
    rcases List.mem_map.mp isNew with ⟨newId, _, rfl⟩
    exact Decl.displayOrder_eq_iff.mp (Decl.displayOrder_eq_of_isLE forth back)
  have pointwise : List.Forall₂ (· = ·) (left.map key) (right.map key) := by
    rw [List.forall₂_eq_eq_eq]
    exact sameKeys
  rw [List.forall₂_map_left_iff, List.forall₂_map_right_iff] at pointwise
  exact pointwise.imp fun _ _ same => Decl.displayOrder_eq_iff.mpr same

/-! ### The lists that declarations hold -/

theorem keeps_head_gathered_link (graph : Graph) : Keeps Decl.head graph.gathered graph.link :=
  fun id => Decl.head_eq_of_skeleton_eq ((resorted_link graph).skeleton id)

/-- The classes, objects and productions of a graph. -/
def holders (graph : Graph) : List DeclId :=
  graph.classes ++ graph.objects ++ graph.productions

/-- Linking declares nothing, and the list of each kind has its order by the time that productions
gather. -/
theorem holders_link (graph : Graph) : graph.link.holders = graph.gathered.holders := by
  have same (listing : Listing) : graph.link.listed listing = graph.gathered.listed listing := by
    rw [listed_link, listed_gathered]
  have classes := same .classes
  have objects := same .objects
  have productions := same .productions
  simp only [listed] at classes objects productions
  rw [holders, classes, objects, productions, holders]

/-- A declaration that holds lists has them sorted once, and by the order that the graph has in the
end. -/
theorem decl_finished (graph : Graph) (isHolder : id ∈ graph.link.holders) :
    graph.finished.decl id = (graph.gathered.decl id).sortLists graph.gathered.sorted := by
  rw [holders_link] at isHolder
  rw [finished, decl_of_decls_eq (decls_finishFiles _).1, decl_sortHolders]
  exact if_pos isHolder

/-- Linking leaves the lists that classes, objects and productions hold in display order. Only
marking follows behind the sort, and it touches no list. -/
theorem sortLists_link (graph : Graph) (isHolder : id ∈ graph.link.holders) :
    (graph.link.decl id).sortLists graph.link.sorted = graph.link.decl id := by
  have sorted : graph.link.sorted = graph.gathered.sorted :=
    funext (keeps_head_gathered_link graph).sorted
  have twice : (graph.finished.decl id).sortLists graph.gathered.sorted =
      graph.finished.decl id := by
    rw [decl_finished graph isHolder, sortLists_sortLists]
  rw [sorted, decl_link]
  split
  · rw [Decl.sortLists_marked, twice]
  · exact twice

end Graph

end TadsReference
