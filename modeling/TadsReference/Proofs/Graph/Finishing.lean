import TadsReference.Proofs.Graph.Filing
import TadsReference.Proofs.Graph.Overrides

/-!
# Finishing files

Linking finishes one file after the other: it sorts the members of the file's groups, and then the
lists of the file by what the groups are by then. Sorting a group twice changes nothing more, so
every file is finished as if all groups had been sorted before: `files_link` and `group_link` say
what becomes of files and groups without mentioning the order.
-/

namespace TadsReference.Graph

variable {graph before after : Graph} {group : GroupId} {file : FileRecord}

theorem mergeSort_congr {Item : Type} {le other : Item → Item → Bool} {items : List Item}
    (same : ∀ left ∈ items, ∀ right ∈ items, le left right = other left right) :
    items.mergeSort le = items.mergeSort other := by
  have mapped := List.map_mergeSort (f := id) same
  simpa using mapped

/-! ### Groups -/

/-- A group with its members sorted. -/
def sortMembers (graph : Graph) (group : EnumGroup) : EnumGroup :=
  { group with members := graph.sorted group.members }

theorem sortMembers_sortMembers (graph : Graph) (group : EnumGroup) :
    graph.sortMembers (graph.sortMembers group) = graph.sortMembers group := by
  simp only [sortMembers, sorted_sorted]

theorem Keeps.sortMembers (kept : Keeps Decl.head before after) :
    after.sortMembers = before.sortMembers := by
  funext group
  simp only [Graph.sortMembers, kept.sorted]

/-- Sorting one group changes no other one. -/
theorem group_sortGroup (graph : Graph) (sorted group : GroupId) :
    (graph.sortGroup sorted).group group =
      if group = sorted then graph.sortMembers (graph.group group) else graph.group group := by
  simp only [sortGroup, Graph.group, Array.getD_eq_getD_getElem?, Array.getElem?_modify]
  by_cases here : sorted = group
  · subst here
    cases graph.groups[sorted]? with
    | none =>
        have empty : graph.sorted [] = [] := List.perm_nil.mp (graph.perm_sorted [])
        simp only [if_true, Option.map_none, Option.getD_none]
        exact congrArg (EnumGroup.mk "" default) empty.symm
    | some old => simp [sortMembers]
  · simp [here, Ne.symm here]

/-- After several groups have been sorted, each of them has its members in order, even if it was
sorted twice. -/
theorem group_foldl_sortGroup (graph : Graph) (groups : List GroupId) (group : GroupId) :
    (groups.foldl sortGroup graph).group group =
      if group ∈ groups then graph.sortMembers (graph.group group) else graph.group group := by
  induction groups generalizing graph with
  | nil => simp
  | cons first groups ih =>
      have same : (graph.sortGroup first).sortMembers = graph.sortMembers :=
        Keeps.sortMembers fun _ => rfl
      rw [List.foldl_cons, ih, same, group_sortGroup]
      by_cases here : group = first <;> by_cases later : group ∈ groups <;>
        simp [here, later, sortMembers_sortMembers]

/-- Sorting groups changes nothing but groups. -/
theorem foldl_sortGroup_eq (graph : Graph) (groups : List GroupId) :
    groups.foldl sortGroup graph = { graph with groups := (groups.foldl sortGroup graph).groups } ∧
      (groups.foldl sortGroup graph).groups.size = graph.groups.size := by
  induction groups generalizing graph with
  | nil => exact ⟨rfl, rfl⟩
  | cons first groups ih =>
      rcases ih (graph.sortGroup first) with ⟨shape, size⟩
      refine ⟨?_, size.trans (by simp [sortGroup])⟩
      rw [List.foldl_cons]
      exact shape

/-! ### Records of files -/

/-- The record of a file with its lists sorted and the constants of its groups listed. -/
def finishedRecord (graph : Graph) (file : FileRecord) : FileRecord :=
  { file with
    classes := graph.sorted file.classes
    objects := graph.sorted file.objects
    functions := graph.sorted file.functions
    macros := graph.sorted file.macros
    templates := graph.sorted file.templates
    enumGroups := graph.sortedGroups file.enumGroups
    enums := graph.constants file.enumGroups }

theorem finishFile_eq (graph : Graph) (index : Nat) :
    graph.finishFile index =
      ((graph.file index).enumGroups.foldl sortGroup graph).modifyFile index
        ((graph.file index).enumGroups.foldl sortGroup graph).finishedRecord :=
  rfl

theorem Keeps.groupKey (kept : Keeps Decl.head before after)
    (same : after.group group = before.group group) :
    after.groupKey group = before.groupKey group := by
  simp only [Graph.groupKey, same, kept.name]

theorem Keeps.sortedGroups (kept : Keeps Decl.head before after) {groups : List GroupId}
    (same : ∀ group ∈ groups, after.group group = before.group group) :
    after.sortedGroups groups = before.sortedGroups groups := by
  apply mergeSort_congr
  intro left isLeft right isRight
  rw [kept.groupKey (same left isLeft), kept.groupKey (same right isRight)]

/-- The constants of groups are listed in the same order in both graphs, if the groups are the
same. -/
theorem Keeps.constants (kept : Keeps Decl.head before after) {groups : List GroupId}
    (same : ∀ group ∈ groups, after.group group = before.group group) :
    after.constants groups = before.constants groups := by
  have members : (groups.flatMap fun group => (after.group group).members) =
      groups.flatMap fun group => (before.group group).members :=
    List.flatMap_congr fun group isGroup => congrArg (·.members) (same group isGroup)
  rw [Graph.constants, members, kept.sorted, Graph.constants]

theorem Keeps.finishedRecord (kept : Keeps Decl.head before after)
    (same : ∀ group ∈ file.enumGroups, after.group group = before.group group) :
    after.finishedRecord file = before.finishedRecord file := by
  simp only [Graph.finishedRecord, kept.sorted, kept.sortedGroups same, kept.constants same]

/-! ### Finishing one file after the other -/

/-- A file of a list has a group. -/
def InSomeFile (files : List FileRecord) (group : GroupId) : Prop :=
  ∃ file ∈ files, group ∈ file.enumGroups

/-- Whether a file of a list has a group can be checked file by file. -/
instance (files : List FileRecord) : DecidablePred (InSomeFile files) :=
  fun group => inferInstanceAs (Decidable (∃ file ∈ files, group ∈ file.enumGroups))

/-- What finishing the first files of a graph has made of it. -/
structure FirstFinished (graph finished : Graph) (count : Nat) : Prop where
  shape : finished = { graph with files := finished.files, groups := finished.groups }
  size : finished.groups.size = graph.groups.size
  group : ∀ group, finished.group group =
    if InSomeFile (graph.files.take count) group then graph.sortMembers (graph.group group)
    else graph.group group
  files : ∀ position, finished.files[position]? =
    if position < count then graph.files[position]?.map finished.finishedRecord
    else graph.files[position]?

theorem firstFinished_zero (graph : Graph) : FirstFinished graph graph 0 where
  shape := rfl
  size := rfl
  group _ := by simp [InSomeFile]
  files _ := by simp

theorem Keeps.of_shape {finished : Graph}
    (shape : finished = { graph with files := finished.files, groups := finished.groups }) :
    Keeps Decl.head graph finished := by
  intro id
  rw [shape]
  rfl

theorem inSomeFile_take_succ {files : List FileRecord} {count : Nat}
    (inside : count < files.length) :
    InSomeFile (files.take (count + 1)) group ↔
      InSomeFile (files.take count) group ∨ group ∈ files[count].enumGroups := by
  simp only [InSomeFile, List.take_succ_eq_append_getElem inside, List.mem_append,
    List.mem_singleton, or_and_right, exists_or, exists_eq_left]

theorem FirstFinished.enumGroups {finished : Graph} {count : Nat}
    (first : FirstFinished graph finished count) : finished.enumGroups = graph.enumGroups := by
  rw [first.shape]

/-- One more file is finished. The groups of an earlier file have been sorted before, and sorting
them again is idle, so this file finds its groups as if they had only been sorted for it. -/
theorem FirstFinished.finishFile {finished : Graph} {count : Nat}
    (first : FirstFinished graph finished count) (inside : count < graph.files.length) :
    FirstFinished graph (finished.finishFile count) (count + 1) := by
  have kept := Keeps.of_shape first.shape
  have next : finished.file count = graph.files[count] := by
    simp [Graph.file, first.files, inside]
  obtain ⟨shape, size⟩ := foldl_sortGroup_eq finished (graph.files[count]).enumGroups
  have groups : ∀ group,
      ((graph.files[count]).enumGroups.foldl sortGroup finished).group group =
        if InSomeFile (graph.files.take (count + 1)) group then
          graph.sortMembers (graph.group group)
        else graph.group group := by
    intro group
    rw [group_foldl_sortGroup, kept.sortMembers, first.group]
    by_cases isEarlier : InSomeFile (graph.files.take count) group <;>
      by_cases isHere : group ∈ (graph.files[count]).enumGroups <;>
        simp [inSomeFile_take_succ inside, isEarlier, isHere, sortMembers_sortMembers]
  have files := first.files
  rw [finishFile_eq, next]
  generalize (graph.files[count]).enumGroups.foldl sortGroup finished = grouped at *
  have keptGrouped : Keeps Decl.head finished grouped := by
    intro id
    rw [shape]
    rfl
  have sameFiles : grouped.files = finished.files := by
    rw [shape]
  constructor
  · rw [modifyFile, shape, first.shape]
  · exact size.trans first.size
  · exact groups
  · intro position
    have record (file : FileRecord) :
        (grouped.modifyFile count grouped.finishedRecord).finishedRecord file =
          grouped.finishedRecord file :=
      Keeps.finishedRecord (fun _ => rfl) fun _ _ => rfl
    have changed : (grouped.modifyFile count grouped.finishedRecord).files[position]? =
        (if count = position then finished.files[position]?.map grouped.finishedRecord
        else finished.files[position]?) := by
      rw [modifyFile, List.getElem?_modify, sameFiles]
      split <;> simp
    rw [changed, files]
    rcases Nat.lt_trichotomy position count with earlier | rfl | later
    · rw [if_neg (Nat.ne_of_gt earlier), if_pos earlier, if_pos (Nat.lt_succ_of_lt earlier)]
      have isThere : position < graph.files.length := Nat.lt_trans earlier inside
      rw [List.getElem?_eq_getElem isThere, Option.map_some, Option.map_some, record]
      refine congrArg some (keptGrouped.finishedRecord ?_).symm
      intro group isGroup
      have isEarlier : InSomeFile (graph.files.take count) group :=
        ⟨graph.files[position],
          List.mem_take_iff_getElem.mpr ⟨position, Nat.lt_min.mpr ⟨earlier, isThere⟩, rfl⟩, isGroup⟩
      rw [groups, first.group, if_pos isEarlier,
        if_pos ((inSomeFile_take_succ inside).mpr (.inl isEarlier))]
    · rw [if_pos rfl, if_neg (Nat.lt_irrefl _), if_pos (Nat.lt_succ_self _)]
      simp only [funext record]
    · rw [if_neg (Nat.ne_of_lt later), if_neg (Nat.lt_asymm later),
        if_neg (Nat.not_lt_of_le later)]

/-- What finishing the first files of a graph makes of it, whatever their number. The induction is
on that number, with one file more in each step. -/
theorem firstFinished_foldl {count : Nat} (few : count ≤ graph.files.length) :
    FirstFinished graph ((List.range count).foldl Graph.finishFile graph) count := by
  induction count with
  | zero => exact firstFinished_zero graph
  | succ count ih =>
      rw [List.range_succ, List.foldl_append]
      exact (ih (Nat.le_of_succ_le few)).finishFile few

/-! ### Finishing all files -/

theorem firstFinished_finishFiles (graph : Graph) :
    FirstFinished graph graph.finishFiles graph.files.length :=
  firstFinished_foldl (Nat.le_refl _)

theorem group_finishFiles (graph : Graph) (group : GroupId) :
    graph.finishFiles.group group =
      if InSomeFile graph.files group then graph.sortMembers (graph.group group)
      else graph.group group := by
  rw [(firstFinished_finishFiles graph).group, List.take_length]

/-- Every file is finished by what the groups are in the end. A later file changes no group that an
earlier one has, since it can only sort it once more. -/
theorem files_finishFiles (graph : Graph) :
    graph.finishFiles.files = graph.files.map graph.finishFiles.finishedRecord := by
  apply List.ext_getElem?
  intro position
  rw [(firstFinished_finishFiles graph).files, List.getElem?_map]
  split
  · rfl
  · next outside => simp [List.getElem?_eq_none (Nat.le_of_not_lt outside)]

/-! ### Linking -/

/-- What linking does before it finishes files touches neither files nor groups, apart from putting
the files in order. -/
theorem sameLists_sortHolders_gathered (graph : Graph) :
    SameLists graph.sortCollections graph.gathered.sortHolders := by
  apply (sameLists_mergeModifications _).trans
  apply (sameLists_linkAllBases _).trans
  apply (sameLists_gatherProductions _).trans
  exact sameLists_sortHolders _

section FinishEnums

variable (graph : Graph)

theorem files_finishEnums : graph.finishEnums.files = graph.files :=
  rfl

theorem group_finishEnums (group : GroupId) : graph.finishEnums.group group = graph.group group :=
  rfl

theorem enumGroups_finishEnums :
    graph.finishEnums.enumGroups = graph.finishEnums.sortedGroups graph.enumGroups :=
  rfl

theorem enums_finishEnums :
    graph.finishEnums.enums = graph.finishEnums.constants graph.enumGroups :=
  rfl

end FinishEnums

theorem files_link_eq_finished (graph : Graph) : graph.link.files = graph.finished.files := by
  rw [link_eq_finishEnums, files_finishEnums, (sameLists_markOverrides _).files]

theorem group_link_eq_finished (graph : Graph) (group : GroupId) :
    graph.link.group group = graph.finished.group group := by
  rw [link_eq_finishEnums, group_finishEnums, (sameLists_markOverrides _).group]

/-- Marking what is overridden does not touch the groups, so the order in which linking lists them
is the one that they have then. -/
theorem enumGroups_markOverrides_finished (graph : Graph) :
    graph.finished.markOverrides.enumGroups = graph.enumGroups := by
  have sorting : graph.sortCollections.enumGroups = graph.enumGroups := rfl
  rw [(sameLists_markOverrides _).enumGroups, finished, (firstFinished_finishFiles _).enumGroups,
    (sameLists_sortHolders_gathered graph).enumGroups, sorting]

/-- Linking sorts the enumeration groups. -/
theorem enumGroups_link (graph : Graph) :
    graph.link.enumGroups = graph.link.sortedGroups graph.enumGroups := by
  rw [link_eq_finishEnums, enumGroups_finishEnums, enumGroups_markOverrides_finished]

/-- Linking lists the constants of all groups. -/
theorem enums_link (graph : Graph) :
    graph.link.enums = graph.link.constants graph.enumGroups := by
  rw [link_eq_finishEnums, enums_finishEnums, enumGroups_markOverrides_finished]

theorem perm_sortedFiles (files : List FileRecord) : (sortedFiles files).Perm files :=
  List.mergeSort_perm _ _

theorem inSomeFile_of_perm {files others : List FileRecord} (perm : files.Perm others) :
    InSomeFile files group ↔ InSomeFile others group := by
  simp only [InSomeFile, perm.mem_iff]

/-- Linking sorts the members of the groups that files have. A group that no file has keeps its
members in the order in which they were declared. -/
theorem group_link (graph : Graph) (group : GroupId) :
    graph.link.group group =
      if InSomeFile graph.files group then graph.sortMembers (graph.group group)
      else graph.group group := by
  have lists := sameLists_sortHolders_gathered graph
  have finishing : Keeps Decl.head graph.gathered.sortHolders graph.finished :=
    keeps_finishFiles _
  have kept : Keeps Decl.head graph graph.gathered.sortHolders := by
    intro id
    rw [← finishing id, ← keeps_head_finished graph id, keeps_head_link graph id]
  have sameFiles : graph.gathered.sortHolders.files = sortedFiles graph.files := lists.files
  have sameGroup : graph.gathered.sortHolders.group group = graph.group group := lists.group group
  rw [group_link_eq_finished, finished, group_finishFiles, sameFiles, sameGroup, kept.sortMembers]
  simp only [inSomeFile_of_perm (perm_sortedFiles graph.files)]

/-- Linking finishes every file. The files are in order by then, and each is finished by what the
groups are after linking. -/
theorem files_link (graph : Graph) :
    graph.link.files = (sortedFiles graph.files).map graph.link.finishedRecord := by
  have sameFiles : graph.gathered.sortHolders.files = sortedFiles graph.files :=
    (sameLists_sortHolders_gathered graph).files
  have record : graph.finished.finishedRecord = graph.link.finishedRecord := by
    funext file
    exact ((keeps_head_finished graph).finishedRecord
      fun group _ => group_link_eq_finished graph group).symm
  rw [files_link_eq_finished, ← record, finished, files_finishFiles, sameFiles]

end TadsReference.Graph
