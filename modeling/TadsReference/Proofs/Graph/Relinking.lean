import TadsReference.Proofs.Graph.Catalogue
import TadsReference.Proofs.Graph.InOrder
import TadsReference.Proofs.Graph.LoneLines

/-!
# Linking twice

A graph at rest is one on which every pass of linking is idle, except that the constants of files
and of the graph are listed again: `AtRest.link_eq`. Linking leaves a graph at rest unless some
`modify` block is merged, and constants that are listed again change places only with constants that
compare equal.
-/

namespace TadsReference

namespace Decl

/-- Marking a member a second time changes nothing. -/
theorem marked_eq_self {decl : Decl} (overridden : decl.overridden = true) :
    decl.marked = decl := by
  rcases decl with ⟨_, _, _, shape⟩
  cases shape with
  | method details parameters =>
      rcases details with ⟨_, marked, _, _, _⟩
      obtain rfl : marked = true := overridden
      rfl
  | property details =>
      rcases details with ⟨_, marked, _, _, _⟩
      obtain rfl : marked = true := overridden
      rfl
  | _ => rfl

/-- Resolving a base list whose references stay the same leaves the whole block as it is. -/
theorem mapBlock_bases_eq_self {decl : Decl} {resolve : BaseRef → BaseRef}
    (idle : decl.bases.map resolve = decl.bases) :
    decl.mapBlock (fun block => { block with bases := block.bases.map resolve }) = decl := by
  rcases decl with ⟨name, description, location, shape⟩
  cases shape with
  | classDecl details =>
      have same : details.block.bases.map resolve = details.block.bases := idle
      simp only [mapBlock, same]
  | objectDecl details =>
      have same : details.block.bases.map resolve = details.block.bases := idle
      simp only [mapBlock, same]
  | _ => rfl

end Decl

namespace Graph

variable {graph before after : Graph} {id : DeclId} {groups others : List GroupId}

/-! ### Graphs at rest -/

/-- Linking finds nothing to do in a graph, but for listing constants again. -/
structure AtRest (graph : Graph) : Prop where
  files : sortedFiles graph.files = graph.files
  listed : ∀ listing ≠ .modifications, graph.InOrder (graph.listed listing)
  modifications : ∀ modification ∈ graph.modifications,
    graph.findBlock? (graph.name modification) = none
  bases : ∀ id name, .name name ∈ (graph.decl id).bases → graph.findBlock? name = none
  productions : ∀ production ∈ graph.productions, graph.Collects production
  holders : ∀ id ∈ graph.holders, (graph.decl id).sortLists graph.sorted = graph.decl id
  groups : ∀ group, InSomeFile graph.files group →
    graph.sortMembers (graph.group group) = graph.group group
  records : ∀ file ∈ graph.files,
    graph.finishedRecord file = { file with enums := graph.constants file.enumGroups }
  overrides : ∀ member ∈ graph.allOverridingMembers, (graph.decl member).overridden = true
  enumGroups : graph.sortedGroups graph.enumGroups = graph.enumGroups

theorem foldl_eq_self {Item : Type} {step : Graph → Item → Graph} {items : List Item}
    (idle : ∀ item ∈ items, step graph item = graph) : items.foldl step graph = graph := by
  induction items with
  | nil => rfl
  | cons item items ih =>
      rw [List.foldl_cons, idle item List.mem_cons_self]
      exact ih fun other isItem => idle other (List.mem_cons_of_mem _ isItem)

/-- A change that leaves one declaration as it is leaves the graph as it is. A number out of range
is changed in vain. -/
theorem modifyDecl_eq_self {change : Decl → Decl}
    (idle : change (graph.decl id) = graph.decl id) : graph.modifyDecl id change = graph := by
  have decls : graph.decls.modify id change = graph.decls := by
    apply Array.ext (by simp)
    intro position inside isDecl
    have shown : graph.decl position = graph.decls[position] := by
      simp [decl, isDecl]
    rw [Array.getElem_modify, ← shown]
    split
    · next here => rw [← here, idle]
    · rfl
  rw [modifyDecl, decls]

theorem foldl_insertOnce_eq_self {ids more : List DeclId} (present : ∀ id ∈ more, id ∈ ids) :
    more.foldl insertOnce ids = ids := by
  induction more with
  | nil => rfl
  | cons id more ih =>
      have isThere : insertOnce ids id = ids :=
        if_pos (List.contains_iff_mem.mpr (present id List.mem_cons_self))
      rw [List.foldl_cons, isThere]
      exact ih fun other isLater => present other (List.mem_cons_of_mem _ isLater)

/-- A production that shows the members of its rules has nothing left to gather. -/
theorem gatheredMembers_eq_self {production : DeclId} {details : ProductionDecl}
    (collects : graph.Collects production)
    (shape : (graph.decl production).kind = .production details) (kind : MemberKind) :
    graph.gatheredMembers details kind = details.body.members kind := by
  apply foldl_insertOnce_eq_self
  intro member isGathered
  rcases List.mem_flatMap.mp isGathered with ⟨rule, isRule, isMember⟩
  have rules : (graph.decl production).matchClasses = details.matchClasses := by
    simp only [Decl.matchClasses, shape]
  have members : (graph.decl production).members kind = details.body.members kind := by
    simp only [Decl.members, Decl.body?, shape, Option.map_some, Option.getD_some]
  rw [← members]
  exact collects kind rule (rules ▸ isRule) member isMember

namespace AtRest

variable (atRest : graph.AtRest)

include atRest

/-- A list that is in order is not changed by being sorted, since the sort is stable. -/
theorem sortCollections_eq : graph.sortCollections = graph := by
  have classes := (atRest.listed .classes nofun).sorted_eq
  have objects := (atRest.listed .objects nofun).sorted_eq
  have productions := (atRest.listed .productions nofun).sorted_eq
  have functions := (atRest.listed .functions nofun).sorted_eq
  have macros := (atRest.listed .macros nofun).sorted_eq
  have templates := (atRest.listed .templates nofun).sorted_eq
  have messages := (atRest.listed .messages nofun).sorted_eq
  simp only [Graph.listed] at classes objects productions functions macros templates messages
  rw [sortCollections, atRest.files, classes, objects, productions, functions, macros, templates,
    messages]

theorem mergeModifications_eq : graph.mergeModifications = graph := by
  apply foldl_eq_self
  intro modification isModification
  rw [mergeModification, atRest.modifications modification isModification]

/-- Names that are left stand for nothing, and heirs that would be noted have been noted before. So
every base resolves to itself, and the pass over the declarations changes none of them. -/
theorem linkAllBases_eq : graph.linkAllBases = graph := by
  apply foldl_eq_self
  intro id _
  have noNew : graph.newBases (graph.decl id).bases = [] := by
    apply List.filterMap_eq_nil_iff.mpr
    intro base isBase
    cases base with
    | decl base => rfl
    | name name => exact atRest.bases id name isBase
  have resolved : (graph.decl id).bases.map graph.resolveBase = (graph.decl id).bases := by
    have idle : ∀ base ∈ (graph.decl id).bases, graph.resolveBase base = base := by
      intro base isBase
      cases base with
      | decl base => rfl
      | name name => simp only [resolveBase, atRest.bases id name isBase]
    exact (List.map_congr_left idle).trans (List.map_id' _)
  rw [linkBases, noNew, List.foldl_nil]
  exact modifyDecl_eq_self (Decl.mapBlock_bases_eq_self resolved)

/-- Each production gathers in vain, so the graph is at rest behind each of them. -/
theorem gatherProductions_eq : graph.gatherProductions = graph := by
  apply foldl_eq_self
  intro production isProduction
  apply modifyDecl_eq_self
  have collects := atRest.productions production isProduction
  cases shape : (graph.decl production).kind with
  | production details =>
      have methods : graph.gatheredMembers details .method = details.body.methods :=
        gatheredMembers_eq_self collects shape .method
      have properties : graph.gatheredMembers details .property = details.body.properties :=
        gatheredMembers_eq_self collects shape .property
      simp only [Decl.mapProduction, shape, methods, properties]
      rw [← shape]
  | _ => simp only [Decl.mapProduction, shape]

theorem sortHolders_eq : graph.sortHolders = graph := by
  apply foldl_eq_self
  intro id isHolder
  rw [sortHolder_eq_modifyDecl]
  exact modifyDecl_eq_self (atRest.holders id isHolder)

theorem group_finishFiles_eq (group : GroupId) :
    graph.finishFiles.group group = graph.group group := by
  rw [group_finishFiles]
  split
  · next isFiled => exact atRest.groups group isFiled
  · rfl

/-- The groups are sorted by now, so all that becomes of a file is its finished record. -/
theorem finishFiles_eq :
    graph.finishFiles = { graph with files := graph.files.map graph.finishedRecord } := by
  have first := firstFinished_finishFiles graph
  have groups : graph.finishFiles.groups = graph.groups := by
    apply Array.ext first.size
    intro group inside isGroup
    have same := atRest.group_finishFiles_eq group
    simpa [Graph.group, inside, isGroup] using same
  have record : graph.finishFiles.finishedRecord = graph.finishedRecord := by
    funext file
    exact (Keeps.of_shape first.shape).finishedRecord fun group _ =>
      atRest.group_finishFiles_eq group
  rw [first.shape, groups, files_finishFiles, record]

theorem markOverrides_finishFiles_eq : graph.finishFiles.markOverrides = graph.finishFiles := by
  rw [atRest.finishFiles_eq]
  apply foldl_eq_self
  intro member isOverriding
  apply modifyDecl_eq_self
  exact Decl.marked_eq_self (atRest.overrides member isOverriding)

/-- All that linking does with a graph at rest is to list constants again. Neither listing constants
nor sorting groups reads the files, so the two that are left of linking may be put side by side. -/
theorem link_eq :
    graph.link =
      { graph with
        files := graph.files.map graph.finishedRecord
        enums := graph.constants graph.enumGroups } := by
  rw [link, atRest.sortCollections_eq, atRest.mergeModifications_eq, atRest.linkAllBases_eq,
    atRest.gatherProductions_eq, atRest.sortHolders_eq, atRest.markOverrides_finishFiles_eq,
    atRest.finishFiles_eq]
  change { graph with
    files := graph.files.map graph.finishedRecord
    enums := graph.constants graph.enumGroups
    enumGroups := graph.sortedGroups graph.enumGroups } = _
  rw [atRest.enumGroups]

end AtRest

/-! ### Listing constants again -/

/-- What linking a graph again may change: the order of constants that compare equal. -/
structure Relinked (before after : Graph) : Prop where
  rest : after = { before with files := after.files, enums := after.enums }
  files : List.Forall₂ (fun old file => file = { old with enums := file.enums } ∧
    before.SameUpToTies old.enums file.enums) before.files after.files
  enums : before.SameUpToTies before.enums after.enums

/-- Where listing constants again only swaps those that compare equal, linking again does no more
than that. -/
theorem AtRest.relinked (atRest : graph.AtRest)
    (files : ∀ file ∈ graph.files,
      graph.SameUpToTies file.enums (graph.constants file.enumGroups))
    (enums : graph.SameUpToTies graph.enums (graph.constants graph.enumGroups)) :
    Relinked graph graph.link := by
  rw [atRest.link_eq]
  refine ⟨rfl, ?_, enums⟩
  rw [List.forall₂_map_right_iff]
  apply List.forall₂_same.mpr
  intro file isFile
  rw [atRest.records file isFile]
  exact ⟨rfl, files file isFile⟩

/-- The constants of the same groups are listed in the same order, ties aside, in whatever order the
groups are. -/
theorem sameUpToTies_constants (graph : Graph) (perm : groups.Perm others) :
    graph.SameUpToTies (graph.constants groups) (graph.constants others) := by
  apply sameUpToTies_of_perm _ (graph.inOrder_sorted _) (graph.inOrder_sorted _)
  have listed : (graph.constantsOf others).Perm (graph.constantsOf groups) :=
    perm_constantsOf (fun _ => .refl _) perm.symm
  exact ((graph.perm_sorted _).trans listed).trans (graph.perm_sorted _).symm

theorem sortedGroups_sortedGroups (graph : Graph) (groups : List GroupId) :
    graph.sortedGroups (graph.sortedGroups groups) = graph.sortedGroups groups :=
  List.mergeSort_of_pairwise (graph.stableSort_sortedGroups groups).inOrder

theorem finishedRecord_finishedRecord (graph : Graph) (file : FileRecord) :
    graph.finishedRecord (graph.finishedRecord file) =
      { graph.finishedRecord file with
        enums := graph.constants (graph.finishedRecord file).enumGroups } := by
  simp only [finishedRecord, sorted_sorted, sortedGroups_sortedGroups]

/-! ### Linked graphs are at rest -/

theorem findBlock?_link (graph : Graph) (name : String) :
    graph.link.findBlock? name = graph.sortCollections.findBlock? name := by
  rw [findBlock?_sortCollections, findBlock?, findClass?, classes_link, objects_link,
    (keeps_head_link graph).findNamed?, (keeps_head_link graph).findNamed?]

theorem inSomeFile_link {group : GroupId} :
    InSomeFile graph.link.files group ↔ InSomeFile graph.files group := by
  rw [files_link, ← inSomeFile_of_perm (perm_sortedFiles graph.files)]
  have groups (file : FileRecord) :
      group ∈ (graph.link.finishedRecord file).enumGroups ↔ group ∈ file.enumGroups :=
    List.mem_mergeSort
  simp only [InSomeFile, List.mem_map, exists_exists_and_eq_and, groups]

theorem sortMembers_group_link {group : GroupId} (isFiled : InSomeFile graph.link.files group) :
    graph.link.sortMembers (graph.link.group group) = graph.link.group group := by
  rw [(keeps_head_link graph).sortMembers, group_link, if_pos (inSomeFile_link.mp isFiled),
    sortMembers_sortMembers]

/-- No `modify` block has the name of a class or an object. -/
def Unmodified (graph : Graph) : Prop :=
  ∀ modification ∈ graph.modifications, ∀ id ∈ graph.classes ++ graph.objects,
    graph.name id ≠ graph.name modification

/-- Whether a `modify` block has such a name can be checked block by block. -/
instance : DecidablePred Unmodified :=
  fun graph => inferInstanceAs (Decidable (∀ modification ∈ graph.modifications,
    ∀ id ∈ graph.classes ++ graph.objects, graph.name id ≠ graph.name modification))

theorem Unmodified.findBlock?_link (unmodified : graph.Unmodified) {modification : DeclId}
    (isModification : modification ∈ graph.link.modifications) :
    graph.link.findBlock? (graph.link.name modification) = none := by
  rw [modifications_link] at isModification
  rw [(keeps_head_link graph).name, Graph.findBlock?_link, findBlock?_sortCollections_eq_none_iff]
  exact unmodified modification isModification

/-- A name that linking has left in a base list stands for nothing, for otherwise it would have been
resolved. -/
theorem Mirrored.findBlock?_link (mirrored : graph.Mirrored) {name : String}
    (isBase : .name name ∈ (graph.link.decl id).bases) : graph.link.findBlock? name = none := by
  rw [mirrored.bases_link] at isBase
  rcases List.mem_map.mp isBase with ⟨reference, _, resolves⟩
  rw [Graph.findBlock?_link]
  cases reference with
  | decl base => contradiction
  | name written =>
      cases found : graph.sortCollections.findBlock? written with
      | some target => simp [resolveBase, found] at resolves
      | none =>
          obtain rfl : written = name := by simpa [resolveBase, found] using resolves
          exact found

/-- What is found to override in a linked graph was found when it was linked, since marking changes
no members and no bases. -/
theorem overridden_of_mem_link (unlinked : graph.Unlinked) (mirrored : graph.Mirrored)
    {member : DeclId} (isOverriding : member ∈ graph.link.allOverridingMembers) :
    (graph.link.decl member).overridden = true := by
  rcases mem_allOverridingMembers.mp isOverriding with ⟨id, listed, kind, isMember, inherits⟩
  have isBlock := mirrored.link.mem_blocks.mp listed
  exact (unlinked.overridesMarked.home id kind isBlock member isMember).2.mpr inherits

/-- Linking leaves a graph at rest, unless it merges a `modify` block. A block that is merged again
would be noted on its target a second time. -/
theorem atRest_link (unlinked : graph.Unlinked) (mirrored : graph.Mirrored)
    (complete : graph.Complete) (ruled : graph.Ruled) (unmodified : graph.Unmodified) :
    graph.link.AtRest where
  files := List.mergeSort_of_pairwise (pairwise_files_link graph)
  listed _ sorts := (stablySorted_listed_link graph sorts).inOrder
  modifications _ := unmodified.findBlock?_link
  bases _ _ := mirrored.findBlock?_link
  productions production listed := by
    have label := (complete.link.mem_iff .productions production).mp listed
    exact (ruled.link complete).2 production label.2
  holders _ := sortLists_link graph
  groups _ := sortMembers_group_link
  records file isFile := by
    rw [files_link] at isFile
    rcases List.mem_map.mp isFile with ⟨old, _, rfl⟩
    exact finishedRecord_finishedRecord graph.link old
  overrides _ := overridden_of_mem_link unlinked mirrored
  enumGroups := by
    rw [enumGroups_link, sortedGroups_sortedGroups]

/-- The constants of a linked file, listed again from its sorted groups. -/
theorem sameUpToTies_enums_of_mem {file : FileRecord} (isFile : file ∈ graph.link.files) :
    graph.link.SameUpToTies file.enums (graph.link.constants file.enumGroups) := by
  rw [files_link] at isFile
  rcases List.mem_map.mp isFile with ⟨old, _, rfl⟩
  have groups := graph.link.stableSort_sortedGroups old.enumGroups
  exact sameUpToTies_constants graph.link groups.perm.symm

/-- The constants of the linked graph were listed from its groups before these were sorted, and the
same constants are listed from them afterwards. -/
theorem sameUpToTies_enums_link (graph : Graph) :
    graph.link.SameUpToTies graph.link.enums (graph.link.constants graph.link.enumGroups) := by
  rw [enums_link, enumGroups_link]
  have groups := graph.link.stableSort_sortedGroups graph.enumGroups
  exact sameUpToTies_constants graph.link groups.perm.symm

/-- Whatever files are read, if no `modify` block is merged, then linking a second time changes
nothing but the order of constants that compare equal. -/
theorem relinked_of_readings (files : List SourceFile) (readings : List FileReading)
    (unmodified : ((ofFiles files).readAll readings).Unmodified) :
    Relinked ((ofFiles files).readAll readings).link
      ((ofFiles files).readAll readings).link.link := by
  have complete := complete_run files (readings.map .read)
  have ruled := ruled_run files (readings.map .read)
  rw [run_reads] at complete ruled
  have atRest := atRest_link (unlinked_readAll files readings) (mirrored_readAll files readings)
    complete ruled unmodified
  exact atRest.relinked (fun _ => sameUpToTies_enums_of_mem) (sameUpToTies_enums_link _)

/-! ### A `modify` block without a target -/

/-- A header with two constants that compare equal and a `modify` block of an unknown name. -/
def ghostsText : List UInt8 :=
  "enum red, Red;\nclass Lamp: Thing\nmodify Ghost\n    pale = true\n".toUTF8.toList

/-- What the header declares. -/
def ghostsEntries : List Entry :=
  [.enumGroup "" 1 ["red", "Red"],
    .declaration "Lamp" "" 2 (.classBlock { bases := ["Thing"] }),
    .declaration "Ghost" "" 3 .modifyBlock,
    .declaration "pale" "" 4 (.property false)]

/-- The graph of the header when nothing has been read of it. -/
def ghostsUnread : Graph :=
  ofFiles [⟨"ghosts.h", "ghosts.h", true, [], 4⟩]

/-- The graph of the header when it has been read. -/
def ghosts : Graph :=
  ghostsUnread.readAll [⟨0, false, "ghosts.h", ghostsText, none, none⟩]

theorem ghosts_eq : ghosts = ghostsUnread.record 0 ghostsEntries := by
  apply readAll_header <;> decide +kernel

/-- The `modify` block of the header has no target, so linking twice is linking once. -/
theorem relinked_ghosts :
    (ghosts.modifications = [3] ∧ ghosts.Unmodified) ∧ Relinked ghosts.link ghosts.link.link := by
  have unmodified : ghosts.modifications = [3] ∧ ghosts.Unmodified := by
    rw [ghosts_eq]
    decide +kernel
  exact ⟨unmodified, relinked_of_readings _ _ unmodified.2⟩

end Graph

end TadsReference
