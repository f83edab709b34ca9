import TadsReference.Proofs.Graph.Finishing
import TadsReference.Proofs.Graph.Holdings

/-!
# The catalogue of a graph

What a graph lists of a kind is what is declared of it, and what its files list of it. Enumeration
constants are listed through their groups. `catalogued_of_session` says so of every graph that
reading and linking can give.
-/

namespace TadsReference.Graph

open Relation

variable {graph before middle after : Graph} {index position : Nat} {id : DeclId}
  {file old : FileRecord}

/-! ### Putting files in order -/

/-- The constants of several groups, group by group. -/
def constantsOf (graph : Graph) (groups : List GroupId) : List DeclId :=
  groups.flatMap fun group => (graph.group group).members

/-- The record of a file whose lists have been put in another order. Its constants may have been
listed anew. -/
structure SameHoldings (graph : Graph) (old file : FileRecord) : Prop where
  source : file.source = old.source
  lists : ∀ listing, (file.list listing).Perm (old.list listing)
  groups : file.enumGroups.Perm old.enumGroups
  constants : file.enums = old.enums ∨ file.enums.Perm (graph.constantsOf old.enumGroups)

/-- The files of a graph, their lists and the groups have been put in another order, and nothing is
lost by that. -/
structure Reordered (before after : Graph) : Prop where
  groupCount : after.groups.size = before.groups.size
  location : ∀ group, (after.group group).location = (before.group group).location
  members : ∀ group, (after.group group).members.Perm (before.group group).members
  enumGroups : after.enumGroups.Perm before.enumGroups
  files : ∀ file ∈ after.files, ∃ old ∈ before.files, before.SameHoldings old file
  lists : ∀ listing, (after.files.flatMap (·.list listing)).Perm
    (before.files.flatMap (·.list listing))
  fileGroups : (after.files.flatMap (·.enumGroups)).Perm (before.files.flatMap (·.enumGroups))

theorem SameHoldings.refl (graph : Graph) (file : FileRecord) : graph.SameHoldings file file where
  source := rfl
  lists _ := .refl _
  groups := .refl _
  constants := .inl rfl

theorem perm_constantsOf {groups others : List GroupId}
    (members : ∀ group, (after.group group).members.Perm (before.group group).members)
    (order : groups.Perm others) : (after.constantsOf groups).Perm (before.constantsOf others) :=
  order.flatMap fun group _ => members group

namespace Reordered

theorem refl (graph : Graph) : Reordered graph graph where
  groupCount := rfl
  location _ := rfl
  members _ := .refl _
  enumGroups := .refl _
  files file isFile := ⟨file, isFile, .refl graph file⟩
  lists _ := .refl _
  fileGroups := .refl _

/-- Two orders one after the other are one order. The constants of a file may have been listed anew
by either of them. -/
theorem trans (first : Reordered before middle) (second : Reordered middle after) :
    Reordered before after where
  groupCount := second.groupCount.trans first.groupCount
  location group := (second.location group).trans (first.location group)
  members group := (second.members group).trans (first.members group)
  enumGroups := second.enumGroups.trans first.enumGroups
  files file isFile := by
    rcases second.files file isFile with ⟨between, isBetween, fromBetween⟩
    rcases first.files between isBetween with ⟨old, isOld, fromOld⟩
    refine ⟨old, isOld, ?_⟩
    constructor
    · exact fromBetween.source.trans fromOld.source
    · exact fun listing => (fromBetween.lists listing).trans (fromOld.lists listing)
    · exact fromBetween.groups.trans fromOld.groups
    · rcases fromBetween.constants with kept | anew
      · rw [kept]
        exact fromOld.constants
      · exact .inr (anew.trans (perm_constantsOf first.members fromOld.groups))
  lists listing := (second.lists listing).trans (first.lists listing)
  fileGroups := second.fileGroups.trans first.fileGroups

theorem foldl {Item : Type} {step : Graph → Item → Graph}
    (each : ∀ graph item, Reordered graph (step graph item)) (graph : Graph)
    (items : List Item) : Reordered graph (items.foldl step graph) := by
  induction items generalizing graph with
  | nil => exact refl graph
  | cons item items ih => exact (each graph item).trans (ih (step graph item))

theorem of_sameLists (same : SameLists before after) : Reordered before after := by
  rcases same with ⟨decls, _, rfl⟩
  have before := refl before
  exact ⟨rfl, before.location, before.members, .refl _, before.files, fun _ => .refl _, .refl _⟩

theorem sortCollections (graph : Graph) : Reordered graph graph.sortCollections where
  groupCount := rfl
  location _ := rfl
  members _ := .refl _
  enumGroups := .refl _
  files file isFile := ⟨file, (List.mergeSort_perm ..).mem_iff.mp isFile, .refl graph file⟩
  lists _ := (List.mergeSort_perm ..).flatMap fun _ _ => .refl _
  fileGroups := (List.mergeSort_perm ..).flatMap fun _ _ => .refl _

/-- The members of a group are put in order, and every other group keeps its members as they are. -/
theorem sortGroup (graph : Graph) (group : GroupId) : Reordered graph (graph.sortGroup group) where
  groupCount := by simp [Graph.sortGroup]
  location other := by
    rw [group_sortGroup]
    split <;> rfl
  members other := by
    rw [group_sortGroup]
    split
    · exact graph.perm_sorted _
    · exact .refl _
  enumGroups := .refl _
  files file isFile := ⟨file, isFile, .refl graph file⟩
  lists _ := .refl _
  fileGroups := .refl _

/-- A change of the record of one file that only changes its order. -/
theorem modifyFile {change : FileRecord → FileRecord}
    (same : ∀ file, graph.SameHoldings file (change file)) (index : Nat) :
    Reordered graph (graph.modifyFile index change) where
  groupCount := rfl
  location _ := rfl
  members _ := .refl _
  enumGroups := .refl _
  files file isFile := by
    rcases mem_files_modifyFile isFile with isOld | ⟨old, isOld, rfl⟩
    · exact ⟨file, isOld, .refl graph file⟩
    · exact ⟨old, isOld, same old⟩
  lists listing := perm_flatMap_modify_of_perm (fun file => (same file).lists listing) _ index
  fileGroups := perm_flatMap_modify_of_perm (fun file => (same file).groups) _ index

/-- Putting the record of one file in order loses nothing of it, though its constants are listed
anew from its groups. -/
theorem finishFile (graph : Graph) (index : Nat) : Reordered graph (graph.finishFile index) := by
  have grouped := foldl sortGroup graph (graph.file index).enumGroups
  apply grouped.trans
  apply modifyFile
  intro file
  constructor
  · rfl
  · intro listing
    cases listing <;> exact perm_sorted _ _
  · exact List.mergeSort_perm ..
  · exact .inr (perm_sorted _ _)

theorem finishEnums (graph : Graph) : Reordered graph graph.finishEnums :=
  ⟨rfl, (refl graph).location, (refl graph).members, List.mergeSort_perm .., (refl graph).files,
    fun _ => .refl _, .refl _⟩

/-- Linking puts the lists of files in order before it marks what is overridden, and marking touches
no list. -/
theorem finished (graph : Graph) : Reordered graph graph.finished.markOverrides := by
  apply (sortCollections graph).trans
  apply (of_sameLists (sameLists_mergeModifications _)).trans
  apply (of_sameLists (sameLists_linkAllBases _)).trans
  apply (of_sameLists (sameLists_gatherProductions _)).trans
  apply (of_sameLists (sameLists_sortHolders _)).trans
  apply (foldl finishFile _ _).trans
  exact of_sameLists (sameLists_markOverrides _)

/-- Nothing that a graph lists is lost by linking, since every step of it only changes the order of
what is listed. -/
theorem link (graph : Graph) : Reordered graph graph.link := by
  rw [link_eq_finishEnums]
  exact (finished graph).trans (finishEnums _)

end Reordered

/-! ### Listing constants -/

/-- A file lists the constants of its groups. -/
def ListsConstants (graph : Graph) (file : FileRecord) : Prop :=
  file.enums.Perm (graph.constantsOf file.enumGroups)

/-- The record of a file that has been put in order lists the constants of its groups and nothing
else. -/
theorem listsConstants_finishedRecord (graph : Graph) (file : FileRecord) :
    graph.ListsConstants (graph.finishedRecord file) := by
  apply (graph.perm_sorted _).trans
  apply perm_constantsOf (fun group => .refl _)
  exact (List.mergeSort_perm ..).symm

/-! ### Linking -/

/-- A file whose lists have been put in another order still lists what is declared in it. Constants
that are listed anew come from its groups, and the groups know the file. -/
theorem SameHoldings.located (same : before.SameHoldings old file) (located : before.Located old)
    (grouped : before.Grouped) : before.Located file where
  decls listing id isListed := by
    rw [same.source]
    exact located.decls listing id ((same.lists listing).mem_iff.mp isListed)
  groups group isListed := by
    rw [same.source]
    exact located.groups group (same.groups.mem_iff.mp isListed)
  constants id isListed := by
    rw [same.source]
    rcases same.constants with kept | anew
    · rw [kept] at isListed
      exact located.constants id isListed
    · rcases List.mem_flatMap.mp (anew.mem_iff.mp isListed) with ⟨group, isGroup, member⟩
      rw [grouped.located group id member, ← Decl.isSome_enumGroup?,
        (grouped.members group id).mp member]
      exact ⟨rfl, (located.groups group isGroup).2⟩

/-- Groups stay groups of declared constants, since linking changes the order of their members at
most. -/
theorem Grouped.link (grouped : graph.Grouped) : graph.link.Grouped := by
  have reordered := Reordered.link graph
  have skeleton := keeps_skeleton_link graph
  constructor
  · rw [reordered.groupCount]
    exact reordered.enumGroups.trans grouped.groups
  · intro group id
    rw [(reordered.members group).mem_iff, grouped.members,
      Decl.enumGroup?_eq_of_skeleton_eq (skeleton id)]
  · exact fun group => (reordered.members group).nodup_iff.mpr (grouped.nodup group)
  · intro group id member
    rw [(keeps_head_link graph).location, reordered.location]
    exact grouped.located group id ((reordered.members group).mem_iff.mp member)

/-- What a file lists after linking is declared in that file, as it was before. -/
theorem Located.link (located : graph.Located file) : graph.link.Located file := by
  have head := keeps_head_link graph
  have reordered := Reordered.link graph
  constructor
  · intro listing id isListed
    rw [size_link, head.kindLabel, head.location]
    exact located.decls listing id isListed
  · intro group isListed
    rw [reordered.groupCount, reordered.location]
    exact located.groups group isListed
  · intro id isListed
    rw [head.kindLabel, head.location]
    exact located.constants id isListed

theorem AllLocated.link (located : graph.AllLocated) (grouped : graph.Grouped) :
    graph.link.AllLocated := by
  intro file isFile
  rcases (Reordered.link graph).files file isFile with ⟨old, isOld, same⟩
  exact (same.located (located old isOld) grouped).link

theorem Filed.link (filed : graph.Filed) : graph.link.Filed where
  listed listing := by
    rw [(keeps_head_link graph).labelled (size_link graph)]
    exact ((Reordered.link graph).lists listing).trans (filed.listed listing)
  groups := by
    rw [(Reordered.link graph).groupCount]
    exact (Reordered.link graph).fileGroups.trans filed.groups

/-- After linking every file lists the constants of its groups, even if some have been added to a
group since the file was last put in order. -/
theorem listsConstants_link (isFile : file ∈ graph.link.files) :
    graph.link.ListsConstants file := by
  rw [files_link] at isFile
  rcases List.mem_map.mp isFile with ⟨old, _, rfl⟩
  exact listsConstants_finishedRecord graph.link old

/-- The list of constants is put together from the groups, so it has the constants of all groups
that the graph lists. -/
theorem perm_enums_finishEnums (graph : Graph) :
    graph.finishEnums.enums.Perm (graph.finishEnums.constantsOf graph.finishEnums.enumGroups) := by
  have anew : graph.finishEnums.enums.Perm (graph.constantsOf graph.enumGroups) :=
    perm_sorted graph _
  have reordered := Reordered.finishEnums graph
  exact anew.trans (perm_constantsOf reordered.members reordered.enumGroups).symm

theorem perm_enums_link (graph : Graph) :
    graph.link.enums.Perm (graph.link.constantsOf graph.link.enumGroups) := by
  rw [link_eq_finishEnums]
  exact perm_enums_finishEnums _

/-! ### Sessions -/

/-- What is declared is listed where it belongs. -/
structure Catalogued (graph : Graph) : Prop where
  /-- The graph's list of each kind holds the declarations of that kind, each once. -/
  complete : graph.Complete
  /-- What the graph lists of a kind is what its files list of it. -/
  filed : ∀ listing : FileListing,
    (graph.listed listing.listing).Perm (graph.files.flatMap (·.list listing))
  /-- What a file lists stands in that file. -/
  located : graph.AllLocated
  /-- The groups are listed once by the graph, and once by its files. -/
  groups : graph.enumGroups.Perm (List.range graph.groups.size)
  groupsFiled : (graph.files.flatMap (·.enumGroups)).Perm (List.range graph.groups.size)
  /-- The members of a group are the constants that name it, each once. -/
  members : ∀ group id, id ∈ (graph.group group).members ↔
    (graph.decl id).enumGroup? = some group
  nodup : ∀ group, (graph.group group).members.Nodup
  /-- Every constant names a group. -/
  named : ∀ id, (graph.decl id).kindLabel = "enum" →
    ∃ group < graph.groups.size, (graph.decl id).enumGroup? = some group

/-- The graph lists every enumeration constant once, and so do its files. -/
structure ConstantsListed (graph : Graph) : Prop where
  complete : graph.enums.Perm (graph.labelled "enum")
  filed : graph.enums.Perm (graph.files.flatMap (·.enums))

/-- All groups together have the enumeration constants as members, each once. A constant names one
group, so no two groups have one in common. -/
theorem Grouped.perm_constantsOf_range (grouped : graph.Grouped) :
    (graph.constantsOf (List.range graph.groups.size)).Perm (graph.labelled "enum") := by
  have increasing : (graph.labelled "enum").Pairwise (· < ·) := pairwise_lt_idsWhere graph _
  have nodup : (graph.constantsOf (List.range graph.groups.size)).Nodup := by
    apply List.nodup_flatMap.mpr
    refine ⟨fun group _ => grouped.nodup group, List.nodup_range.imp ?_⟩
    intro left right other id isLeft isRight
    rw [grouped.members] at isLeft isRight
    exact other (Option.some.inj (isLeft.symm.trans isRight))
  rw [List.perm_ext_iff_of_nodup nodup (increasing.imp fun lt => Nat.ne_of_lt lt)]
  intro id
  simp only [constantsOf, List.mem_flatMap, List.mem_range, grouped.members, labelled,
    mem_idsWhere, beq_iff_eq, ← Decl.isSome_enumGroup?, Option.isSome_iff_exists]
  constructor
  · rintro ⟨group, _, named⟩
    exact ⟨lt_size_of_enumGroup? named, group, named⟩
  · rintro ⟨_, group, named⟩
    exact ⟨group, grouped.lt_size named, named⟩

/-- After linking the graph lists the constants of its groups. The files list the constants of their
own groups, and those of all files are all groups there are. -/
theorem constantsListed_link (grouped : graph.Grouped) (filed : graph.Filed) :
    graph.link.ConstantsListed := by
  have listed : graph.link.enums.Perm
      (graph.link.constantsOf (List.range graph.link.groups.size)) :=
    (perm_enums_link graph).trans (perm_constantsOf (fun _ => .refl _) grouped.link.groups)
  constructor
  · exact listed.trans grouped.link.perm_constantsOf_range
  · have groups : (graph.link.constantsOf (graph.link.files.flatMap (·.enumGroups))).Perm
        (graph.link.constantsOf (List.range graph.link.groups.size)) :=
      perm_constantsOf (fun _ => .refl _) filed.link.groups
    have files := (List.Perm.refl graph.link.files).flatMap fun file isFile =>
      listsConstants_link isFile
    simp only [constantsOf, List.flatMap_assoc] at groups files listed
    exact listed.trans (groups.symm.trans files.symm)

theorem grouped_ofFiles (files : List SourceFile) : (ofFiles files).Grouped where
  groups := .refl _
  members group id := by
    rw [group_of_size_le (Nat.zero_le _), decl_of_size_le (Nat.zero_le _)]
    exact iff_of_false List.not_mem_nil (by rintro ⟨⟩)
  nodup group := by
    rw [group_of_size_le (Nat.zero_le _)]
    exact .nil
  located group id member := by
    rw [group_of_size_le (Nat.zero_le _)] at member
    exact absurd member List.not_mem_nil

theorem allLocated_ofFiles (files : List SourceFile) : (ofFiles files).AllLocated := by
  intro file isFile
  rcases List.mem_map.mp isFile with ⟨source, _, rfl⟩
  constructor
  · intro listing id isListed
    cases listing <;> exact absurd isListed List.not_mem_nil
  · exact fun _ isListed => absurd isListed List.not_mem_nil
  · exact fun _ isListed => absurd isListed List.not_mem_nil

theorem filed_ofFiles (files : List SourceFile) : (ofFiles files).Filed where
  listed listing := by
    have none : (ofFiles files).files.flatMap (·.list listing) = [] := by
      simp only [ofFiles, List.flatMap_map, List.flatMap_eq_nil_iff]
      cases listing <;> simp [FileRecord.list]
    rw [none]
    exact .refl _
  groups := by simp [ofFiles, List.flatMap_map]

/-- What is kept from step to step in a session, whatever files are read. -/
structure Holdings (graph : Graph) : Prop where
  complete : graph.Complete
  grouped : graph.Grouped
  located : graph.AllLocated
  constants : ∀ id ∈ graph.enums, (graph.decl id).kindLabel = "enum"

namespace Holdings

theorem of_ofFiles (files : List SourceFile) : (ofFiles files).Holdings where
  complete := complete_ofFiles files
  grouped := grouped_ofFiles files
  located := allLocated_ofFiles files
  constants _ isListed := absurd isListed List.not_mem_nil

/-- Reading a file keeps what is kept in a session, since it adds what it declares to the lists of
that file and of the graph. -/
theorem read (holdings : graph.Holdings) (reading : FileReading) :
    (graph.read reading).Holdings := by
  have steps := filing_read holdings.complete reading
  have grows := GrowsAt.of_steps steps
  refine ⟨holdings.complete.read reading, holdings.grouped.of_steps steps,
    holdings.located.of_steps steps, ?_⟩
  intro id isListed
  rw [grows.enums] at isListed
  have isEnum := holdings.constants id isListed
  have head := Decl.head_eq_of_skeleton_eq (grows.skeleton id (inside_of_isEnum isEnum))
  exact (congrArg (·.2.2.2) head).trans isEnum

theorem link (holdings : graph.Holdings) : graph.link.Holdings where
  complete := holdings.complete.link
  grouped := holdings.grouped.link
  located := holdings.located.link holdings.grouped
  constants id isListed := by
    rcases List.mem_flatMap.mp ((perm_enums_link graph).mem_iff.mp isListed) with ⟨group, _, member⟩
    rw [← Decl.isSome_enumGroup?, (holdings.grouped.link.members group id).mp member]
    rfl

theorem perform (holdings : graph.Holdings) (step : SessionStep) :
    (graph.perform step).Holdings := by
  cases step with
  | read reading => exact holdings.read reading
  | link => exact holdings.link

end Holdings

theorem holdings_run (files : List SourceFile) (steps : List SessionStep) :
    ((ofFiles files).run steps).Holdings := by
  apply List.foldlRecOn (motive := Holdings) steps perform (.of_ofFiles files)
  exact fun graph holdings step _ => holdings.perform step

/-- What is declared is listed by its file after a whole session. Each reading needs a file to list
it, which is why the readings have to be of files that exist. -/
theorem filed_run {files : List SourceFile} {steps : List SessionStep}
    (inside : ∀ reading, .read reading ∈ steps → reading.index < files.length) :
    ((ofFiles files).run steps).Filed := by
  have start : (ofFiles files).Holdings ∧ (ofFiles files).Filed ∧
      (ofFiles files).files.length = files.length :=
    ⟨.of_ofFiles files, filed_ofFiles files, by simp [ofFiles]⟩
  refine (List.foldlRecOn (motive := fun graph : Graph => graph.Holdings ∧ graph.Filed ∧
    graph.files.length = files.length) steps perform start ?_).2.1
  rintro graph ⟨holdings, filed, length⟩ step isStep
  refine ⟨holdings.perform step, ?_⟩
  cases step with
  | read reading =>
      have steps := filing_read holdings.complete reading
      have count := congrArg List.length (GrowsAt.of_steps steps).sources
      rw [List.length_map, List.length_map] at count
      have isFile := inside reading isStep
      rw [← length] at isFile
      exact ⟨filed.of_steps isFile steps, count.trans length⟩
  | link =>
      have count := (Rearranged.link graph).sources.length_eq
      rw [List.length_map, List.length_map] at count
      exact ⟨filed.link, count.trans length⟩

/-- What is kept in a session is enough to say where each declaration is listed. -/
theorem catalogued_of_holdings (holdings : graph.Holdings) (filed : graph.Filed) :
    graph.Catalogued where
  complete := holdings.complete
  filed listing := (holdings.complete listing.listing).trans (filed.listed listing).symm
  located := holdings.located
  groups := holdings.grouped.groups
  groupsFiled := filed.groups
  members := holdings.grouped.members
  nodup := holdings.grouped.nodup
  named id isEnum := by
    rw [← Decl.isSome_enumGroup?, Option.isSome_iff_exists] at isEnum
    rcases isEnum with ⟨group, named⟩
    exact ⟨group, holdings.grouped.lt_size named, named⟩

/-- Whatever is read and linked, in whatever order, the graph and its files list what is declared,
each declaration once; and directly after linking they also list the enumeration constants. Reading
keeps the lists complete by adding to them, and linking by doing no more than putting them in order,
so both can follow each other as they like. -/
theorem catalogued_of_session (files : List SourceFile) (steps : List SessionStep)
    (inside : ∀ reading, .read reading ∈ steps → reading.index < files.length) :
    ((ofFiles files).run steps).Catalogued ∧
      ((ofFiles files).run steps).link.ConstantsListed := by
  have holdings := holdings_run files steps
  have filed := filed_run inside
  exact ⟨catalogued_of_holdings holdings filed, constantsListed_link holdings.grouped filed⟩

/-- The files of the session. -/
def paletteFiles : List SourceFile :=
  [.ofPath "palette.t", .ofPath "canvas.t"]

/-- A session that links between its two readings. -/
def paletteSession : List SessionStep :=
  [.read ⟨0, false, "palette.t", "enum red, green;\n".toUTF8.toList, none, none⟩, .link,
    .read ⟨1, false, "canvas.t", "enum oil;\nclass Canvas: object\n;\n".toUTF8.toList, none, none⟩]

/-- The second file declares members of a group of its own after the first has been linked. -/
theorem catalogued_paletteSession :
    (∀ reading, .read reading ∈ paletteSession → reading.index < paletteFiles.length) ∧
      ((ofFiles paletteFiles).run paletteSession).Catalogued ∧
        ((ofFiles paletteFiles).run paletteSession).link.ConstantsListed := by
  have inside : ∀ reading, .read reading ∈ paletteSession →
      reading.index < paletteFiles.length := by
    simp [paletteSession, paletteFiles]
  exact ⟨inside, catalogued_of_session paletteFiles paletteSession inside⟩

end TadsReference.Graph
