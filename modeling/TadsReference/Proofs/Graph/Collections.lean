import TadsReference.Proofs.Graph.Overrides
import TadsReference.Proofs.Graph.Skeletons

/-!
# Files and groups while linking

Linking sorts the files, their lists and the enumeration groups. It adds no citation, and what a
graph is anchored in stays in place: `Anchored.link`.
-/

namespace TadsReference.Graph

variable {graph before middle after : Graph} {id : DeclId}

/-- The files of a graph, their lists and the groups have been put in another order. -/
structure Rearranged (before after : Graph) : Prop where
  sources : (after.files.map (·.source)).Perm (before.files.map (·.source))
  files : ∀ file ∈ after.files, ∃ old ∈ before.files, ∀ id ∈ file.listed, id ∈ old.listed
  groups : ∀ group, ∀ id ∈ (after.group group).members, id ∈ (before.group group).members

namespace Rearranged

theorem refl (graph : Graph) : Rearranged graph graph where
  sources := .refl _
  files file isFile := ⟨file, isFile, fun _ listed => listed⟩
  groups _ _ member := member

/-- Two orders one after the other are one order, in which nothing is cited that was not cited at
the start. -/
theorem trans (first : Rearranged before middle) (second : Rearranged middle after) :
    Rearranged before after where
  sources := second.sources.trans first.sources
  files file isFile := by
    rcases second.files file isFile with ⟨between, isBetween, fromBetween⟩
    rcases first.files between isBetween with ⟨old, isOld, fromOld⟩
    exact ⟨old, isOld, fun id listed => fromOld id (fromBetween id listed)⟩
  groups group id member := first.groups group id (second.groups group id member)

theorem foldl {Item : Type} {step : Graph → Item → Graph}
    (each : ∀ graph item, Rearranged graph (step graph item)) (graph : Graph)
    (items : List Item) : Rearranged graph (items.foldl step graph) := by
  induction items generalizing graph with
  | nil => exact refl graph
  | cons item items ih => exact (each graph item).trans (ih (step graph item))

theorem of_sameLists (same : SameLists before after) : Rearranged before after := by
  rcases same with ⟨decls, _, rfl⟩
  exact ⟨.refl _, (refl before).files, (refl before).groups⟩

theorem sortCollections (graph : Graph) : Rearranged graph graph.sortCollections where
  sources := (List.mergeSort_perm ..).map _
  files file isFile := ⟨file, (List.mergeSort_perm ..).mem_iff.mp isFile, fun _ listed => listed⟩
  groups _ _ member := member

/-- The members of a group are put in order. They are the same, so the group cites what it did. -/
theorem sortGroup (graph : Graph) (group : GroupId) : Rearranged graph (graph.sortGroup group) where
  sources := .refl _
  files file isFile := ⟨file, isFile, fun _ listed => listed⟩
  groups other id member := by
    simp only [Graph.sortGroup, Graph.group, Array.getD_eq_getD_getElem?,
      Array.getElem?_modify] at member ⊢
    cases found : graph.groups[other]? with
    | none => simpa [found] using member
    | some old =>
        by_cases here : group = other
        · simpa [found, here, mem_sorted] using member
        · simpa [found, here] using member

/-- A file lists nothing new but constants, and those are cited by its groups already. -/
theorem finishFile (graph : Graph) (index : Nat) : Rearranged graph (graph.finishFile index) := by
  have grouped := foldl sortGroup graph (graph.file index).enumGroups
  apply grouped.trans
  constructor
  · apply List.Perm.of_eq
    apply sources_modifyFile
    exact fun _ => rfl
  · intro file isFile
    rcases mem_files_modifyFile isFile with isOld | ⟨old, isOld, rfl⟩
    · exact ⟨file, isOld, fun _ listed => listed⟩
    · refine ⟨old, isOld, ?_⟩
      simp [FileRecord.listed, mem_sorted]
  · exact fun _ _ member => member

theorem finishEnums (graph : Graph) : Rearranged graph graph.finishEnums :=
  ⟨.refl _, (refl graph).files, (refl graph).groups⟩

/-- Only the steps for collections move anything that cites. The others leave the lists, the files
and the groups alone. -/
theorem link (graph : Graph) : Rearranged graph graph.link := by
  rw [Graph.link]
  apply (sortCollections graph).trans
  apply (of_sameLists (sameLists_mergeModifications _)).trans
  apply (of_sameLists (sameLists_linkAllBases _)).trans
  apply (of_sameLists (sameLists_gatherProductions _)).trans
  apply (of_sameLists (sameLists_sortHolders _)).trans
  apply (foldl finishFile _ _).trans
  apply (of_sameLists (sameLists_markOverrides _)).trans
  exact finishEnums _

end Rearranged

/-! ### Linking -/

theorem keeps_production?_link (graph : Graph) : Keeps Decl.production? graph graph.link :=
  fun id => Decl.production?_eq_of_skeleton_eq (keeps_skeleton_link graph id)

/-- Whatever is cited after linking was cited before, in whichever of the ways. -/
theorem cites_of_cites_link (cited : graph.link.Cites id) : graph.Cites id := by
  have rearranged := Rearranged.link graph
  cases cited with
  | rule rule isProduction =>
      rw [keeps_production?_link] at isProduction
      exact .rule rule isProduction
  | file file isFile isListed =>
      rcases rearranged.files file isFile with ⟨old, isOld, lists⟩
      exact .file old isOld (lists id isListed)
  | group group member => exact .group group (rearranged.groups group id member)
  | production isListed =>
      rw [productions_link, mem_sorted] at isListed
      exact .production isListed

/-- The list of constants is put together from the groups that the graph lists, so each of its
constants is cited by one of them. -/
theorem cites_of_mem_enums (isEnum : id ∈ graph.finishEnums.enums) :
    graph.finishEnums.Cites id := by
  simp only [finishEnums, constants, mem_sorted, List.mem_flatMap] at isEnum
  rcases isEnum with ⟨group, _, member⟩
  exact .group group member

/-- The constants that linking lists belong to groups. -/
theorem cites_of_mem_enums_link (isEnum : id ∈ graph.link.enums) : graph.link.Cites id := by
  rw [link_eq_finishEnums] at isEnum ⊢
  exact cites_of_mem_enums isEnum

theorem mem_shortNames_link {name : String} :
    name ∈ graph.link.shortNames ↔ name ∈ graph.shortNames := by
  simp only [shortNames_eq_map_sources]
  exact ((Rearranged.link graph).sources.map _).mem_iff

/-- Linking neither adds a declaration nor changes what kind one is of, so what stands alone does so
afterwards. -/
theorem standsAlone_link (alone : graph.StandsAlone id) : graph.link.StandsAlone id where
  inside := by
    rw [size_link]
    exact alone.inside
  alone := by
    have label := (keeps_head_link graph).kindLabel id
    simpa only [Decl.standsAlone, label] using alone.alone

/-- Linking leaves every declaration in its place, and nothing is cited afterwards that was not
cited before. -/
theorem Anchored.link (anchored : graph.Anchored) : graph.link.Anchored where
  placed id inside := by
    rw [size_link] at inside
    have placed := anchored.placed id inside
    constructor
    · rw [(keeps_head_link graph).location, mem_shortNames_link]
      exact placed.file
    · rw [keeps_pageName?_link]
      exact placed.pageName
  cites id cited := standsAlone_link (anchored.cites id (cites_of_cites_link cited))

end TadsReference.Graph
