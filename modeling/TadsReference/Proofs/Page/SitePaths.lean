import TadsReference.Page.Site
import TadsReference.Proofs.Page.Sites
import TadsReference.Proofs.Storage.Below

/-!
# The paths of a site

The path of a page is put together from the directory of the site, the stem of the page and the
extension of the format. Its stem tells the pages of declarations, those of files and the index
apart. So two pages share a path only if two files share a short name, and two paths have the same
steps only if so or if two names of pages of declarations differ in repeated slashes:
`nodup_paths_iff`, `nodup_components_iff`.
-/

namespace TadsReference

/-- Two ways to look at items that tell the same of them apart agree on whether they find
repetitions. -/
theorem nodup_map_iff {Item First Second : Type} {first : Item → First} {second : Item → Second}
    {items : List Item} (same : ∀ left ∈ items, ∀ right ∈ items,
      first left = first right ↔ second left = second right) :
    (items.map first).Nodup ↔ (items.map second).Nodup := by
  simp only [List.Nodup, List.pairwise_map]
  apply List.Pairwise.iff_of_mem
  intro left right isLeft isRight
  exact not_congr (same left isLeft right isRight)

/-! ### Stems -/

namespace Graph

variable {graph : Graph} {stem : String}

/-- The names of the pages of declarations. -/
def pageNames (graph : Graph) : List String :=
  graph.paged.filterMap fun id => (graph.decl id).pageName?

/-- The stem of the page of a declaration. -/
def declarationStem (name : String) : String :=
  Page.objectDirectory ++ "/" ++ name

theorem Complete.filterMap_page? (complete : graph.Complete) :
    graph.paged.filterMap graph.page? = graph.pageNames.map declarationStem := by
  rw [pageNames, List.map_filterMap]
  apply List.filterMap_congr
  intro id isPaged
  rcases complete.mem_paged.mp isPaged with ⟨name, named⟩
  rw [page?_of_pageName? named, named]
  rfl

theorem Complete.stems_eq (complete : graph.Complete) : graph.stems =
    graph.pageNames.map declarationStem ++ graph.shortNames.map Page.ofFile ++ [Page.index] := by
  rw [stems, complete.filterMap_page?, shortNames, List.map_map]
  rfl

theorem NamesApart.nodup_pageNames (names : graph.NamesApart) (complete : graph.Complete) :
    graph.pageNames.Nodup := by
  apply complete.nodup_paged.filterMap
  intro left right name isLeft isRight
  by_contra other
  exact names.apart left right name name other isLeft isRight rfl

/-- Something that tells the three sorts of pages apart differs for all pages just when it differs
for all pages of declarations and for all pages of files. -/
theorem Complete.nodup_map_stems_iff (complete : graph.Complete) {Key : Type} (key : String → Key)
    (apart : ∀ name shortName, key (declarationStem name) ≠ key (Page.ofFile shortName) ∧
      key (declarationStem name) ≠ key Page.index ∧ key (Page.ofFile shortName) ≠ key Page.index) :
    (graph.stems.map key).Nodup ↔
      (graph.shortNames.map fun shortName => key (Page.ofFile shortName)).Nodup ∧
        (graph.pageNames.map fun name => key (declarationStem name)).Nodup := by
  have declared : ∀ first ∈ graph.pageNames.map fun name => key (declarationStem name),
      ∀ second ∈ (graph.shortNames.map fun shortName => key (Page.ofFile shortName)) ++
        [key Page.index], first ≠ second := by
    rintro _ isFirst second isSecond rfl
    rcases List.mem_map.mp isFirst with ⟨name, _, rfl⟩
    rcases List.mem_append.mp isSecond with isFile | isIndex
    · rcases List.mem_map.mp isFile with ⟨shortName, _, same⟩
      exact (apart name shortName).1 same.symm
    · exact (apart name "").2.1 (List.mem_singleton.mp isIndex)
  have filed : key Page.index ∉
      graph.shortNames.map fun shortName => key (Page.ofFile shortName) := by
    intro isFile
    rcases List.mem_map.mp isFile with ⟨shortName, _, same⟩
    exact (apart "" shortName).2.2 same
  have shape : graph.stems.map key = (graph.pageNames.map fun name => key (declarationStem name)) ++
      ((graph.shortNames.map fun shortName => key (Page.ofFile shortName)) ++
        [key Page.index]) := by
    rw [complete.stems_eq, List.append_assoc, List.map_append, List.map_append, List.map_map,
      List.map_map]
    rfl
  rw [shape, List.nodup_append, List.nodup_append_comm, List.singleton_append, List.nodup_cons]
  constructor
  · rintro ⟨names, ⟨_, files⟩, _⟩
    exact ⟨files, names⟩
  · rintro ⟨files, names⟩
    exact ⟨names, ⟨filed, files⟩, declared⟩

theorem declarationStem_inj {first second : String} :
    declarationStem first = declarationStem second ↔ first = second :=
  String.append_right_inj _

theorem ofFile_inj {first second : String} :
    Page.ofFile first = Page.ofFile second ↔ first = second :=
  String.append_right_inj _

/-- Two stems are the same only if the short names of two files are. -/
theorem nodup_stems_iff (complete : graph.Complete) (names : graph.NamesApart) :
    graph.stems.Nodup ↔ graph.shortNames.Nodup := by
  have split := complete.nodup_map_stems_iff id fun name shortName => by
    simp [declarationStem, Page.ofFile, Page.index, Page.objectDirectory, Page.fileDirectory,
      ← String.toList_inj]
  have files : (graph.shortNames.map Page.ofFile).Nodup ↔ (graph.shortNames.map id).Nodup :=
    nodup_map_iff fun _ _ _ _ => ofFile_inj
  have declared : (graph.pageNames.map declarationStem).Nodup ↔ (graph.pageNames.map id).Nodup :=
    nodup_map_iff fun _ _ _ _ => declarationStem_inj
  rw [List.map_id] at split files declared
  rw [split]
  exact (and_iff_left (declared.mpr (names.nodup_pageNames complete))).trans files

theorem trail_declarationStem (name : String) : Path.trail (declarationStem name) =
    (Page.objectDirectory :: (Path.trail name).1, (Path.trail name).2) :=
  Path.trail_below Page.objectDirectory name

theorem trail_ofFile (shortName : String) : Path.trail (Page.ofFile shortName) =
    (Page.fileDirectory :: (Path.trail shortName).1, (Path.trail shortName).2) :=
  Path.trail_below Page.fileDirectory shortName

/-- The steps of stems differ just when the names of files do and the steps of page names do, since
the first step tells the two sorts apart. -/
theorem nodup_trails_iff (complete : graph.Complete)
    (bare : ∀ shortName ∈ graph.shortNames, '/' ∉ shortName.toList) :
    (graph.stems.map Path.trail).Nodup ↔
      graph.shortNames.Nodup ∧ (graph.pageNames.map Path.trail).Nodup := by
  have index : Path.trail Page.index = ([], Page.index) := Path.trail_eq_of_bare (by decide)
  have files : (graph.shortNames.map fun shortName => Path.trail (Page.ofFile shortName)).Nodup ↔
      (graph.shortNames.map id).Nodup := by
    apply nodup_map_iff
    intro left isLeft right isRight
    simp [trail_ofFile, Path.trail_eq_of_bare (bare left isLeft),
      Path.trail_eq_of_bare (bare right isRight)]
  have declared : (graph.pageNames.map fun name => Path.trail (declarationStem name)).Nodup ↔
      (graph.pageNames.map Path.trail).Nodup := by
    apply nodup_map_iff
    intro left _ right _
    simp [trail_declarationStem, Prod.ext_iff]
  rw [complete.nodup_map_stems_iff Path.trail fun name shortName => by
    simp [trail_declarationStem, trail_ofFile, index, Page.objectDirectory, Page.fileDirectory],
    files, declared, List.map_id]

/-! ### Paths -/

theorem relative_of_mem_stems (complete : graph.Complete) (isStem : stem ∈ graph.stems)
    (ending : String) : Path.isAbsolute (stem ++ ending) = false := by
  simp only [complete.stems_eq, List.mem_append, List.mem_map, List.mem_singleton] at isStem
  rcases isStem with (⟨name, _, rfl⟩ | ⟨shortName, _, rfl⟩) | rfl
  · simp [Path.isAbsolute, declarationStem, Page.objectDirectory]
  · simp [Path.isAbsolute, Page.ofFile, Page.fileDirectory]
  · simp [Path.isAbsolute, Page.index]

/-- The path of a page has no step of dots alone, for no slash follows a dot in it. -/
theorem plain_of_mem_stems (coherent : graph.Coherent)
    (bare : ∀ shortName ∈ graph.shortNames, '/' ∉ shortName.toList) (format : PageFormat)
    (isStem : stem ∈ graph.stems) : Path.Plain (stem ++ ("." ++ format.extension)) := by
  refine ⟨relative_of_mem_stems coherent.complete isStem _, fun part isPart => ?_⟩
  have ending : Undotted ('.' :: (format.extension.toList ++ ['/'])) := by
    cases format <;> decide
  have undotted : Undotted ((stem ++ ("." ++ format.extension)).toList ++ ['/']) := by
    simpa using (undotted_of_mem_stems coherent bare isStem).append ending (by simp)
  rcases List.mem_map.mp isPart with ⟨segment, isSegment, rfl⟩
  rcases Page.plain_of_undotted undotted isSegment with ⟨notCurrent, notParent⟩
  simp [← String.toList_inj, notCurrent, notParent]

theorem namesApart_of_ofInputs {expandsMacros : Bool} {inputs : List InputFile}
    (built : ofInputs expandsMacros inputs = .ok graph) : graph.NamesApart := by
  rcases exists_readings_of_ofInputs built with ⟨files, readings, _, _, _, rfl⟩
  rw [← run_reads]
  exact (namesApart_run files _).link

end Graph

namespace Site

open FileTree

variable {directory : String} {format : PageFormat} {graph : Graph} {info : SiteInfo}

/-- The path of the page of a stem. -/
def pagePath (directory : String) (format : PageFormat) (stem : String) : String :=
  Path.join directory (stem ++ ("." ++ format.extension))

theorem map_fst_pages (directory : String) (format : PageFormat) (graph : Graph)
    (info : SiteInfo) :
    (pages directory format graph info).map (·.1) =
      graph.stems.map (pagePath directory format) := by
  have stems : (format.pages graph info).map (·.1) = graph.stems := by
    rw [PageFormat.pages_eq_map_drafts, List.map_map]
    exact PageFormat.map_stem_drafts
  rw [← stems, pages, List.map_map, List.map_map]
  simp [Function.comp_def, pagePath, String.append_assoc]

theorem exists_stem_of_mem_pages {page : String × String}
    (isPage : page ∈ pages directory format graph info) :
    ∃ stem ∈ graph.stems, page.1 = pagePath directory format stem := by
  have isPath := List.mem_map_of_mem (f := (·.1)) isPage
  rw [map_fst_pages] at isPath
  rcases List.mem_map.mp isPath with ⟨stem, isStem, path⟩
  exact ⟨stem, isStem, path.symm⟩

/-- No two pages of a site share a path unless two files share a short name. -/
theorem nodup_paths_iff (complete : graph.Complete) (names : graph.NamesApart) :
    ((pages directory format graph info).map (·.1)).Nodup ↔ graph.shortNames.Nodup := by
  have injective : (graph.stems.map (pagePath directory format)).Nodup ↔
      (graph.stems.map id).Nodup := by
    apply nodup_map_iff
    intro left isLeft right isRight
    rw [pagePath, pagePath, Path.join_eq_append (Graph.relative_of_mem_stems complete isLeft _),
      Path.join_eq_append (Graph.relative_of_mem_stems complete isRight _), String.append_right_inj,
      String.append_left_inj]
    rfl
  rw [map_fst_pages, injective, List.map_id, Graph.nodup_stems_iff complete names]

theorem extension_bare (format : PageFormat) :
    '/' ∉ ("." ++ format.extension).toList ∧ "." ++ format.extension ≠ "" := by
  cases format <;> decide

section Plain

variable (coherent : graph.Coherent) (bare : ∀ shortName ∈ graph.shortNames, '/' ∉ shortName.toList)

include coherent bare

/-- No two paths of a site have the same steps unless two files share a short name or two names of
pages differ in repeated slashes only. -/
theorem nodup_components_iff :
    ((pages directory format graph info).map fun page => Path.components page.1).Nodup ↔
      graph.shortNames.Nodup ∧ (graph.pageNames.map Path.trail).Nodup := by
  have steps :
      (graph.stems.map fun stem => Path.components (pagePath directory format stem)).Nodup ↔
        (graph.stems.map Path.trail).Nodup := by
    apply nodup_map_iff
    intro left isLeft right isRight
    rw [pagePath, pagePath,
      Path.components_join_eq_iff (Graph.plain_of_mem_stems coherent bare format isLeft)
        (Graph.plain_of_mem_stems coherent bare format isRight),
      Path.names_append_eq_iff (extension_bare format).1 (extension_bare format).2]
  have paths : ((pages directory format graph info).map fun page => Path.components page.1) =
      graph.stems.map fun stem => Path.components (pagePath directory format stem) := by
    have mapped := congrArg (List.map Path.components) (map_fst_pages directory format graph info)
    simpa [Function.comp_def] using mapped
  rw [paths, steps, Graph.nodup_trails_iff coherent.complete bare]

theorem goal_eq_iff (tree : FileTree) {left right : String × String}
    (isLeft : left ∈ pages directory format graph info)
    (isRight : right ∈ pages directory format graph info) :
    tree.goal left.1 = tree.goal right.1 ↔
      Path.components left.1 = Path.components right.1 := by
  rcases exists_stem_of_mem_pages isLeft with ⟨leftStem, isLeftStem, leftPath⟩
  rcases exists_stem_of_mem_pages isRight with ⟨rightStem, isRightStem, rightPath⟩
  have plain := Graph.plain_of_mem_stems coherent bare format isLeftStem
  have other := Graph.plain_of_mem_stems coherent bare format isRightStem
  rw [leftPath, rightPath, pagePath, pagePath, goal_join_eq_iff plain other,
    Path.components_join_eq_iff plain other]

/-- When a site has been written, the last of all pages whose paths have the same steps can be read
by each of these paths. Pages are written in turn, and a page that is written behind another one
does not touch it unless both lead to the same place. -/
theorem read_of_yields_write {tree later : FileTree}
    (wrote : Yields (write directory format graph info) tree later)
    {before after : List (String × String)} {last page : String × String}
    (split : pages directory format graph info = before ++ last :: after)
    (apart : ∀ other ∈ after, Path.components other.1 ≠ Path.components last.1)
    (isPage : page ∈ pages directory format graph info)
    (same : Path.components page.1 = Path.components last.1) :
    later.read page.1 = .ok last.2.toUTF8.toList := by
  rcases yields_bind_iff.mp wrote with ⟨middle, _, wrotePages⟩
  have wroteAll : Wrote (pages directory format graph info) middle later := wrotePages
  have isLast : last ∈ pages directory format graph info := by
    simp [split]
  have goals {other : String × String} (isOther : other ∈ pages directory format graph info) :=
    goal_eq_iff coherent bare middle isOther isLast
  have goal := (goals isPage).mpr same
  rw [split] at wroteAll isPage
  apply wroteAll.read _ isPage goal
  intro other isLater
  rw [Ne, goals (by simp [split, isLater])]
  exact apart other isLater

end Plain

end Site

end TadsReference
