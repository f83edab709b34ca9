import TadsReference.Proofs.Graph.LoneLines
import TadsReference.Proofs.Page.SitePaths

/-!
# Pages that share a path

Nothing keeps the short names of two files apart, and two files with one short name have one path
for their pages. Short names apart, only slashes that follow each other can make two paths of a site
lead to one place. The page that is written last remains there: `sharedPaths_of_ofInputs`.
-/

namespace TadsReference

/-! ### Writing a site -/

namespace Graph

variable {graph : Graph}

/-- The stems of all pages once a graph has been linked. -/
def stemsToBe (graph : Graph) : List String :=
  (graph.decls.toList.filterMap (·.pageName?)).map declarationStem ++
    graph.shortNames.map Page.ofFile ++ [Page.index]

/-- The stems of a linked graph can be told before linking, from the names of its pages and of its
files. -/
theorem mem_stemsToBe (complete : graph.link.Complete) {stem : String}
    (isStem : stem ∈ graph.link.stems) : stem ∈ graph.stemsToBe := by
  simp only [complete.stems_eq, stemsToBe, List.mem_append, List.mem_map] at isStem ⊢
  rcases isStem with (⟨name, isName, rfl⟩ | ⟨shortName, known, rfl⟩) | isIndex
  · refine .inl (.inl ⟨name, ?_, rfl⟩)
    rcases List.mem_filterMap.mp isName with ⟨id, _, named⟩
    rw [keeps_pageName?_link graph] at named
    rw [List.mem_filterMap]
    refine ⟨graph.decl id, ?_, named⟩
    have inside : id < graph.decls.size := by
      apply lt_size_of_decl_ne
      intro outside
      have unnamed : (default : Decl).pageName? = none := rfl
      rw [outside, unnamed] at named
      exact absurd named (by simp)
    simp [decl, inside]
  · refine .inl (.inr ⟨shortName, ?_, rfl⟩)
    have sources := (Rearranged.link graph).sources.map (·.shortName)
    rw [← shortNames_eq_map_sources, ← shortNames_eq_map_sources] at sources
    exact sources.mem_iff.mp known
  · exact .inr isIndex

end Graph

namespace Site

open FileTree

variable {directory : String} {format : PageFormat} {graph : Graph} {info : SiteInfo}
  {tree made : FileTree}

/-- A site can be written where its directories can be made and each of its pages written alone. -/
theorem exists_yields_write (complete : graph.link.Complete)
    (makes : Yields (makeDirectories directory) tree made)
    (writable : ∀ stem ∈ graph.stemsToBe, made.Writable (pagePath directory format stem)) :
    ∃ later, Yields (write directory format graph.link info) tree later := by
  have pagesWritable : ∀ page ∈ pages directory format graph.link info, made.Writable page.1 := by
    intro page isPage
    rcases exists_stem_of_mem_pages isPage with ⟨stem, isStem, path⟩
    rw [path]
    exact writable stem (Graph.mem_stemsToBe complete isStem)
  rcases exists_wrote pagesWritable with ⟨later, wrote⟩
  exact ⟨later, yields_bind_iff.mpr ⟨made, makes, wrote⟩⟩

end Site

/-! ### Two headers -/

/-- Two headers, each of which declares an enumerator. -/
def lights (first second : String) : List InputFile :=
  [.ofContent first "enum lit;\n".toUTF8.toList .absent,
    .ofContent second "enum unlit;\n".toUTF8.toList .absent]

namespace Graph

variable {graph : Graph} {input : InputFile} {languageSeen : Bool} {index : Nat}
  {first second : String}

/-- A header all of whose lines stand alone is read line by line before the other files. Without
macros no reading of it can fail, so the build goes on with the graph that its lines make. -/
theorem readFrom_of_loneLines (single : input.mirror = .absent)
    (isHeader : (graph.file index).source.isHeader = true)
    (lone : ∀ raw ∈ RawLine.ofContent input.content none, raw.Lone) (inputs : List InputFile) :
    ∃ seen, readFrom false graph languageSeen index (input :: inputs) =
      readFrom false (graph.record index (FileOutcome.entriesByLine languageSeen .start
        (RawLine.ofContent input.content none))) seen (index + 1) inputs := by
  let reader := Reader.ofContent input.source.shortName input.content none none
  have starts : input.reader none = .ok reader := by
    rw [reader_of_readable fun fault unreadable => by simp [single] at unreadable, single]
    rfl
  have unexpanded : reader.macros = none := rfl
  rcases FileOutcome.exists_ending_of_unexpanded (graph.file index).source.isHeader languageSeen
    unexpanded with ⟨number, ending⟩
  have ends : (graph.classifyFile languageSeen index reader).ending = .ok number := ending
  have read := read_of_loneLines graph
    ⟨index, languageSeen, input.source.shortName, input.content, none, none⟩ isHeader rfl lone
  refine ⟨(graph.classifyFile languageSeen index reader).languageSeen, ?_⟩
  simp only [readFrom, scopeFor, Bool.false_eq_true, if_false, starts, bind, Except.bind]
  rw [ends, ← read]
  rfl

/-- The graph of the two headers before it is linked. -/
def ofLights (first second : String) : Graph :=
  ((ofFiles ((lights first second).map (·.source))).record 0 [.enumGroup "" 1 ["lit"]]).record 1
    [.enumGroup "" 1 ["unlit"]]

/-- Both headers stand alone line by line, so their graph can be computed. -/
theorem ofInputs_lights
    (ordered : ReadingOrder.positions ((lights first second).map (·.source)) = .ok [0, 1])
    (firstIsHeader : (SourceFile.ofPath first).isHeader = true)
    (secondIsHeader : (SourceFile.ofPath second).isHeader = true) :
    ofInputs false (lights first second) = .ok (ofLights first second).link := by
  have entries (seen : Bool) :
      FileOutcome.entriesByLine seen .start
          (RawLine.ofContent "enum lit;\n".toUTF8.toList none) = [.enumGroup "" 1 ["lit"]] ∧
        FileOutcome.entriesByLine seen .start
          (RawLine.ofContent "enum unlit;\n".toUTF8.toList none) = [.enumGroup "" 1 ["unlit"]] := by
    cases seen <;> decide +kernel
  let unread := ofFiles ((lights first second).map (·.source))
  have firstFile : (unread.file 0).source.isHeader = true := firstIsHeader
  have secondFile : ((unread.record 0 [.enumGroup "" 1 ["lit"]]).file 1).source.isHeader = true :=
    secondIsHeader
  have lone : (∀ raw ∈ RawLine.ofContent "enum lit;\n".toUTF8.toList none, raw.Lone) ∧
      ∀ raw ∈ RawLine.ofContent "enum unlit;\n".toUTF8.toList none, raw.Lone := by
    decide +kernel
  obtain ⟨seen, firstRead⟩ : ∃ seen, readFrom false unread false 0 (lights first second) =
      readFrom false (unread.record 0 [.enumGroup "" 1 ["lit"]]) seen 1
        [.ofContent second "enum unlit;\n".toUTF8.toList .absent] := by
    rw [← (entries false).1]
    exact readFrom_of_loneLines rfl firstFile lone.1 _
  obtain ⟨_, secondRead⟩ : ∃ after,
      readFrom false (unread.record 0 [.enumGroup "" 1 ["lit"]]) seen 1
        [.ofContent second "enum unlit;\n".toUTF8.toList .absent] =
      readFrom false (ofLights first second) after 2 [] := by
    rw [ofLights, ← (entries seen).2]
    exact readFrom_of_loneLines rfl secondFile lone.2 _
  have read : ofOrdered false (lights first second) = .ok (ofLights first second) :=
    firstRead.trans secondRead
  have arranged : [0, 1].filterMap ((lights first second)[·]?) = lights first second := rfl
  simp only [ofInputs, ordered, bind, Except.bind, arranged, read]
  rfl

end Graph

namespace Site

open FileTree

variable {graph : Graph}

/-- The tree of a current directory that holds the directories of a site. -/
def madeForSite : FileTree :=
  ⟨[(["work"], .directory), (["work", "out"], .directory), (["work", "out", "objects"], .directory),
    (["work", "out", "files"], .directory)], ["work"]⟩

theorem yields_makeDirectories :
    Yields (makeDirectories "out") (.inDirectory "work") madeForSite := by
  unfold Yields
  decide +kernel

theorem exists_yields_write_lights {first second : String}
    (built : Graph.ofInputs false (lights first second) = .ok (Graph.ofLights first second).link)
    (writable : ∀ stem ∈ (Graph.ofLights first second).stemsToBe,
      madeForSite.Writable (pagePath "out" .markdown stem)) :
    ∃ later, Yields (write "out" .markdown (Graph.ofLights first second).link ⟨"", ""⟩)
      (.inDirectory "work") later :=
  exists_yields_write (Graph.coherent_of_ofInputs built).1.complete yields_makeDirectories writable

/-! ### Pages with one path -/

/-- The paths of a library's site differ just when the short names of its files do. They differ in
their steps just when besides the names of the pages of declarations differ in more than slashes.
Whenever the site is written, what can then be read by a path is the last page whose path has the
same steps. The names of files and of declarations are told apart by the directory in which their
pages are. -/
theorem sharedPaths_of_ofInputs {expandsMacros : Bool} {inputs : List InputFile}
    (built : Graph.ofInputs expandsMacros inputs = .ok graph)
    (bare : ∀ input ∈ inputs, '/' ∉ input.source.shortName.toList) (directory : String)
    (format : PageFormat) (info : SiteInfo) :
    let written := pages directory format graph info
    let shortNames := inputs.map (·.source.shortName)
    ((written.map (·.1)).Nodup ↔ shortNames.Nodup) ∧
      ((written.map fun page => Path.components page.1).Nodup ↔
        shortNames.Nodup ∧ (graph.pageNames.map Path.trail).Nodup) ∧
      ∀ tree later, Yields (write directory format graph info) tree later →
        ∀ before last after, written = before ++ last :: after →
          (∀ other ∈ after, Path.components other.1 ≠ Path.components last.1) →
            ∀ page ∈ written, Path.components page.1 = Path.components last.1 →
              later.read page.1 = .ok last.2.toUTF8.toList := by
  rcases Graph.coherent_of_ofInputs built with ⟨coherent, sources⟩
  have names := Graph.namesApart_of_ofInputs built
  have shortNames : graph.shortNames.Perm (inputs.map (·.source.shortName)) := by
    rw [Graph.shortNames_eq_map_sources]
    simpa only [List.map_map, Function.comp_def] using sources.map (·.shortName)
  have graphBare : ∀ shortName ∈ graph.shortNames, '/' ∉ shortName.toList := by
    intro shortName known
    rcases List.mem_map.mp (shortNames.mem_iff.mp known) with ⟨input, isInput, rfl⟩
    exact bare input isInput
  refine ⟨?_, ?_, ?_⟩
  · rw [nodup_paths_iff coherent.complete names, shortNames.nodup_iff]
  · rw [nodup_components_iff coherent graphBare, shortNames.nodup_iff]
  · intro tree later wrote before last after split apart page isPage same
    exact read_of_yields_write coherent graphBare wrote split apart isPage same

/-- Two headers with different short names have pages that can all be read back. -/
theorem sharedPaths_lights : ∃ graph later,
    Graph.ofInputs false (lights "lib/lamp.h" "lib/torch.h") = .ok graph ∧
    (∀ input ∈ lights "lib/lamp.h" "lib/torch.h", '/' ∉ input.source.shortName.toList) ∧
    Yields (write "out" .markdown graph ⟨"", ""⟩) (.inDirectory "work") later ∧
    ((pages "out" .markdown graph ⟨"", ""⟩).map (·.1)).Nodup ∧
    ∀ before last after, pages "out" .markdown graph ⟨"", ""⟩ = before ++ last :: after →
      (∀ other ∈ after, Path.components other.1 ≠ Path.components last.1) →
        later.read last.1 = .ok last.2.toUTF8.toList := by
  have built : Graph.ofInputs false (lights "lib/lamp.h" "lib/torch.h") =
      .ok (Graph.ofLights "lib/lamp.h" "lib/torch.h").link :=
    Graph.ofInputs_lights (by decide +kernel) (by decide +kernel) (by decide +kernel)
  have bare : ∀ input ∈ lights "lib/lamp.h" "lib/torch.h",
      '/' ∉ input.source.shortName.toList := by
    decide +kernel
  rcases exists_yields_write_lights built (by decide +kernel) with ⟨later, wrote⟩
  rcases sharedPaths_of_ofInputs built bare "out" .markdown ⟨"", ""⟩ with ⟨paths, _, readable⟩
  refine ⟨_, later, built, bare, wrote, paths.mpr (by decide +kernel), ?_⟩
  intro before last after split apart
  exact readable _ later wrote before last after split apart last (by simp [split]) rfl

/-- Two files with one short name have different paths, and a site with two pages of one path is
written without a failure. -/
theorem not_nodup_paths_lights :
    ((lights "a/light.h" "b/light.h").map (·.source.path)).Nodup ∧ ∃ graph later,
      Graph.ofInputs false (lights "a/light.h" "b/light.h") = .ok graph ∧
      Yields (write "out" .markdown graph ⟨"", ""⟩) (.inDirectory "work") later ∧
      ¬((pages "out" .markdown graph ⟨"", ""⟩).map (·.1)).Nodup := by
  have built : Graph.ofInputs false (lights "a/light.h" "b/light.h") =
      .ok (Graph.ofLights "a/light.h" "b/light.h").link :=
    Graph.ofInputs_lights (by decide +kernel) (by decide +kernel) (by decide +kernel)
  rcases exists_yields_write_lights built (by decide +kernel) with ⟨later, wrote⟩
  refine ⟨by decide +kernel, _, later, built, wrote, ?_⟩
  rcases Graph.coherent_of_ofInputs built with ⟨coherent, sources⟩
  rw [nodup_paths_iff coherent.complete (Graph.namesApart_of_ofInputs built),
    Graph.shortNames_eq_map_sources, (sources.map _).nodup_iff]
  decide +kernel

end Site

end TadsReference
