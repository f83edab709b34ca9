import TadsReference.Proofs.Page.JsonReferences
import TadsReference.Proofs.Page.MarkdownLinks

/-!
# Sites without dead links

Before it is written, a page of either format is data from which the pages that it refers to can be
read off. In the site of a library, each of them is a page of the site, and the relative links lead
there: `noDeadLinks_of_ofInputs`.
-/

namespace TadsReference

/-- What a page holds before it is written. -/
inductive PageContent where
  | markdown (lines : List Markdown.Line)
  | json (value : JsonValue)

namespace PageContent

/-- The text of a page, with its links relative to where it is written. -/
def write (source : String) : PageContent → String
  | markdown lines => Markdown.write source lines
  | json value => value.write

/-- A page refers to another one. There is no target where a value lacks the page that it should
name. -/
def RefersTo (target : Option String) : PageContent → Prop
  | markdown lines => ∃ stem ∈ Markdown.targets lines, target = some stem
  | json value => value.Names target

end PageContent

/-- A page before it is written. -/
structure PageDraft where
  stem : String
  content : PageContent
  /-- The declarations that the page lists. -/
  listed : List DeclId

/-! ### Short names -/

/-- The last name of a path contains no slash. It is one of the parts between the slashes, as the
front of an absolute path is no name. -/
theorem Path.slash_not_mem_of_fileName? {path name : String} (named : fileName? path = some name) :
    '/' ∉ name.toList := by
  simp only [fileName?] at named
  split at named
  · next shown last =>
      cases named
      have isStep := List.mem_of_getLast? last
      have isPart : Component.name name ∈ (parts path).filterMap step? := by
        rcases List.mem_append.mp isStep with isFront | isPart
        · split at isFront
          · simp at isFront
          · split at isFront <;> simp at isFront
        · exact isPart
      rcases List.mem_filterMap.mp isPart with ⟨part, isBetween, step⟩
      obtain rfl : part = name := by
        simp only [step?] at step
        split at step
        · contradiction
        · split at step
          · simp at step
          · simpa using step
      rcases List.mem_map.mp isBetween with ⟨segment, isSegment, rfl⟩
      simpa using Text.not_mem_of_mem_splitOn isSegment
  · contradiction

theorem SourceFile.slash_not_mem_shortName_ofPath {path : String}
    (named : (Path.fileName? path).isSome) : '/' ∉ (SourceFile.ofPath path).shortName.toList := by
  rcases Option.isSome_iff_exists.mp named with ⟨name, named⟩
  simpa [ofPath, named] using Path.slash_not_mem_of_fileName? named

namespace PageFormat

variable (format : PageFormat) (graph : Graph) (info : SiteInfo)

/-- What the page of a declaration holds. -/
def declarationContent (id : DeclId) : PageContent :=
  match format with
  | markdown => .markdown (Markdown.declarationLines graph id)
  | json => .json (JsonPage.declarationValue graph id)

/-- What the page of a file holds. -/
def fileContent (file : FileRecord) : PageContent :=
  match format with
  | markdown => .markdown (Markdown.fileLines graph file)
  | json => .json (JsonPage.fileValue graph file)

/-- What the index holds. -/
def indexContent : PageContent :=
  match format with
  | markdown => .markdown (Markdown.indexLines graph info)
  | json => .json (JsonPage.indexValue graph info)

/-- The page of a declaration before it is written, if it has one of its own. -/
def declarationDraft? (id : DeclId) : Option PageDraft :=
  (graph.page? id).map fun stem => ⟨stem, format.declarationContent graph id, graph.related id⟩

/-- The page of a file before it is written. -/
def fileDraft (file : FileRecord) : PageDraft :=
  ⟨Page.ofFile file.source.shortName, format.fileContent graph file, graph.filed file⟩

/-- All pages of a site before they are written. -/
def drafts : List PageDraft :=
  graph.paged.filterMap (format.declarationDraft? graph) ++
    graph.files.map (format.fileDraft graph) ++
    [⟨Page.index, format.indexContent graph info, graph.indexed⟩]

/-- No page of a site refers to a page that is not there. -/
structure NoDeadLinks : Prop where
  /-- The site consists of the drafts. -/
  written : format.pages graph info =
    (format.drafts graph info).map fun draft => (draft.stem, draft.content.write draft.stem)
  stems : (format.pages graph info).map (·.1) = graph.stems
  listed : ∀ draft ∈ format.drafts graph info, ∀ id ∈ draft.listed,
    ∃ stem ∈ graph.stems, graph.page? id = some stem
  references : ∀ draft ∈ format.drafts graph info, ∀ target, draft.content.RefersTo target →
    ∃ stem ∈ graph.stems, target = some stem
  locations : ∀ id < graph.decls.size,
    ∀ location ∈ (graph.decl id).location :: (graph.decl id).modifiedAt,
      Page.ofFile location.file ∈ graph.stems
  includes : ∀ file ∈ graph.files, ∀ name ∈ file.source.includes,
    Page.ofFile name ∈ graph.stems
  /-- Short names contain no slash if they are the last names of paths. -/
  links : (∀ file ∈ graph.files, '/' ∉ file.source.shortName.toList) →
    ∀ source ∈ graph.stems, ∀ target ∈ graph.stems,
      Page.resolve source (Page.relativeLink source target format.extension) =
        target ++ "." ++ format.extension

variable {format graph info}

/-! ### Drafts and pages -/

theorem write_declarationContent {id : DeclId} {stem : String}
    (page : graph.page? id = some stem) :
    (format.declarationContent graph id).write stem = format.declarationPage graph id := by
  cases format with
  | markdown => simp [declarationContent, PageContent.write, declarationPage,
      Markdown.declarationPage, page]
  | json => rfl

theorem declarationEntry?_eq_map (id : DeclId) :
    format.declarationEntry? graph id =
      (format.declarationDraft? graph id).map fun draft =>
        (draft.stem, draft.content.write draft.stem) := by
  cases page : graph.page? id with
  | none => simp [declarationDraft?, declarationEntry?, page]
  | some stem =>
      simp [declarationDraft?, declarationEntry?, page, write_declarationContent page]

theorem write_fileContent (file : FileRecord) :
    (format.fileContent graph file).write (Page.ofFile file.source.shortName) =
      format.filePage graph file := by
  cases format <;> rfl

theorem write_indexContent :
    (format.indexContent graph info).write Page.index = format.indexPage graph info := by
  cases format <;> rfl

/-- The pages of a site are its drafts, written one by one. -/
theorem pages_eq_map_drafts : format.pages graph info =
    (format.drafts graph info).map fun draft => (draft.stem, draft.content.write draft.stem) := by
  simp only [pages, declarationPages, drafts, List.map_append, List.map_filterMap, List.map_map,
    List.map_cons, List.map_nil, write_indexContent]
  congr 2
  · apply List.filterMap_congr
    exact fun id _ => declarationEntry?_eq_map id
  · apply List.map_congr_left
    intro file _
    simp [fileDraft, write_fileContent]

/-- There is one draft for each stem of a site. -/
theorem map_stem_drafts : (format.drafts graph info).map (·.stem) = graph.stems := by
  have declared : (graph.paged.filterMap (format.declarationDraft? graph)).map (·.stem) =
      graph.paged.filterMap graph.page? := by
    rw [List.map_filterMap]
    apply List.filterMap_congr
    intro id _
    cases page : graph.page? id <;> simp [declarationDraft?, page]
  have filed : (graph.files.map (format.fileDraft graph)).map (·.stem) =
      graph.files.map fun file => Page.ofFile file.source.shortName := by
    simp [fileDraft]
  simp only [drafts, List.map_append, declared, filed]
  rfl

/-- A draft is that of a declaration, of a file or of the index. -/
theorem mem_drafts {draft : PageDraft} (isDraft : draft ∈ format.drafts graph info) :
    (∃ id ∈ graph.paged, draft.content = format.declarationContent graph id ∧
      draft.listed = graph.related id) ∨
    (∃ file ∈ graph.files, draft = format.fileDraft graph file) ∨
    draft = ⟨Page.index, format.indexContent graph info, graph.indexed⟩ := by
  simp only [drafts, List.mem_append, List.mem_filterMap, List.mem_map, List.mem_singleton]
    at isDraft
  rcases isDraft with (⟨id, isPaged, isDraft⟩ | ⟨file, isFile, rfl⟩) | rfl
  · rcases Option.map_eq_some_iff.mp isDraft with ⟨stem, _, rfl⟩
    exact .inl ⟨id, isPaged, rfl, rfl⟩
  · exact .inr (.inl ⟨file, isFile, rfl⟩)
  · exact .inr (.inr rfl)

/-! ### References of drafts -/

theorem mem_of_refersTo_markdown {stems : List String} {lines : List Markdown.Line}
    {target : Option String} (within : Markdown.Within stems lines)
    (refers : (PageContent.markdown lines).RefersTo target) :
      ∃ stem ∈ stems, target = some stem := by
  rcases refers with ⟨stem, isTarget, rfl⟩
  exact ⟨stem, Markdown.mem_of_mem_targets within isTarget, rfl⟩

variable {target : Option String} {id : DeclId} (coherent : graph.Coherent)

include coherent

theorem mem_stems_of_declarationContent (isPaged : id ∈ graph.paged)
    (refers : (format.declarationContent graph id).RefersTo target) :
    ∃ stem ∈ graph.stems, target = some stem := by
  cases format with
  | markdown =>
      exact mem_of_refersTo_markdown (Markdown.within_declarationLines coherent isPaged) refers
  | json => exact JsonPage.within_declarationValue coherent isPaged target refers

theorem mem_stems_of_fileContent {file : FileRecord} (isFile : file ∈ graph.files)
    (refers : (format.fileContent graph file).RefersTo target) :
    ∃ stem ∈ graph.stems, target = some stem := by
  cases format with
  | markdown => exact mem_of_refersTo_markdown (Markdown.within_fileLines coherent isFile) refers
  | json => exact JsonPage.within_fileValue coherent isFile target refers

theorem mem_stems_of_indexContent (refers : (format.indexContent graph info).RefersTo target) :
    ∃ stem ∈ graph.stems, target = some stem := by
  cases format with
  | markdown => exact mem_of_refersTo_markdown (Markdown.within_indexLines coherent info) refers
  | json => exact JsonPage.within_indexValue coherent info target refers

theorem mem_stems_of_refersTo {draft : PageDraft} (isDraft : draft ∈ format.drafts graph info)
    (refers : draft.content.RefersTo target) : ∃ stem ∈ graph.stems, target = some stem := by
  rcases mem_drafts isDraft with ⟨id, isPaged, content, _⟩ | ⟨file, isFile, rfl⟩ | rfl
  · rw [content] at refers
    exact mem_stems_of_declarationContent coherent isPaged refers
  · exact mem_stems_of_fileContent coherent isFile refers
  · exact mem_stems_of_indexContent coherent refers

theorem shown_of_mem_listed {draft : PageDraft} (isDraft : draft ∈ format.drafts graph info)
    (isListed : id ∈ draft.listed) : graph.Shown id := by
  rcases mem_drafts isDraft with ⟨holder, isPaged, _, listed⟩ | ⟨file, isFile, rfl⟩ | rfl
  · rw [listed] at isListed
    exact coherent.shown_of_mem_related isPaged isListed
  · exact coherent.shown_of_mem_filed isFile isListed
  · exact coherent.shown_of_mem_indexed isListed

omit coherent

/-- The site of a library has no dead links, in either format. Links between them are followed
segment by segment, from the directory of the page that has them. -/
theorem noDeadLinks_of_ofInputs {expandsMacros : Bool} {inputs : List InputFile}
    (built : Graph.ofInputs expandsMacros inputs = .ok graph) (format : PageFormat)
    (info : SiteInfo) : format.NoDeadLinks graph info := by
  have coherent := (Graph.coherent_of_ofInputs built).1
  constructor
  · exact pages_eq_map_drafts
  · rw [pages_eq_map_drafts, List.map_map]
    exact map_stem_drafts
  · intro draft isDraft id isListed
    exact (shown_of_mem_listed coherent isDraft isListed).page
  · exact fun draft isDraft target => mem_stems_of_refersTo coherent isDraft
  · intro id inside location isLocation
    rcases List.mem_cons.mp isLocation with rfl | isModified
    · exact coherent.location_mem_stems inside
    · exact coherent.modifiedAt_mem_stems isModified
  · intro file isFile name isIncluded
    exact Graph.ofFile_mem_stems (coherent.included file isFile name isIncluded)
  · intro bare source _ target isTarget
    apply Graph.resolve_of_mem_stems coherent _ format isTarget
    intro shortName known
    rcases List.mem_map.mp known with ⟨file, isFile, rfl⟩
    exact bare file isFile

/-- Two files, the second of which includes the first and modifies its class. -/
def thingLibrary : List InputFile :=
  [.ofContent "lib/thing.t" "class Thing: object\n    weight = 1\n;\n".toUTF8.toList .absent,
    .ofContent "lib/room.t"
      "#include \"thing.t\"\nmodify Thing\n    weight = 2\n;\nRoom: Thing\n;\n".toUTF8.toList
      .absent]

/-- The page of the class links to the file that modifies it, and the page of that file links to the
one that it includes. -/
theorem noDeadLinks_thingLibrary : ∃ graph, Graph.ofInputs false thingLibrary = .ok graph ∧
    (∀ file ∈ graph.files, '/' ∉ file.source.shortName.toList) ∧
      ∀ format info, PageFormat.NoDeadLinks format graph info := by
  have ordered : ReadingOrder.positions (thingLibrary.map (·.source)) = .ok [0, 1] := by
    decide +kernel
  have readable : ∀ input ∈ thingLibrary, ∀ fault, input.mirror ≠ .unreadable fault := by
    simp [thingLibrary, InputFile.ofContent]
  have bare : ∀ source ∈ thingLibrary.map (·.source), '/' ∉ source.shortName.toList := by
    simp only [thingLibrary, List.map_cons, List.map_nil, List.forall_mem_cons]
    exact ⟨SourceFile.slash_not_mem_shortName_ofPath (by decide),
      SourceFile.slash_not_mem_shortName_ofPath (by decide), by simp⟩
  rcases Graph.exists_ofInputs ordered readable with ⟨graph, built⟩
  have sources := (Graph.coherent_of_ofInputs built).2
  refine ⟨graph, built, ?_, PageFormat.noDeadLinks_of_ofInputs built⟩
  exact fun file isFile => bare _ (sources.mem_iff.mp (List.mem_map_of_mem isFile))

end PageFormat

end TadsReference
