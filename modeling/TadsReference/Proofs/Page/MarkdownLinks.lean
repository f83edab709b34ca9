import TadsReference.Proofs.Page.Stems

/-!
# Links on Markdown pages

Every builder of lines links to nothing but what it is given. What the lines of a page link to is
therefore known from the declarations, locations and files that they are built from, and in the
graph of a library all of these have pages.
-/

namespace TadsReference.Markdown

/-- The page that a part of a line links to. -/
def Inline.target? : Inline → Option String
  | text _ => none
  | link _ page _ => some page

/-- The pages that lines link to. -/
def targets (lines : List Line) : List String :=
  lines.flatten.filterMap Inline.target?

/-- A line links to some pages at most. -/
def LineWithin (stems : List String) (line : Line) : Prop :=
  ∀ inline ∈ line, ∀ stem, inline.target? = some stem → stem ∈ stems

/-- Lines link to some pages at most. -/
def Within (stems : List String) (lines : List Line) : Prop :=
  ∀ line ∈ lines, LineWithin stems line

variable {stems : List String}

theorem mem_of_mem_targets {lines : List Line} (within : Within stems lines) {stem : String}
    (isTarget : stem ∈ targets lines) : stem ∈ stems := by
  rcases List.mem_filterMap.mp isTarget with ⟨inline, isInline, leads⟩
  rcases List.mem_flatten.mp isInline with ⟨line, isLine, isInline⟩
  exact within line isLine inline isInline stem leads

/-! ### Lines -/

section Lines

variable {line first second : Line} {lines more : List Line} {inline : Inline}

@[simp] theorem lineWithin_nil : LineWithin stems [] := by
  simp [LineWithin]

@[simp] theorem lineWithin_text {shown : String} :
    LineWithin stems (.text shown :: line) ↔ LineWithin stems line := by
  simp [LineWithin, Inline.target?]

@[simp] theorem lineWithin_link {label page : String} {heading : Option String} :
    LineWithin stems (.link label page heading :: line) ↔
      page ∈ stems ∧ LineWithin stems line := by
  simp [LineWithin, Inline.target?]

@[simp] theorem lineWithin_append :
    LineWithin stems (first ++ second) ↔ LineWithin stems first ∧ LineWithin stems second := by
  simp [LineWithin, or_imp, forall_and]

@[simp] theorem within_nil : Within stems [] := by
  simp [Within]

@[simp] theorem within_cons :
    Within stems (line :: lines) ↔ LineWithin stems line ∧ Within stems lines := by
  simp [Within]

@[simp] theorem within_append :
    Within stems (lines ++ more) ↔ Within stems lines ∧ Within stems more := by
  simp [Within, or_imp, forall_and]

theorem within_map {Item : Type} {items : List Item} {build : Item → Line}
    (each : ∀ item ∈ items, LineWithin stems (build item)) : Within stems (items.map build) := by
  simpa [Within] using each

theorem within_flatMap {Item : Type} {items : List Item} {build : Item → List Line}
    (each : ∀ item ∈ items, Within stems (build item)) :
    Within stems (items.flatMap build) := by
  intro line isLine
  rcases List.mem_flatMap.mp isLine with ⟨item, isItem, isLine⟩
  exact each item isItem line isLine

/-- Lines that are joined to one link to what they linked to apart. -/
theorem lineWithin_joinLines {separator : String} (within : Within stems lines) :
    LineWithin stems (joinLines separator lines) := by
  induction lines with
  | nil => simp [joinLines]
  | cons line others ih =>
      rw [within_cons] at within
      cases others with
      | nil => simpa [joinLines] using within.1
      | cons next others =>
          rw [joinLines, List.intercalate_cons_cons]
          simpa using ⟨within.1, ih within.2⟩

end Lines

/-! ### Lines without links -/

section Plain

variable {text : String}

@[simp] theorem lineWithin_plain : LineWithin stems (plain text) := by
  simp [plain]

@[simp] theorem lineWithin_emptyLine : LineWithin stems emptyLine :=
  lineWithin_plain

@[simp] theorem lineWithin_noItems : LineWithin stems noItems :=
  lineWithin_plain

@[simp] theorem lineWithin_heading {level : Nat} : LineWithin stems (heading level text) :=
  lineWithin_plain

@[simp] theorem within_codeBlock : Within stems (codeBlock text) := by
  simp [codeBlock]

@[simp] theorem within_descriptionOrNote : Within stems (descriptionOrNote text) := by
  simp [descriptionOrNote]

@[simp] theorem within_descriptionIfAny : Within stems (descriptionIfAny text) := by
  unfold descriptionIfAny
  split <;> simp

@[simp] theorem within_declarationBlock {graph : Graph} {decl : Decl} :
    Within stems (declarationBlock graph decl) := by
  simp [declarationBlock]

@[simp] theorem within_ownMembers {graph : Graph} {members : List DeclId} :
    Within stems (ownMembers graph members) := by
  unfold ownMembers
  split <;> simp

@[simp] theorem within_introductionLines {info : SiteInfo} :
    Within stems (introductionLines info) := by
  simp only [introductionLines]
  split <;> simp

@[simp] theorem within_symbolSection {graph : Graph} {title : String} {ids : List DeclId}
    {codeOf : Decl → Option String} : Within stems (symbolSection graph title ids codeOf) := by
  unfold symbolSection
  split
  · simp
  · simp only [within_cons, lineWithin_heading, true_and]
    apply within_flatMap
    intro id _
    cases codeOf (graph.decl id) <;> simp

@[simp] theorem within_enumGroup {graph : Graph} {id : GroupId} :
    Within stems (enumGroup graph id) := by
  simp only [enumGroup, within_append, within_cons]
  refine ⟨within_map ?_, ?_⟩
  · simp
  · simp

end Plain

/-! ### Links to declarations and files -/

section Links

variable {graph : Graph} {id : DeclId}

theorem lineWithin_linkTo (shown : graph.Shown id) :
    LineWithin graph.stems [linkTo graph id] := by
  rcases shown.page with ⟨stem, isStem, page⟩
  simpa [linkTo, page] using isStem

theorem lineWithin_locationLink {location : Location}
    (known : Page.ofFile location.file ∈ stems) : LineWithin stems (locationLink location) := by
  simpa [locationLink] using known

/-- A line for a place links to the page of its file and to the pages of the files in which it is
modified. -/
theorem lineWithin_sourceLine {label : String} {location : Location}
    {modifiedAt : List Location} (known : Page.ofFile location.file ∈ stems)
    (modified : ∀ location ∈ modifiedAt, Page.ofFile location.file ∈ stems) :
    LineWithin stems (sourceLine label location modifiedAt) := by
  simp only [sourceLine, lineWithin_text, List.cons_append, lineWithin_append]
  refine ⟨lineWithin_locationLink known, ?_⟩
  split
  · exact lineWithin_nil
  · rw [lineWithin_text]
    apply lineWithin_joinLines
    exact within_map fun location isModified =>
      lineWithin_locationLink (modified location isModified)

theorem within_linkList {ids : List DeclId} (shown : ∀ id ∈ ids, graph.Shown id) :
    Within graph.stems (linkList graph ids) := by
  simp only [linkList, within_cons, lineWithin_emptyLine, within_nil, and_true]
  split
  · exact lineWithin_noItems
  · apply lineWithin_joinLines
    exact within_map fun id isListed => lineWithin_linkTo (shown id isListed)

/-- The section of included files links to their pages, so the names of all of them have to be
known. -/
theorem within_includeSection {includes : List String}
    (known : ∀ name ∈ includes, Page.ofFile name ∈ stems) :
    Within stems (includeSection includes) := by
  unfold includeSection
  split
  · exact within_nil
  · simp only [List.cons_append, within_cons, lineWithin_heading, true_and, within_append,
      lineWithin_emptyLine, within_nil, and_true]
    apply within_map
    intro name isIncluded
    simpa using known name isIncluded

theorem lineWithin_indexEntry (shown : graph.Shown id) :
    LineWithin graph.stems (indexEntry graph id) := by
  have link := lineWithin_linkTo shown
  rcases shown.page with ⟨stem, isStem, page⟩
  simp only [indexEntry, page, lineWithin_text]
  split
  · simpa using isStem
  · exact lineWithin_append.mpr ⟨link, by simp⟩

theorem within_indexSection {title : String} {ids : List DeclId}
    (shown : ∀ id ∈ ids, graph.Shown id) : Within graph.stems (indexSection graph title ids) := by
  unfold indexSection
  split
  · exact within_nil
  · simp only [List.cons_append, within_cons, lineWithin_heading, true_and, within_append,
      lineWithin_emptyLine, within_nil, and_true]
    exact within_map fun id isListed => lineWithin_indexEntry (shown id isListed)

theorem within_matchRule {rule : DeclId} (shown : graph.Shown rule) :
    Within graph.stems (matchRule graph rule) := by
  have link := lineWithin_linkTo shown
  have head : LineWithin graph.stems ([linkTo graph rule] ++ [.text "\n"]) :=
    lineWithin_append.mpr ⟨link, by simp⟩
  simp only [matchRule]
  split <;> simpa using head

end Links

/-! ### Pages -/

section Pages

variable {graph : Graph} {id : DeclId} (coherent : graph.Coherent)

/-- A tree links to the declarations in it, each of which is shown on some page. -/
theorem within_tree {next : DeclId → List (Nat ⊕ String)}
    (shown : ∀ member ∈ graph.outlined next id, graph.Shown member) :
    Within graph.stems (tree graph next id) := by
  apply within_map
  intro line isLine
  unfold treeLine
  split
  · next member isItem =>
      split
      · simp
      · have link := lineWithin_linkTo (shown member (List.mem_filterMap.mpr ⟨line, isLine, by
          simp [isItem]⟩))
        simpa using link
  · simp

include coherent

theorem within_superclassTree (isPaged : id ∈ graph.paged) :
    Within graph.stems (superclassTree graph id) := by
  have top := coherent.shown_of_mem_paged isPaged
  simp only [superclassTree, List.cons_append, within_cons, lineWithin_heading, true_and,
    within_append, lineWithin_emptyLine, within_nil, and_true]
  apply within_tree
  exact fun _ => Graph.shown_of_mem_outlined top fun _ _ => coherent.shown_of_parent

theorem within_inheritedMembers {ancestor : DeclId} {members : List DeclId}
    (isAncestor : ancestor ∈ graph.ancestors id) :
    Within graph.stems (inheritedMembers graph ancestor members) := by
  rcases (coherent.shown_of_mem_ancestors isAncestor).page with ⟨stem, isStem, page⟩
  simp only [inheritedMembers, page, within_cons, lineWithin_plain, true_and,
    lineWithin_emptyLine, within_nil, and_true]
  apply lineWithin_joinLines
  apply within_map
  simpa using fun _ _ => isStem

theorem within_memberSummary (kind : MemberKind) :
    Within graph.stems (memberSummary graph id kind) := by
  simp only [memberSummary, within_cons, lineWithin_heading, true_and]
  split
  · simp
  · rw [within_append]
    refine ⟨within_ownMembers, within_flatMap ?_⟩
    intro group isGroup
    exact within_inheritedMembers coherent (Graph.mem_of_mem_inheritedFrom isGroup).1

/-- The details of a member link to the place where it stands and to those where it is modified. -/
theorem within_memberDetails {member : DeclId} (inside : member < graph.decls.size) :
    Within graph.stems (memberDetails (graph.decl member)) := by
  simp only [memberDetails, within_append, within_cons, lineWithin_heading, lineWithin_plain,
    lineWithin_emptyLine, within_nil, within_descriptionIfAny, true_and, and_true]
  apply lineWithin_sourceLine (coherent.location_mem_stems inside)
  intro location isModified
  cases isMember : (graph.decl member).member? with
  | none => simp [isMember] at isModified
  | some details =>
      apply coherent.memberLocation_mem_stems isMember
      simpa [isMember] using isModified

/-- Each member is described where it is shown, and what modifies it stands in a file of the
graph. -/
theorem within_memberSection (isPaged : id ∈ graph.paged) (kind : MemberKind) :
    Within graph.stems (memberSection graph id kind) := by
  simp only [memberSection, within_cons, lineWithin_heading, true_and]
  split
  · exact within_nil
  · next body isBody =>
      split
      · simp
      · apply within_flatMap
        intro member isMember
        have isShown : member ∈ (graph.decl id).members kind := by
          simpa [Decl.members, isBody] using isMember
        apply within_memberDetails coherent
        exact (coherent.homes id (coherent.kindLabel_of_mem_paged isPaged) kind member isShown).1

theorem within_modificationNotes : Within graph.stems (modificationNotes graph id) := by
  apply within_flatMap
  intro note isNote
  have located := lineWithin_locationLink (coherent.noteLocation_mem_stems isNote)
  simpa using located

/-- The sections of a class link to its bases and subclasses, tree by tree, and to its objects. -/
theorem within_classSections (isPaged : id ∈ graph.paged) {details : ClassDecl}
    (isClass : (graph.decl id).class? = some details) :
    Within graph.stems (classSections graph id details) := by
  have top := coherent.shown_of_mem_paged isPaged
  have subclasses : Within graph.stems (tree graph (children graph) id) := by
    apply within_tree
    exact fun _ => Graph.shown_of_mem_outlined top fun _ _ => coherent.shown_of_child
  have objects : Within graph.stems (linkList graph details.globalObjects) :=
    within_linkList fun _ => coherent.shown_of_mem_globalObjects isClass
  have superclasses := within_superclassTree coherent isPaged
  simp only [classSections]
  split <;> simp [superclasses, subclasses, objects]

theorem within_productionSections {details : ProductionDecl}
    (isProduction : (graph.decl id).kind = .production details) :
    Within graph.stems (productionSections graph details) := by
  simp only [productionSections, within_cons, lineWithin_heading, true_and]
  split
  · simp
  · apply within_flatMap
    intro rule isRule
    exact within_matchRule (coherent.shown_of_mem_matchClasses isProduction isRule)

theorem lineWithin_sourceLine_of_block (inside : id < graph.decls.size) (label : String) :
    LineWithin graph.stems (sourceLine label (graph.decl id).location
      (((graph.decl id).block?.map (·.modifiedAt)).getD [])) := by
  apply lineWithin_sourceLine (coherent.location_mem_stems inside)
  intro location isModified
  cases isBlock : (graph.decl id).block? with
  | none => simp [isBlock] at isModified
  | some block =>
      apply coherent.blockLocation_mem_stems isBlock
      simpa [isBlock] using isModified

/-- The page of a declaration links to pages of the site only. Every section of it does, and which
sections there are depends on the kind of the declaration. -/
theorem within_declarationLines (isPaged : id ∈ graph.paged) :
    Within graph.stems (declarationLines graph id) := by
  have declared := lineWithin_sourceLine_of_block coherent
    (coherent.shown_of_mem_paged isPaged).inside "Declared in "
  have notes : Within graph.stems (modificationNotes graph id) :=
    within_modificationNotes coherent
  have superclasses := within_superclassTree coherent isPaged
  have summary (kind : MemberKind) : Within graph.stems (memberSummary graph id kind) :=
    within_memberSummary coherent kind
  have members := within_memberSection coherent isPaged
  simp only [declarationLines, within_append, within_cons, lineWithin_heading, declared,
    lineWithin_emptyLine, within_descriptionOrNote, notes, summary, members, true_and, and_true]
  split
  · next details isKind =>
      apply within_classSections coherent isPaged
      simp [Decl.class?, isKind]
  · simpa using superclasses
  · next details isKind => exact within_productionSections coherent isKind
  · exact within_nil

/-- The page of a file links to pages of the site only. What it includes are files of the site, and
its lists hold shown declarations only. -/
theorem within_fileLines {file : FileRecord} (isFile : file ∈ graph.files) :
    Within graph.stems (fileLines graph file) := by
  have includes : Within graph.stems (includeSection file.source.includes) := by
    apply within_includeSection
    exact fun name isIncluded =>
      Graph.ofFile_mem_stems (coherent.included file isFile name isIncluded)
  have listed : ∀ id ∈ file.listed, graph.Shown id := fun id isListed =>
    coherent.shown_of_cites (.file file isFile isListed)
  simp only [FileRecord.listed, List.mem_append, or_imp, forall_and] at listed
  have classes := within_linkList listed.1.1.1.1
  have objects := within_linkList listed.1.1.1.2
  simp only [fileLines, within_append, within_cons, lineWithin_heading, lineWithin_plain,
    within_descriptionOrNote, includes, classes, objects, within_symbolSection, true_and, and_true]
  split
  · exact within_nil
  · rw [within_cons]
    exact ⟨lineWithin_heading, within_flatMap fun _ _ => within_enumGroup⟩

/-- The index links to pages of the site only. Files have pages of their own, and the lists of the
index hold shown declarations only. -/
theorem within_indexLines (info : SiteInfo) : Within graph.stems (indexLines graph info) := by
  have files : Within graph.stems (graph.files.map fun file =>
      [.text "* ", .link file.source.shortName (Page.ofFile file.source.shortName) none]) := by
    apply within_map
    intro file isFile
    simpa using Graph.ofFile_mem_stems (List.mem_map_of_mem isFile)
  have indexed : ∀ id ∈ graph.indexed, graph.Shown id := fun _ => coherent.shown_of_mem_indexed
  simp only [Graph.indexed, List.mem_append, or_imp, forall_and] at indexed
  obtain ⟨⟨⟨⟨⟨⟨⟨⟨classes, actions⟩, productions⟩, objects⟩, functions⟩, macros⟩, enums⟩,
    templates⟩, _⟩ := indexed
  simp only [indexLines, within_append, within_cons, lineWithin_heading, lineWithin_emptyLine,
    within_nil, within_introductionLines, files, within_indexSection classes,
    within_indexSection actions, within_indexSection productions, within_indexSection objects,
    within_indexSection functions, within_indexSection macros, within_indexSection enums,
    within_indexSection templates, and_self]

end Pages

end TadsReference.Markdown
