import TadsReference.Page.Format
import TadsReference.Proofs.Graph.Coherence
import TadsReference.Proofs.Graph.Walk

/-!
# Pages of what is listed

The index, the pages of files and the pages of declarations list declarations. In the graph of a
library each of them is shown on some page of the site: `Coherent.shown_of_mem_indexed` and the
like.
-/

namespace TadsReference.Graph

variable {graph : Graph} {id member ancestor : DeclId} {kind : MemberKind}

/-- The stems of all pages: those of classes, objects and productions, those of files, and the
index. -/
def stems (graph : Graph) : List String :=
  graph.paged.filterMap graph.page? ++
    graph.files.map (fun file => Page.ofFile file.source.shortName) ++ [Page.index]

/-- There is a declaration of a number, and some page shows it. -/
structure Shown (graph : Graph) (id : DeclId) : Prop where
  inside : id < graph.decls.size
  page : ∃ stem ∈ graph.stems, graph.page? id = some stem

/-! ### Lists on pages -/

/-- The declarations that the index lists. -/
def indexed (graph : Graph) : List DeclId :=
  graph.classes ++ graph.actions ++ graph.productions ++ graph.objects ++ graph.functions ++
    graph.macros ++ graph.enums ++ graph.templates ++ graph.messages

/-- The declarations that the page of a file lists. -/
def filed (graph : Graph) (file : FileRecord) : List DeclId :=
  file.listed ++ file.enumGroups.flatMap fun group => (graph.group group).members

/-- The declarations in a tree. -/
def outlined (graph : Graph) (next : DeclId → List (Nat ⊕ String)) (id : DeclId) :
    List DeclId :=
  (Walk.outline next graph.decls.size [] [⟨0, .inl id⟩]).filterMap (·.item.getLeft?)

/-- The members that a declaration shows, and those it inherits with the ancestors they come
from. -/
def shownMembers (graph : Graph) (id : DeclId) (kind : MemberKind) : List DeclId :=
  (graph.decl id).members kind ++
    (graph.inheritedMembers id kind).flatMap fun group => group.1 :: group.2

/-- The declarations that the page of a declaration lists. -/
def related (graph : Graph) (id : DeclId) : List DeclId :=
  let decl := graph.decl id
  graph.resolvedBases id ++ decl.subclasses ++ decl.globalObjects ++ decl.matchClasses ++
    decl.production?.toList ++ graph.outlined (Markdown.parents graph) id ++
    graph.outlined (Markdown.children graph) id ++ graph.ancestors id ++
    graph.shownMembers id .property ++ graph.shownMembers id .method

/-! ### Stems -/

theorem page_mem_stems {stem : String} (isPaged : id ∈ graph.paged)
    (page : graph.page? id = some stem) : stem ∈ graph.stems := by
  apply List.mem_append_left
  apply List.mem_append_left
  exact List.mem_filterMap.mpr ⟨id, isPaged, page⟩

theorem ofFile_mem_stems {shortName : String} (known : shortName ∈ graph.shortNames) :
    Page.ofFile shortName ∈ graph.stems := by
  rcases List.mem_map.mp known with ⟨file, isFile, rfl⟩
  apply List.mem_append_left
  apply List.mem_append_right
  exact List.mem_map.mpr ⟨file, isFile, rfl⟩

theorem page?_of_standsAlone (alone : (graph.decl id).standsAlone = true)
    (unnamed : (graph.decl id).pageName? = none) :
    graph.page? id = some (Page.ofFile (graph.decl id).location.file) := by
  rcases shown : graph.decl id with ⟨_, _, _, kind⟩
  rw [shown] at alone unnamed
  cases kind <;>
    simp_all [Decl.standsAlone, Decl.kindLabel, Decl.pageName?, page?]

/-! ### Members that are inherited -/

/-- Inherited members are members of the ancestors that they are listed under. The induction is on
the ancestors. What an ancestor adds are some of its own members, namely those of new names. -/
theorem mem_of_mem_inheritedFrom {seen : List String} {ancestors : List DeclId}
    {group : DeclId × List DeclId} (isGroup : group ∈ graph.inheritedFrom kind seen ancestors) :
    group.1 ∈ ancestors ∧ ∀ member ∈ group.2, member ∈ (graph.decl group.1).members kind := by
  induction ancestors generalizing seen with
  | nil => simp [inheritedFrom] at isGroup
  | cons ancestor others ih =>
      have fresh : ∀ member ∈ (((graph.decl ancestor).members kind).foldl
          (fun (found : List DeclId × List String) member =>
            if found.2.contains (graph.name member) then found
            else (found.1 ++ [member], graph.name member :: found.2))
          ([], seen)).1, member ∈ (graph.decl ancestor).members kind := by
        apply List.foldlRecOn (motive := fun found : List DeclId × List String =>
          ∀ member ∈ found.1, member ∈ (graph.decl ancestor).members kind)
        · simp
        · intro found isFound member isMember
          split
          · exact isFound
          · intro other isOther
            rcases List.mem_append.mp isOther with isOld | isNew
            · exact isFound other isOld
            · rwa [List.mem_singleton.mp isNew]
      simp only [inheritedFrom] at isGroup
      split at isGroup
      · exact (ih isGroup).imp_left (List.mem_cons_of_mem _)
      · rcases List.mem_cons.mp isGroup with rfl | isLater
        · exact ⟨List.mem_cons_self, fresh⟩
        · exact (ih isLater).imp_left (List.mem_cons_of_mem _)

/-! ### What is shown -/

/-- All declarations in a tree are shown, if the top is and the neighbours of all are. -/
theorem shown_of_mem_outlined {next : DeclId → List (Nat ⊕ String)} (top : graph.Shown id)
    (neighbours : ∀ holder neighbour, .inl neighbour ∈ next holder → graph.Shown neighbour)
    (isOutlined : member ∈ graph.outlined next id) : graph.Shown member := by
  rcases List.mem_filterMap.mp isOutlined with ⟨line, isLine, isItem⟩
  rw [Sum.getLeft?_eq_some_iff] at isItem
  rcases Walk.item_of_mem_outline isLine with isTop | ⟨holder, isNeighbour⟩
  · obtain rfl := List.mem_singleton.mp isTop
    cases isItem
    exact top
  · rw [isItem] at isNeighbour
    exact neighbours holder member isNeighbour

namespace Coherent

variable (coherent : graph.Coherent)

include coherent

/-- What stands alone is shown on its own page or on the page of its file. -/
theorem shown_of_standsAlone (alone : graph.StandsAlone id) : graph.Shown id := by
  cases named : (graph.decl id).pageName? with
  | some name =>
      have isPaged := coherent.complete.mem_paged.mpr ⟨name, named⟩
      have page := page?_of_pageName? named
      exact ⟨alone.inside, _, page_mem_stems isPaged page, page⟩
  | none =>
      have located := (coherent.anchored.placed id alone.inside).file
      exact ⟨alone.inside, _, ofFile_mem_stems located, page?_of_standsAlone alone.alone named⟩

theorem shown_of_cites (cited : graph.Cites id) : graph.Shown id :=
  coherent.shown_of_standsAlone (coherent.anchored.cites id cited)

theorem shown_of_isBlock (isBlock : (graph.decl id).isBlock = true) : graph.Shown id := by
  apply coherent.shown_of_standsAlone
  refine ⟨lt_size_of_view rfl isBlock, ?_⟩
  rcases (Decl.isBlock_iff _).mp isBlock with label | label <;> simp [Decl.standsAlone, label]

theorem shown_of_isClass (isClass : (graph.decl id).isClass = true) : graph.Shown id := by
  apply coherent.shown_of_isBlock
  rw [Decl.isBlock_iff, ← Decl.isClass_iff]
  exact .inl isClass

theorem shown_of_mem_listed {listing : Listing} (other : listing.label ≠ "modify")
    (isListed : id ∈ graph.listed listing) : graph.Shown id := by
  rcases (coherent.complete.mem_iff listing id).mp isListed with ⟨inside, label⟩
  apply coherent.shown_of_standsAlone
  refine ⟨inside, ?_⟩
  rw [Decl.standsAlone, label]
  cases listing <;> first | rfl | contradiction

/-- The index lists what the lists of the graph hold and constants, but no `modify` blocks. -/
theorem shown_of_mem_indexed (isIndexed : id ∈ graph.indexed) : graph.Shown id := by
  have listed (listing : Listing) (other : listing.label ≠ "modify") :
      id ∈ graph.listed listing → graph.Shown id := coherent.shown_of_mem_listed other
  simp only [indexed, List.mem_append] at isIndexed
  rcases isIndexed with (((((((isClass | isAction) | isProduction) | isObject) | isFunction) |
    isMacro) | isEnum) | isTemplate) | isMessage
  · exact listed .classes (by decide) isClass
  · exact listed .classes (by decide) (List.mem_filter.mp isAction).1
  · exact listed .productions (by decide) isProduction
  · exact listed .objects (by decide) isObject
  · exact listed .functions (by decide) isFunction
  · exact listed .macros (by decide) isMacro
  · exact coherent.shown_of_cites (coherent.enums id isEnum)
  · exact listed .templates (by decide) isTemplate
  · exact listed .messages (by decide) isMessage

theorem shown_of_mem_filed {file : FileRecord} (isFile : file ∈ graph.files)
    (isFiled : id ∈ graph.filed file) : graph.Shown id := by
  apply coherent.shown_of_cites
  rcases List.mem_append.mp isFiled with isListed | isConstant
  · exact .file file isFile isListed
  · rcases List.mem_flatMap.mp isConstant with ⟨group, _, member⟩
    exact .group group member

theorem shown_of_base {holder : DeclId} (isBase : .decl id ∈ (graph.decl holder).bases) :
    graph.Shown id :=
  coherent.shown_of_isBlock (coherent.mirrored.bases holder id isBase)

/-- An heir is a class or an object, so it has a page of its own. -/
theorem shown_of_heir {holder : DeclId} (areClasses : Bool)
    (isHeir : id ∈ (graph.decl holder).heirs areClasses) : graph.Shown id := by
  have isClass : (graph.decl holder).isClass = true := by
    by_contra notClass
    rw [Decl.heirs_of_not_isClass (by simpa using notClass)] at isHeir
    contradiction
  have hasBase := ((coherent.mirrored.heirs holder areClasses id isClass).mp isHeir).2
  apply coherent.shown_of_isBlock
  by_contra notBlock
  rw [Decl.bases_of_not_isBlock (by simpa using notBlock)] at hasBase
  contradiction

theorem shown_of_mem_subclasses {details : ClassDecl}
    (isClass : (graph.decl id).class? = some details) (isHeir : member ∈ details.subclasses) :
    graph.Shown member := by
  have isSubclass : member ∈ (graph.decl id).heirs true := by
    simpa [Decl.heirs, Decl.subclasses, isClass] using isHeir
  exact coherent.shown_of_heir true isSubclass

theorem shown_of_mem_globalObjects {details : ClassDecl}
    (isClass : (graph.decl id).class? = some details) (isHeir : member ∈ details.globalObjects) :
    graph.Shown member := by
  have isObject : member ∈ (graph.decl id).heirs false := by
    simpa [Decl.heirs, Decl.globalObjects, isClass] using isHeir
  exact coherent.shown_of_heir false isObject

theorem shown_of_mem_matchClasses {details : ProductionDecl}
    (isProduction : (graph.decl id).kind = .production details)
    (isRule : member ∈ details.matchClasses) : graph.Shown member := by
  apply coherent.shown_of_isClass
  apply coherent.rules id
  simpa [Decl.matchClasses, isProduction] using isRule

theorem shown_of_mem_members (notModification : (graph.decl id).kindLabel ≠ "modify")
    (isMember : member ∈ (graph.decl id).members kind) : graph.Shown member := by
  rcases coherent.homes id notModification kind member isMember
    with ⟨inside, home, isBlock, samePage⟩
  rcases (coherent.shown_of_isBlock isBlock).page with ⟨stem, isStem, page⟩
  exact ⟨inside, stem, isStem, samePage.trans page⟩

theorem isBlock_of_mem_ancestors (isAncestor : ancestor ∈ graph.ancestors id) :
    (graph.decl ancestor).isBlock = true := by
  have isBlock {holder base : DeclId} (isBase : base ∈ graph.resolvedBases holder) :
      (graph.decl base).isBlock = true :=
    coherent.mirrored.bases holder base (mem_resolvedBases.mp isBase)
  rcases Walk.mem_preorder_iff.mp isAncestor with ⟨start, isStart, _, path⟩
  cases path with
  | refl => exact isBlock isStart
  | tail _ step => exact isBlock step.1

theorem shown_of_mem_ancestors (isAncestor : ancestor ∈ graph.ancestors id) :
    graph.Shown ancestor :=
  coherent.shown_of_isBlock (coherent.isBlock_of_mem_ancestors isAncestor)

/-- The members that a page shows are its own, those that are inherited, and the ancestors that
these come from. -/
theorem shown_of_mem_shownMembers (notModification : (graph.decl id).kindLabel ≠ "modify")
    (isShown : member ∈ graph.shownMembers id kind) : graph.Shown member := by
  rcases List.mem_append.mp isShown with isOwn | isInherited
  · exact coherent.shown_of_mem_members notModification isOwn
  · rcases List.mem_flatMap.mp isInherited with ⟨group, isGroup, isListed⟩
    rcases mem_of_mem_inheritedFrom isGroup with ⟨isAncestor, members⟩
    rcases List.mem_cons.mp isListed with rfl | isMember
    · exact coherent.shown_of_mem_ancestors isAncestor
    · have isBlock := coherent.isBlock_of_mem_ancestors isAncestor
      apply coherent.shown_of_mem_members _ (members member isMember)
      rcases (Decl.isBlock_iff _).mp isBlock with label | label <;> simp [label]

theorem shown_of_parent {holder : DeclId} (isParent : .inl id ∈ Markdown.parents graph holder) :
    graph.Shown id := by
  rcases List.mem_map.mp isParent with ⟨base, isBase, isItem⟩
  cases base with
  | name name => contradiction
  | decl parent =>
      cases isItem
      exact coherent.shown_of_base isBase

theorem shown_of_child {holder : DeclId} (isChild : .inl id ∈ Markdown.children graph holder) :
    graph.Shown id := by
  rcases List.mem_map.mp isChild with ⟨heir, isHeir, isItem⟩
  cases isItem
  exact coherent.shown_of_heir true isHeir

theorem kindLabel_of_mem_paged (isPaged : id ∈ graph.paged) :
    (graph.decl id).kindLabel ≠ "modify" := by
  rcases coherent.complete.mem_paged.mp isPaged with ⟨name, named⟩
  have labels := isSome_pageName?_iff.mp (Option.isSome_of_eq_some named)
  rcases labels with label | label | label <;> simp [label]

theorem shown_of_mem_paged (isPaged : id ∈ graph.paged) : graph.Shown id := by
  have listed (listing : Listing) (other : listing.label ≠ "modify") :
      id ∈ graph.listed listing → graph.Shown id := coherent.shown_of_mem_listed other
  simp only [paged, List.mem_append] at isPaged
  rcases isPaged with (isClass | isObject) | isProduction
  · exact listed .classes (by decide) isClass
  · exact listed .objects (by decide) isObject
  · exact listed .productions (by decide) isProduction

/-- All that the page of a class, an object or a production lists is shown on some page. -/
theorem shown_of_mem_related (isPaged : id ∈ graph.paged) (isRelated : member ∈ graph.related id) :
    graph.Shown member := by
  have top := coherent.shown_of_mem_paged isPaged
  have notModification := coherent.kindLabel_of_mem_paged isPaged
  simp only [related, List.mem_append] at isRelated
  rcases isRelated with ((((((((isBase | isSubclass) | isObject) | isRule) | isProduction) |
    isParent) | isChild) | isAncestor) | isProperty) | isMethod
  · exact coherent.shown_of_base (mem_resolvedBases.mp isBase)
  · exact coherent.shown_of_heir true isSubclass
  · exact coherent.shown_of_heir false isObject
  · exact coherent.shown_of_isClass (coherent.rules id member isRule)
  · exact coherent.shown_of_cites (.rule id (Option.mem_toList.mp isProduction))
  · exact shown_of_mem_outlined top (fun _ _ => coherent.shown_of_parent) isParent
  · exact shown_of_mem_outlined top (fun _ _ => coherent.shown_of_child) isChild
  · exact coherent.shown_of_mem_ancestors isAncestor
  · exact coherent.shown_of_mem_shownMembers notModification isProperty
  · exact coherent.shown_of_mem_shownMembers notModification isMethod

/-! ### Locations -/

theorem location_mem_stems (inside : id < graph.decls.size) :
    Page.ofFile (graph.decl id).location.file ∈ graph.stems :=
  ofFile_mem_stems (coherent.anchored.placed id inside).file

theorem modifiedAt_mem_stems {location : Location}
    (isModified : location ∈ (graph.decl id).modifiedAt) :
    Page.ofFile location.file ∈ graph.stems :=
  ofFile_mem_stems (coherent.modified id location isModified)

theorem blockLocation_mem_stems {block : Block} {location : Location}
    (isBlock : (graph.decl id).block? = some block) (isModified : location ∈ block.modifiedAt) :
    Page.ofFile location.file ∈ graph.stems := by
  have noted : location ∈ (graph.decl id).modifiedAt := by
    simpa [Decl.modifiedAt, isBlock] using isModified
  exact coherent.modifiedAt_mem_stems noted

theorem memberLocation_mem_stems {details : MemberDecl} {location : Location}
    (isMember : (graph.decl id).member? = some details)
    (isModified : location ∈ details.modifiedAt) :
    Page.ofFile location.file ∈ graph.stems := by
  have noted : location ∈ (graph.decl id).modifiedAt := by
    rwa [(modifications_of_member? isMember).1]
  exact coherent.modifiedAt_mem_stems noted

theorem noteLocation_mem_stems {note : Location × String}
    (isNote : note ∈ graph.modificationNotes id) : Page.ofFile note.1.file ∈ graph.stems := by
  rcases List.mem_map.mp (List.mem_filter.mp isNote).1 with ⟨modification, isModification, rfl⟩
  apply coherent.location_mem_stems
  apply coherent.noted id
  cases isBlock : (graph.decl id).block? with
  | none => simp [isBlock] at isModification
  | some block => simpa [Decl.modifications, isBlock] using isModification

end Coherent

/-! ### Links between pages -/

/-- No stem leads through a directory that is called by dots alone, since the names of pages have no
dot in front of a slash. -/
theorem undotted_of_mem_stems (coherent : graph.Coherent)
    (bare : ∀ shortName ∈ graph.shortNames, '/' ∉ shortName.toList) {stem : String}
    (isStem : stem ∈ graph.stems) : Undotted stem.toList := by
  simp only [stems, List.mem_append, List.mem_filterMap, List.mem_map, List.mem_singleton] at isStem
  rcases isStem with (⟨id, isPaged, page⟩ | ⟨file, isFile, rfl⟩) | rfl
  · rcases coherent.complete.mem_paged.mp isPaged with ⟨name, named⟩
    have inside := (coherent.shown_of_mem_paged isPaged).inside
    have undotted := (coherent.anchored.placed id inside).pageName name named
    rw [page?_of_pageName? named] at page
    cases page
    rw [String.toList_append]
    exact undotted.prepend (by decide)
  · have absent := bare _ (List.mem_map_of_mem isFile)
    rw [Page.ofFile, String.toList_append]
    exact (Undotted.of_no_slash absent).prepend (by decide)
  · decide

/-- A link from any page to any other one leads there. The climb goes to the root of the site, from
which every stem is a path. -/
theorem resolve_of_mem_stems (coherent : graph.Coherent)
    (bare : ∀ shortName ∈ graph.shortNames, '/' ∉ shortName.toList) (format : PageFormat)
    {target : String} (isTarget : target ∈ graph.stems) (source : String) :
    Page.resolve source (Page.relativeLink source target format.extension) =
      target ++ "." ++ format.extension := by
  apply Page.resolve_relativeLink
  have ending : Undotted ('.' :: (format.extension.toList ++ ['/'])) := by
    cases format <;> decide
  simpa using (undotted_of_mem_stems coherent bare isTarget).append ending (by simp)

end TadsReference.Graph
