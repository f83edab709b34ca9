import TadsReference.Proofs.Page.Stems

/-!
# References on JSON pages

A value names a page in a field for pages, in a location, and in a list of included files. Whatever
a page names in the graph of a library is there.
-/

namespace TadsReference

namespace JsonValue

/-- The page that a text of a list names, if it is the short name of a file. -/
def filePage? : JsonValue → Option String
  | string shortName => some (Page.ofFile shortName)
  | _ => none

/-- The pages that a field names by itself. A field for a page that holds no stem names none, which
is a reference all the same. -/
def fieldTargets (name : String) (value : JsonValue) : List (Option String) :=
  match name, value with
  | "page", string stem => [some stem]
  | "page", _ => [none]
  | "file", file => [file.filePage?]
  | "includes", array items => items.map filePage?
  | _, _ => []

/-- A value names a page, or has a field for a page that is empty. -/
inductive Names : JsonValue → Option String → Prop where
  | field {fields : List (String × JsonValue)} {name : String} {value : JsonValue}
      {target : Option String} (isField : (name, value) ∈ fields)
      (isTarget : target ∈ fieldTargets name value) : Names (object fields) target
  | inField {fields : List (String × JsonValue)} {name : String} {value : JsonValue}
      {target : Option String} (isField : (name, value) ∈ fields) (names : Names value target) :
      Names (object fields) target
  | inItem {items : List JsonValue} {item : JsonValue} {target : Option String}
      (isItem : item ∈ items) (names : Names item target) : Names (array items) target

/-- All that a value names is among some pages. -/
def Within (stems : List String) (value : JsonValue) : Prop :=
  ∀ target, value.Names target → ∃ stem ∈ stems, target = some stem

/-- All that a field names is among some pages. -/
def FieldWithin (stems : List String) (name : String) (value : JsonValue) : Prop :=
  (∀ target ∈ fieldTargets name value, ∃ stem ∈ stems, target = some stem) ∧ value.Within stems

variable {stems : List String}

@[simp] theorem within_null : null.Within stems := by
  rintro _ ⟨⟩

@[simp] theorem within_bool {value : Bool} : (bool value).Within stems := by
  rintro _ ⟨⟩

@[simp] theorem within_number {value : Nat} : (number value).Within stems := by
  rintro _ ⟨⟩

@[simp] theorem within_string {value : String} : (string value).Within stems := by
  rintro _ ⟨⟩

theorem within_ofList {Item : Type} {encode : Item → JsonValue} {items : List Item}
    (each : ∀ item ∈ items, (encode item).Within stems) : (ofList encode items).Within stems := by
  intro target names
  cases names with
  | inItem isEncoded names =>
      rcases List.mem_map.mp isEncoded with ⟨item, isItem, rfl⟩
      exact each item isItem target names

@[simp] theorem within_ofStrings {texts : List String} : (ofStrings texts).Within stems :=
  within_ofList fun _ _ => within_string

@[simp] theorem within_ofOption_string {text : Option String} :
    (ofOption string text).Within stems := by
  cases text with
  | none => exact within_null
  | some text => exact within_string

theorem within_ofFields {fields : List (String × JsonValue)}
    (each : ∀ field ∈ fields, FieldWithin stems field.1 field.2) :
    (ofFields fields).Within stems := by
  intro target names
  cases names with
  | field isField isTarget =>
      exact (each _ ((List.mergeSort_perm ..).mem_iff.mp isField)).1 target isTarget
  | inField isField names =>
      exact (each _ ((List.mergeSort_perm ..).mem_iff.mp isField)).2 target names

/-- A field of any other name is only as good as its value. -/
theorem fieldWithin_iff {name : String} {value : JsonValue} (page : name ≠ "page")
    (file : name ≠ "file") (includes : name ≠ "includes") :
    FieldWithin stems name value ↔ value.Within stems := by
  have none : fieldTargets name value = [] := by
    unfold fieldTargets
    split <;> first | contradiction | rfl
  simp [FieldWithin, none]

end JsonValue

namespace JsonPage

open JsonValue

variable {graph : Graph} {id : DeclId}

theorem within_location {location : Location} {stems : List String}
    (known : Page.ofFile location.file ∈ stems) : (JsonPage.location location).Within stems := by
  apply within_ofFields
  simp only [List.forall_mem_cons, List.not_mem_nil, false_imp_iff, implies_true, and_true]
  constructor
  · simpa [FieldWithin, fieldTargets, filePage?] using known
  · simp [fieldWithin_iff]

/-- A field for the page of a declaration names a page of the site if the declaration is shown at
all. -/
theorem fieldWithin_page (shown : graph.Shown id) :
    FieldWithin graph.stems "page" (ofOption .string (graph.page? id)) := by
  rcases shown.page with ⟨stem, isStem, page⟩
  simpa [FieldWithin, fieldTargets, page, ofOption] using isStem

section Pages

variable (coherent : graph.Coherent)

include coherent

theorem within_source (inside : id < graph.decls.size) :
    (location (graph.decl id).location).Within graph.stems :=
  within_location (coherent.location_mem_stems inside)

theorem within_referenceWith (shown : graph.Shown id) {more : List (String × JsonValue)}
    (others : ∀ field ∈ more, FieldWithin graph.stems field.1 field.2) :
    (referenceWith graph id more).Within graph.stems := by
  have source := within_source coherent shown.inside
  apply within_ofFields
  simpa [fieldWithin_iff, fieldWithin_page shown, source] using others

theorem within_reference (shown : graph.Shown id) : (reference graph id).Within graph.stems :=
  within_referenceWith coherent shown (by simp)

theorem within_references {ids : List DeclId} (shown : ∀ id ∈ ids, graph.Shown id) :
    (references graph ids).Within graph.stems :=
  within_ofList fun id isListed => within_reference coherent (shown id isListed)

/-- The details of a member name where it stands and where it is modified. Those places are in files
of the graph. -/
theorem within_memberDetails (inside : id < graph.decls.size) :
    (memberDetails (graph.decl id)).Within graph.stems := by
  have source := within_source coherent inside
  apply within_ofFields
  simp only [List.forall_mem_append]
  refine ⟨⟨by simp [fieldWithin_iff, source], ?_⟩, ?_⟩
  · split <;> simp [fieldWithin_iff]
  · split
    · next details isMember =>
        have modified : (ofList location details.modifiedAt).Within graph.stems := by
          apply within_ofList
          intro place isModified
          exact within_location (coherent.memberLocation_mem_stems isMember isModified)
        simp [fieldWithin_iff, modified]
    · simp

theorem within_members {ids : List DeclId} (shown : ∀ id ∈ ids, graph.Shown id) :
    (members graph ids).Within graph.stems :=
  within_ofList fun id isListed => within_memberDetails coherent (shown id isListed).inside

theorem within_inherited (kind : MemberKind) : (inherited graph id kind).Within graph.stems := by
  apply within_ofList
  intro group isGroup
  have shown := coherent.shown_of_mem_ancestors (Graph.mem_of_mem_inheritedFrom isGroup).1
  apply within_ofFields
  simp [fieldWithin_iff, within_reference coherent shown]

theorem within_message (inside : id < graph.decls.size) :
    (message graph id).Within graph.stems := by
  have source := within_source coherent inside
  apply within_ofFields
  cases (graph.decl id).kind <;> simp [fieldWithin_iff, source]

/-! ### Pages of declarations -/

/-- What a body shows are members that are shown on some page, its own or inherited. -/
theorem within_bodyFields (isPaged : id ∈ graph.paged) {body : Body}
    (isBody : (graph.decl id).body? = some body) :
    ∀ field ∈ bodyFields graph id body, FieldWithin graph.stems field.1 field.2 := by
  have own (kind : MemberKind) : (members graph (body.members kind)).Within graph.stems := by
    apply within_members coherent
    intro member isMember
    apply coherent.shown_of_mem_members (coherent.kindLabel_of_mem_paged isPaged)
    simpa [Decl.members, isBody] using isMember
  have properties := own .property
  have methods := own .method
  simp only [Body.members] at properties methods
  simp [bodyFields, fieldWithin_iff, properties, methods, within_inherited coherent]

theorem within_base {base : BaseRef} (isBase : base ∈ (graph.decl id).bases) :
    (JsonPage.base graph base).Within graph.stems := by
  cases base with
  | name name =>
      apply within_ofFields
      simp [fieldWithin_iff]
  | decl parent => exact within_reference coherent (coherent.shown_of_base isBase)

/-- A class or an object names its bases and the files in which it is modified. -/
theorem within_blockFields {block : Block} (isBlock : (graph.decl id).block? = some block) :
    ∀ field ∈ blockFields graph id block, FieldWithin graph.stems field.1 field.2 := by
  have bases : (ofList (JsonPage.base graph) block.bases).Within graph.stems := by
    apply within_ofList
    intro base isBase
    have ofDecl : base ∈ (graph.decl id).bases := by simpa [Decl.bases, isBlock] using isBase
    exact within_base coherent ofDecl
  have modified : (ofList location block.modifiedAt).Within graph.stems := by
    apply within_ofList
    intro place isModified
    exact within_location (coherent.blockLocation_mem_stems isBlock isModified)
  have notes : (ofList (fun note : Location × String =>
      ofFields [("source", location note.1), ("description", .string note.2)])
        (graph.modificationNotes id)).Within graph.stems := by
    apply within_ofList
    intro note isNote
    have source := within_location (coherent.noteLocation_mem_stems isNote)
    apply within_ofFields
    simp [fieldWithin_iff, source]
  simp [blockFields, fieldWithin_iff, bases, modified, notes]

theorem within_matchClass (shown : graph.Shown id) :
    (matchClass graph id).Within graph.stems := by
  apply within_referenceWith coherent shown
  split <;> simp [fieldWithin_iff]

/-- Each kind of declaration has fields of its own, and what they name is shown on some page. -/
theorem within_kindFields :
    ∀ field ∈ kindFields graph (graph.decl id).kind,
      FieldWithin graph.stems field.1 field.2 := by
  unfold kindFields
  split
  · next details isKind =>
      have isClass : (graph.decl id).class? = some details := by simp [Decl.class?, isKind]
      have subclasses : (references graph details.subclasses).Within graph.stems :=
        within_references coherent fun _ => coherent.shown_of_mem_subclasses isClass
      have objects : (references graph details.globalObjects).Within graph.stems :=
        within_references coherent fun _ => coherent.shown_of_mem_globalObjects isClass
      simp only [List.forall_mem_append]
      refine ⟨by simp [fieldWithin_iff, subclasses, objects], ?_⟩
      split
      · next grammar isRule =>
          have isProduction : (graph.decl id).production? = some grammar.production := by
            simp [Decl.production?, isClass, isRule]
          have production :=
            within_reference coherent (coherent.shown_of_cites (.rule id isProduction))
          simp [fieldWithin_iff, production]
      · simp
  · simp [fieldWithin_iff]
  · next details isKind =>
      have rules : (ofList (matchClass graph) details.matchClasses).Within graph.stems := by
        apply within_ofList
        intro rule isRule
        exact within_matchClass coherent (coherent.shown_of_mem_matchClasses isKind isRule)
      simp [fieldWithin_iff, rules]
  · simp

/-- The page of a declaration names pages of the site only. It is put together from fields each of
which names such pages only. -/
theorem within_declarationValue (isPaged : id ∈ graph.paged) :
    (declarationValue graph id).Within graph.stems := by
  have source := within_source coherent (coherent.shown_of_mem_paged isPaged).inside
  apply within_ofFields
  simp only [List.forall_mem_append]
  refine ⟨⟨⟨by simp [fieldWithin_iff, source], ?_⟩, ?_⟩, within_kindFields coherent⟩
  · cases isBody : (graph.decl id).body? with
    | none => simp
    | some body => exact within_bodyFields coherent isPaged isBody
  · cases isBlock : (graph.decl id).block? with
    | none => simp
    | some block => exact within_blockFields coherent isBlock

/-! ### Pages of files and the index -/

/-- The page of a file names pages of the site only. The lists of the file hold shown declarations
only, and what it includes are other files of the site. -/
theorem within_fileValue {file : FileRecord} (isFile : file ∈ graph.files) :
    (fileValue graph file).Within graph.stems := by
  have listed : ∀ id ∈ file.listed, graph.Shown id := fun id isListed =>
    coherent.shown_of_cites (.file file isFile isListed)
  simp only [FileRecord.listed, List.mem_append, or_imp, forall_and] at listed
  have classes := within_references coherent listed.1.1.1.1
  have objects := within_references coherent listed.1.1.1.2
  have functions := within_members coherent listed.1.1.2
  have macros : (ofList (fun id => macroDetails (graph.decl id)) file.macros).Within
      graph.stems := by
    apply within_ofList
    intro id _
    apply within_ofFields
    cases (graph.decl id).parameters? <;> simp [symbolFields, fieldWithin_iff, ofOption]
  have enums : (ofList (enumGroup graph) file.enumGroups).Within graph.stems := by
    apply within_ofList
    intro group _
    apply within_ofFields
    simp [fieldWithin_iff]
  have templates : (ofList (fun id => templateDetails (graph.decl id)) file.templates).Within
      graph.stems := by
    apply within_ofList
    intro id _
    apply within_ofFields
    simp [symbolFields, fieldWithin_iff]
  have includes : FieldWithin graph.stems "includes" (ofStrings file.source.includes) := by
    refine ⟨?_, within_ofStrings⟩
    intro target isTarget
    simp only [fieldTargets, ofStrings, ofList, List.map_map, List.mem_map] at isTarget
    rcases isTarget with ⟨name, isIncluded, rfl⟩
    exact ⟨_, Graph.ofFile_mem_stems (coherent.included file isFile name isIncluded), rfl⟩
  apply within_ofFields
  simp [fieldWithin_iff, includes, classes, objects, functions, macros, enums, templates]

/-- The index names pages of the site only. Each of its lists is made of declarations that are shown
on some page. -/
theorem within_indexValue (info : SiteInfo) : (indexValue graph info).Within graph.stems := by
  have files : (ofList indexFile graph.files).Within graph.stems := by
    apply within_ofList
    intro file _
    apply within_ofFields
    simp [fieldWithin_iff]
  have indexed : ∀ id ∈ graph.indexed, graph.Shown id := fun _ => coherent.shown_of_mem_indexed
  simp only [Graph.indexed, List.mem_append, or_imp, forall_and] at indexed
  obtain ⟨⟨⟨⟨⟨⟨⟨⟨classes, actions⟩, productions⟩, objects⟩, functions⟩, macros⟩, enums⟩,
    templates⟩, messages⟩ := indexed
  have messages : (ofList (message graph) graph.messages).Within graph.stems :=
    within_ofList fun id isListed => within_message coherent (messages id isListed).inside
  have lists {ids : List DeclId} (shown : ∀ id ∈ ids, graph.Shown id) :
      (references graph ids).Within graph.stems := within_references coherent shown
  apply within_ofFields
  simp [fieldWithin_iff, files, lists classes, lists actions, lists productions, lists objects,
    lists functions, lists macros, lists enums, lists templates, messages]

end Pages

end JsonPage

end TadsReference
