import TadsReference.Proofs.Graph.Listings
import TadsReference.Proofs.Graph.Skeletons

/-!
# What recording does to the files

Seen from the records of the files and from the enumeration groups, recording a file is a sequence
of seven kinds of steps: `filing_record`. No step touches the record of another file, and every
declaration and every group that a file lists stands in that file.
-/

namespace TadsReference

open Relation

/-- The lists of declarations that a file keeps while it is read. -/
inductive FileListing where
  | classes
  | objects
  | functions
  | macros
  | templates
deriving DecidableEq

namespace FileListing

/-- The list that the graph keeps of the same kind of declarations. -/
def listing : FileListing → Listing
  | classes => .classes
  | objects => .objects
  | functions => .functions
  | macros => .macros
  | templates => .templates

theorem label_injective {left right : FileListing}
    (same : left.listing.label = right.listing.label) : left = right := by
  cases left <;> cases right <;> first | rfl | simp [listing, Listing.label] at same

end FileListing

namespace FileRecord

/-- What a file lists of a kind. -/
def list (file : FileRecord) : FileListing → List DeclId
  | .classes => file.classes
  | .objects => file.objects
  | .functions => file.functions
  | .macros => file.macros
  | .templates => file.templates

/-- The record of a file with one more declaration in a list. -/
def enlist (listing : FileListing) (id : DeclId) (file : FileRecord) : FileRecord :=
  match listing with
  | .classes => { file with classes := file.classes ++ [id] }
  | .objects => { file with objects := file.objects ++ [id] }
  | .functions => { file with functions := file.functions ++ [id] }
  | .macros => { file with macros := file.macros ++ [id] }
  | .templates => { file with templates := file.templates ++ [id] }

section Enlist

variable (listing : FileListing) (id : DeclId) (file : FileRecord)

@[simp]
theorem source_enlist : (file.enlist listing id).source = file.source := by
  cases listing <;> rfl

@[simp]
theorem enumGroups_enlist : (file.enlist listing id).enumGroups = file.enumGroups := by
  cases listing <;> rfl

@[simp]
theorem enums_enlist : (file.enlist listing id).enums = file.enums := by
  cases listing <;> rfl

theorem list_enlist (other : FileListing) :
    (file.enlist listing id).list other =
      file.list other ++ if other = listing then [id] else [] := by
  cases listing <;> cases other <;> simp [enlist, list]

end Enlist

end FileRecord

namespace Graph

variable {graph before middle after : Graph} {index position : Nat} {id : DeclId}
  {change : FileRecord → FileRecord}

/-! ### Records of files -/

theorem file_modifyFile_of_ne (other : position ≠ index) :
    (graph.modifyFile index change).file position = graph.file position := by
  simp [file, modifyFile, Ne.symm other]

theorem file_of_files_eq (files : after.files = before.files) (position : Nat) :
    after.file position = before.file position := by
  simp only [file, files]

theorem group_of_groups_eq (groups : after.groups = before.groups) (group : GroupId) :
    after.group group = before.group group := by
  simp only [Graph.group, groups]

theorem file_source_of_sources
    (sources : after.files.map (·.source) = before.files.map (·.source)) (position : Nat) :
    (after.file position).source = (before.file position).source := by
  have same := congrArg (·[position]?) sources
  simp only [List.getElem?_map] at same
  simp only [file]
  cases isAfter : after.files[position]? <;> cases isBefore : before.files[position]? <;>
    simp_all

/-! ### The constants of a group -/

section RecordEnum

variable (graph : Graph) (index : Nat) (description : String) (location : Location)
  (names : List String)

theorem size_recordEnum :
    (graph.recordEnum index description location names).decls.size =
      graph.decls.size + names.length := by
  simp [recordEnum, modifyFile]

theorem decl_recordEnum_of_lt (inside : id < graph.decls.size) :
    (graph.recordEnum index description location names).decl id = graph.decl id := by
  simp [decl, recordEnum, modifyFile, Array.getElem?_append, inside]

/-- What a group adds are constants that name it. -/
theorem exists_decl_recordEnum (outside : graph.decls.size ≤ id)
    (inside : id < (graph.recordEnum index description location names).decls.size) :
    ∃ name, (graph.recordEnum index description location names).decl id =
      ⟨name, "", location, .enumMember graph.groups.size⟩ := by
  have position : id - graph.decls.size < names.length := by
    rw [size_recordEnum] at inside
    exact Nat.sub_lt_left_of_lt_add outside inside
  refine ⟨names[id - graph.decls.size], ?_⟩
  simp [decl, recordEnum, modifyFile, Array.getElem?_append, Nat.not_lt_of_le outside, position]

/-- The members of a new group are the numbers of the constants that are declared behind it, and the
other groups stay as they are. -/
theorem group_recordEnum (group : GroupId) :
    (graph.recordEnum index description location names).group group =
      if group = graph.groups.size then
        { description, location, members := (List.range names.length).map (graph.nextId + ·) }
      else graph.group group := by
  simp only [Graph.group, recordEnum, modifyFile, Array.getD_eq_getD_getElem?,
    Array.getElem?_push]
  split <;> rfl

end RecordEnum

/-! ### The steps -/

/-- A step of recording the file at a position. -/
inductive FilingStep (index : Nat) (before : Graph) : Graph → Prop where
  /-- The name of a page is taken. -/
  | aside {after : Graph} (decls : after.decls = before.decls) (files : after.files = before.files)
      (groups : after.groups = before.groups) (enumGroups : after.enumGroups = before.enumGroups)
      (enums : after.enums = before.enums) : FilingStep index before after
  /-- A declaration is added that no file lists. -/
  | loose {after : Graph} (decl : Decl) (bare : decl.Bare)
      (unlisted : ∀ listing : FileListing, decl.kindLabel ≠ listing.listing.label)
      (noConstant : decl.enumGroup? = none) (decls : after.decls = before.decls.push decl)
      (files : after.files = before.files) (groups : after.groups = before.groups)
      (enumGroups : after.enumGroups = before.enumGroups) (enums : after.enums = before.enums) :
      FilingStep index before after
  /-- A declaration is added that the file lists. -/
  | enlist {after : Graph} (listing : FileListing) (decl : Decl) (bare : decl.Bare)
      (label : decl.kindLabel = listing.listing.label)
      (located : decl.location.file = (before.file index).source.shortName)
      (rule : ∀ production, decl.production? = some production →
        (before.decl production).kindLabel = "grammar")
      (decls : after.decls = before.decls.push decl)
      (files : after.files = before.files.modify index (FileRecord.enlist listing before.nextId))
      (groups : after.groups = before.groups)
      (enumGroups : after.enumGroups = before.enumGroups) (enums : after.enums = before.enums) :
      FilingStep index before after
  /-- A member is added to a block. -/
  | member (owner : DeclId) (kind : MemberKind) (decl : Decl) (unlinked : decl.Unlinked)
      (owned : decl.owner? = some owner) (kindOf : decl.memberKind? = some kind)
      (takes : (before.decl owner).takesMembers = true) :
      FilingStep index before (before.addMember owner kind decl)
  /-- A class joins its production. -/
  | join (production rule : DeclId)
      (isRule : (before.decl rule).production? = some production) :
      FilingStep index before (before.modifyDecl production (Decl.withRule rule))
  /-- The file is described. -/
  | describe (text : String) :
      FilingStep index before
        (before.modifyFile index fun file => { file with description := text })
  /-- A group is added with its constants. -/
  | group (description : String) (location : Location) (names : List String)
      (located : location.file = (before.file index).source.shortName) :
      FilingStep index before (before.recordEnum index description location names)

/-! ### What every step leaves alone -/

/-- A graph grows while the file at a position is recorded: declarations keep their skeletons, and
groups, the list of constants and the records of other files stay as they are. -/
structure GrowsAt (index : Nat) (before after : Graph) : Prop where
  size : before.decls.size ≤ after.decls.size
  skeleton : ∀ id < before.decls.size, (after.decl id).skeleton = (before.decl id).skeleton
  groupCount : before.groups.size ≤ after.groups.size
  group : ∀ group < before.groups.size, after.group group = before.group group
  enums : after.enums = before.enums
  sources : after.files.map (·.source) = before.files.map (·.source)
  others : ∀ position, position ≠ index → after.file position = before.file position

namespace GrowsAt

theorem refl (index : Nat) (graph : Graph) : GrowsAt index graph graph where
  size := Nat.le_refl _
  skeleton _ _ := rfl
  groupCount := Nat.le_refl _
  group _ _ := rfl
  enums := rfl
  sources := rfl
  others _ _ := rfl

/-- What has grown twice at one position has grown once, since no step touches the record of another
file. -/
theorem trans (first : GrowsAt index before middle) (second : GrowsAt index middle after) :
    GrowsAt index before after where
  size := Nat.le_trans first.size second.size
  skeleton id inside :=
    (second.skeleton id (Nat.lt_of_lt_of_le inside first.size)).trans (first.skeleton id inside)
  groupCount := Nat.le_trans first.groupCount second.groupCount
  group group inside :=
    (second.group group (Nat.lt_of_lt_of_le inside first.groupCount)).trans
      (first.group group inside)
  enums := second.enums.trans first.enums
  sources := second.sources.trans first.sources
  others position other := (second.others position other).trans (first.others position other)

/-- Declaring something touches no group and no record of another file, whatever else the step notes
of it. -/
theorem push {decl : Decl} (decls : after.decls = before.decls.push decl)
    (groups : after.groups = before.groups) (enums : after.enums = before.enums)
    (sources : after.files.map (·.source) = before.files.map (·.source))
    (others : ∀ position, position ≠ index → after.file position = before.file position) :
    GrowsAt index before after where
  size := by
    rw [size_of_push decls]
    exact Nat.le_succ _
  skeleton id inside := by
    have other : id ≠ before.nextId := Nat.ne_of_lt inside
    rw [decl_of_push decls, if_neg other]
  groupCount := Nat.le_of_eq (congrArg Array.size groups.symm)
  group group _ := group_of_groups_eq groups group
  enums := enums
  sources := sources
  others := others

/-- A change that leaves the skeletons of declarations alone is one that no file and no group can
see. -/
theorem modifyDecl {change : Decl → Decl}
    (skeleton : ∀ decl, (change decl).skeleton = decl.skeleton)
    (graph : Graph) (id : DeclId) : GrowsAt index graph (graph.modifyDecl id change) where
  size := by simp [Graph.modifyDecl]
  skeleton other _ := Keeps.modifyDecl skeleton graph id other
  groupCount := Nat.le_refl _
  group _ _ := rfl
  enums := rfl
  sources := rfl
  others _ _ := rfl

theorem modifyFile (source : ∀ file, (change file).source = file.source) (graph : Graph) :
    GrowsAt index graph (graph.modifyFile index change) where
  size := Nat.le_refl _
  skeleton _ _ := rfl
  groupCount := Nat.le_refl _
  group _ _ := rfl
  enums := rfl
  sources := sources_modifyFile source graph index
  others _ other := file_modifyFile_of_ne other

/-- Each of the seven kinds of steps touches only the record of the file that is read. The files are
those of the graph before with this one record changed, and the groups are those of before with one
more at most. -/
theorem of_step (step : FilingStep index before after) : GrowsAt index before after := by
  cases step with
  | aside decls files groups enumGroups enums =>
      constructor
      · rw [decls]
      · intro id _
        rw [decl_of_decls_eq decls]
      · rw [groups]
      · exact fun group _ => group_of_groups_eq groups group
      · exact enums
      · rw [files]
      · exact fun position _ => file_of_files_eq files position
  | loose decl bare unlisted noConstant decls files groups enumGroups enums =>
      exact push decls groups enums (by rw [files])
        fun position _ => file_of_files_eq files position
  | enlist listing decl bare label located rule decls files groups enumGroups enums =>
      have filed : after.files =
          (before.modifyFile index (FileRecord.enlist listing before.nextId)).files := files
      apply push decls groups enums
      · rw [filed]
        exact sources_modifyFile (FileRecord.source_enlist listing before.nextId) before index
      · intro position other
        rw [file_of_files_eq filed, file_modifyFile_of_ne other]
  | member owner kind decl unlinked owned kindOf takes =>
      have pushed : GrowsAt index before (before.addDecl decl) :=
        push rfl rfl rfl rfl fun _ _ => rfl
      exact pushed.trans (modifyDecl (fun holder => Decl.skeleton_mapBody holder _) _ owner)
  | join production rule isRule => exact modifyDecl (Decl.skeleton_withRule · rule) _ _
  | describe text =>
      apply modifyFile
      exact fun _ => rfl
  | group description location names located =>
      constructor
      · rw [size_recordEnum]
        exact Nat.le_add_right _ _
      · intro id inside
        rw [decl_recordEnum_of_lt _ _ _ _ _ inside]
      · simp [recordEnum, Graph.modifyFile]
      · intro group inside
        rw [group_recordEnum, if_neg (Nat.ne_of_lt inside)]
      · rfl
      · apply sources_modifyFile
        exact fun _ => rfl
      · intro position other
        exact file_modifyFile_of_ne other

theorem of_steps (steps : ReflTransGen (FilingStep index) before after) :
    GrowsAt index before after := by
  induction steps with
  | refl => exact refl index before
  | tail _ step ih => exact ih.trans (of_step step)

theorem fileSource (grows : GrowsAt index before after) (position : Nat) :
    (after.file position).source = (before.file position).source :=
  file_source_of_sources grows.sources position

end GrowsAt

/-! ### Recording in steps -/

theorem FilingStep.takeName (index : Nat) (graph : Graph) (name : String) :
    FilingStep index graph (graph.takeName name).2 :=
  .aside rfl rfl rfl rfl rfl

section Add

variable {decl : Decl} (bare : decl.Bare)
  (located : decl.location.file = (graph.file index).source.shortName)

include bare located

theorem FilingStep.addClass (label : decl.kindLabel = "class")
    (rule : ∀ production, decl.production? = some production →
      (graph.decl production).kindLabel = "grammar") :
    FilingStep index graph (graph.addClass index decl) :=
  .enlist .classes decl bare label located rule rfl rfl rfl rfl rfl

theorem FilingStep.addObject (label : decl.kindLabel = "object")
    (noRule : decl.production? = none) : FilingStep index graph (graph.addObject index decl) :=
  .enlist .objects decl bare label located (by simp [noRule]) rfl rfl rfl rfl rfl

theorem FilingStep.addFunction (label : decl.kindLabel = "function")
    (noRule : decl.production? = none) : FilingStep index graph (graph.addFunction index decl) :=
  .enlist .functions decl bare label located (by simp [noRule]) rfl rfl rfl rfl rfl

theorem FilingStep.addMacro (label : decl.kindLabel = "macro")
    (noRule : decl.production? = none) : FilingStep index graph (graph.addMacro index decl) :=
  .enlist .macros decl bare label located (by simp [noRule]) rfl rfl rfl rfl rfl

theorem FilingStep.addTemplate (label : decl.kindLabel = "template")
    (noRule : decl.production? = none) : FilingStep index graph (graph.addTemplate index decl) :=
  .enlist .templates decl bare label located (by simp [noRule]) rfl rfl rfl rfl rfl

end Add

/-- A production that is missing is added without being listed by the file. The step needs to know
that the graph lists all productions, since the one that is found must be one. -/
theorem filing_requireProduction (complete : graph.Complete) (index : Nat) (name : String)
    (location : Location) :
    ReflTransGen (FilingStep index) graph (graph.requireProduction name location).2 ∧
      ((graph.requireProduction name location).2.decl
        (graph.requireProduction name location).1).kindLabel = "grammar" := by
  rw [requireProduction]
  split
  · next found =>
      have listed := List.mem_of_find?_eq_some found
      exact ⟨.refl, ((complete.mem_iff .productions _).mp listed).2⟩
  · constructor
    · apply ReflTransGen.tail (.single (FilingStep.takeName index graph name))
      refine .loose _ ?_ ?_ rfl rfl rfl rfl rfl rfl
      · apply Decl.bare_of_block?_eq_none rfl rfl rfl _ rfl
        rintro (_ | _) <;> rfl
      · rintro (_ | _ | _ | _ | _) <;> simp [Decl.kindLabel, FileListing.listing, Listing.label]
    · rw [decl_newest_of_push rfl]
      rfl

/-- A class is recorded in two or three steps: its production is required if it is a rule, its page
is named, and then it is declared and listed by the file. -/
theorem filing_recordClass (complete : graph.Complete) {location : Location}
    (located : location.file = (graph.file index).source.shortName) (name description : String)
    (head : ClassHead) :
    ReflTransGen (FilingStep index) graph
      (graph.recordClass index name description location head) := by
  have taken := FilingStep.takeName index graph name
  have completeNamed := complete.of_step (RecordStep.takeName graph name)
  rcases takes : graph.takeName name with ⟨fileName, named⟩
  rw [takes] at taken completeNamed
  rw [← (GrowsAt.of_step taken).fileSource] at located
  simp only [recordClass, takes]
  split
  · exact .tail (.single taken) (.addClass (Decl.bare_class ..) located rfl (by rintro _ ⟨⟩))
  · next rule _ =>
      rcases filing_requireProduction completeNamed index (productionName name) location
        with ⟨required, isGrammar⟩
      rcases requires : named.requireProduction (productionName name) location
        with ⟨production, joined⟩
      rw [requires] at required isGrammar
      rw [← (GrowsAt.of_steps required).fileSource] at located
      have added : FilingStep index joined (joined.addClass index
          ⟨name, description, location, .classDecl
            { block := { body := { fileName }, bases := head.bases.map .name }
              intrinsic := head.intrinsic
              action := head.action
              grammar := some ⟨rule, production⟩
              macroCall := head.macroCall }⟩) := by
        refine .addClass (Decl.bare_class ..) located rfl ?_
        rintro _ ⟨⟩
        exact isGrammar
      apply ReflTransGen.tail (.tail (.head taken required) added)
      apply FilingStep.join
      rw [decl_addClass, if_pos rfl]
      rfl

/-- Every kind of declaration is recorded in such steps. Those that a page shows by itself are
listed by the file, while `modify` blocks and members are declared without being listed. -/
theorem filing_declare {state : Recording} (last : state.OwnerIsLast)
    (complete : state.graph.Complete) {location : Location}
    (located : location.file = (state.graph.file index).source.shortName)
    (name description : String) (declared : Declared) :
    ReflTransGen (FilingStep index) state.graph
      (state.declare index name description location declared).graph := by
  cases declared with
  | classBlock head => exact filing_recordClass complete located name description head
  | objectBlock head =>
      have taken := FilingStep.takeName index state.graph name
      apply ReflTransGen.tail (.single taken)
      exact .addObject (Decl.bare_object ..) located rfl rfl
  | modifyBlock =>
      refine .single (.loose _ ?_ ?_ rfl rfl rfl rfl rfl rfl)
      · apply Decl.bare_of_block?_eq_none rfl rfl rfl _ rfl
        rintro (_ | _) <;> rfl
      · rintro (_ | _ | _ | _ | _) <;> simp [Decl.kindLabel, FileListing.listing, Listing.label]
  | property interfaceOnly =>
      simp only [Recording.declare]
      split
      · exact .refl
      · next owner isOwner =>
          refine .single (.member owner .property _ ?_ rfl rfl (last owner isOwner).1)
          constructor <;> first | rfl | simp [Decl.bases, Decl.block?]
  | method parameters interfaceOnly =>
      simp only [Recording.declare]
      split
      · exact .refl
      · next owner isOwner =>
          refine .single (.member owner .method _ ?_ rfl rfl (last owner isOwner).1)
          constructor <;> first | rfl | simp [Decl.bases, Decl.block?]
  | function parameters =>
      refine .single (.addFunction ?_ located rfl rfl)
      apply Decl.bare_of_block?_eq_none rfl rfl rfl _ rfl
      rintro (_ | _) <;> rfl
  | macroDefinition parameters body =>
      refine .single (.addMacro ?_ located rfl rfl)
      apply Decl.bare_of_block?_eq_none rfl rfl rfl _ rfl
      rintro (_ | _) <;> rfl
  | template body =>
      refine .single (.addTemplate ?_ located rfl rfl)
      apply Decl.bare_of_block?_eq_none rfl rfl rfl _ rfl
      rintro (_ | _) <;> rfl
  | message kind text =>
      refine .single (.loose _ ?_ ?_ rfl rfl rfl rfl rfl rfl)
      · apply Decl.bare_of_block?_eq_none rfl rfl rfl _ rfl
        rintro (_ | _) <;> rfl
      · rintro (_ | _ | _ | _ | _) <;> simp [Decl.kindLabel, FileListing.listing, Listing.label]

/-- An entry is recorded in such steps. A description of the file is a change of its record that
leaves the lists alone. -/
theorem filing_add {state : Recording} (last : state.OwnerIsLast)
    (complete : state.graph.Complete) {shortName : String}
    (named : shortName = (state.graph.file index).source.shortName) (entry : Entry) :
    ReflTransGen (FilingStep index) state.graph (state.add index shortName entry).graph := by
  cases entry with
  | fileDescription text => exact .single (.describe text)
  | declaration name description line declared =>
      exact filing_declare last complete named name description declared
  | enumGroup description line members => exact .single (.group description _ members named)

/-- The entries of a file are recorded in such steps one after the other. What recording needs to
know, that the last block is the owner and that productions are listed, is kept by each entry. -/
theorem filing_foldl {state : Recording} (last : state.OwnerIsLast)
    (complete : state.graph.Complete) {shortName : String}
    (named : shortName = (state.graph.file index).source.shortName) (entries : List Entry) :
    ReflTransGen (FilingStep index) state.graph
      (entries.foldl (Recording.add index shortName) state).graph := by
  induction entries generalizing state with
  | nil => exact .refl
  | cons entry entries ih =>
      have steps := filing_add last complete named entry
      rcases Recording.goesOn_add last index shortName entry with ⟨recorded, lastNext⟩
      rw [← (GrowsAt.of_steps steps).fileSource] at named
      exact steps.trans (ih lastNext (complete.of_steps recorded) named)

/-- Recording the entries of a file is a sequence of such steps. -/
theorem filing_record (complete : graph.Complete) (index : Nat) (entries : List Entry) :
    ReflTransGen (FilingStep index) graph (graph.record index entries) := by
  have start : Recording.OwnerIsLast ⟨graph, none⟩ := by
    rintro _ ⟨⟩
  exact filing_foldl start complete rfl entries

/-- Reading a file is recording its entries, so it is a sequence of such steps at the position of
the file. -/
theorem filing_read (complete : graph.Complete) (reading : FileReading) :
    ReflTransGen (FilingStep reading.index) graph (graph.read reading) :=
  filing_record complete reading.index _

end Graph

end TadsReference
