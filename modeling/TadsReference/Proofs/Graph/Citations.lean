import TadsReference.Proofs.Entry.BlockNames
import TadsReference.Proofs.Graph.PageNames

/-!
# Citations

Grammar rules, files, enumeration groups and the list of productions cite declarations. While files
are read, all that is cited is a declaration that a page shows by itself, and every declaration is
placed in one of the files: `anchored_readAll`.
-/

namespace TadsReference

namespace Decl

/-- Whether a page shows a declaration by itself. `modify` blocks and members are shown on the pages
of other declarations. -/
def standsAlone (decl : Decl) : Bool :=
  !(["modify", "method", "property"].contains decl.kindLabel)

/-- The production of a class that is a grammar rule. -/
def production? (decl : Decl) : Option DeclId :=
  (decl.class?.bind (·.grammar)).map (·.production)

/-- A declaration stands in one of several files, and its page, if it has one of its own, has a name
that can stand in an address. -/
structure Placed (files : List String) (decl : Decl) : Prop where
  file : decl.location.file ∈ files
  pageName : ∀ name, decl.pageName? = some name → Undotted name.toList

end Decl

namespace FileRecord

/-- The declarations that a file lists. -/
def listed (file : FileRecord) : List DeclId :=
  file.classes ++ file.objects ++ file.functions ++ file.macros ++ file.templates

end FileRecord

namespace Graph

variable {graph before middle after : Graph} {id : DeclId}

/-- The names of all files, as locations give them. -/
def shortNames (graph : Graph) : List String :=
  graph.files.map (·.source.shortName)

/-- There is a declaration of a number, and a page shows it by itself. -/
structure StandsAlone (graph : Graph) (id : DeclId) : Prop where
  inside : id < graph.decls.size
  alone : (graph.decl id).standsAlone = true

/-- The ways in which a declaration is cited. -/
inductive Cites (graph : Graph) (id : DeclId) : Prop where
  | rule (rule : DeclId) (isProduction : (graph.decl rule).production? = some id)
  | file (file : FileRecord) (isFile : file ∈ graph.files) (listed : id ∈ file.listed)
  | group (group : GroupId) (member : id ∈ (graph.group group).members)
  | production (listed : id ∈ graph.productions)

/-! ### Changing a file -/

section ModifyFile

variable {change : FileRecord → FileRecord} {index : Nat}

theorem map_files_modifyFile {Value : Type} {view : FileRecord → Value}
    (unchanged : ∀ file, view (change file) = view file) (graph : Graph) (index : Nat) :
    (graph.modifyFile index change).files.map view = graph.files.map view := by
  apply List.ext_getElem?
  intro position
  simp only [modifyFile, List.getElem?_map, List.getElem?_modify]
  cases graph.files[position]? with
  | none => rfl
  | some file => by_cases here : index = position <;> simp [here, unchanged]

theorem sources_modifyFile (source : ∀ file, (change file).source = file.source) (graph : Graph)
    (index : Nat) :
    (graph.modifyFile index change).files.map (·.source) = graph.files.map (·.source) :=
  map_files_modifyFile source graph index

theorem mem_files_modifyFile {file : FileRecord}
    (isFile : file ∈ (graph.modifyFile index change).files) :
    file ∈ graph.files ∨ ∃ old ∈ graph.files, change old = file := by
  rcases List.mem_iff_getElem?.mp isFile with ⟨position, found⟩
  simp only [modifyFile, List.getElem?_modify] at found
  rcases Option.map_eq_some_iff.mp found with ⟨old, isOld, isFile⟩
  have member := List.mem_of_getElem? isOld
  split at isFile
  · exact .inr ⟨old, member, isFile⟩
  · exact .inl (isFile ▸ member)

end ModifyFile

/-! ### What reading adds -/

/-- A graph grows: what is new is placed in the files, and what is newly cited stands alone. -/
structure Extends (before after : Graph) : Prop where
  size : before.decls.size ≤ after.decls.size
  head : ∀ id < before.decls.size, (after.decl id).head = (before.decl id).head
  pageName : ∀ id < before.decls.size, (after.decl id).pageName? = (before.decl id).pageName?
  sources : after.files.map (·.source) = before.files.map (·.source)
  placed : ∀ id, before.decls.size ≤ id → id < after.decls.size →
    (after.decl id).Placed after.shortNames
  cites : ∀ id, after.Cites id → before.Cites id ∨ after.StandsAlone id

theorem shortNames_eq_map_sources (graph : Graph) :
    graph.shortNames = (graph.files.map (·.source)).map (·.shortName) := by
  rw [shortNames, List.map_map]
  rfl

namespace Extends

theorem shortNames (extended : Extends before after) : after.shortNames = before.shortNames := by
  rw [shortNames_eq_map_sources, extended.sources, ← shortNames_eq_map_sources]

/-- What is shown by itself stays so, since reading neither removes a declaration nor changes of
what kind it is. -/
theorem standsAlone (extended : Extends before after) (alone : before.StandsAlone id) :
    after.StandsAlone id where
  inside := Nat.lt_of_lt_of_le alone.inside extended.size
  alone := by
    have label : (after.decl id).kindLabel = (before.decl id).kindLabel :=
      congrArg (·.2.2.2) (extended.head id alone.inside)
    simpa only [Decl.standsAlone, label] using alone.alone

theorem refl (graph : Graph) : Extends graph graph where
  size := Nat.le_refl _
  head _ _ := rfl
  pageName _ _ := rfl
  sources := rfl
  placed _ outside inside := absurd inside (Nat.not_lt_of_le outside)
  cites _ := .inl

/-- What is cited in the end is cited newly by one of the two steps, and the second one can only
cite what is there by then. -/
theorem trans (first : Extends before middle) (second : Extends middle after) :
    Extends before after where
  size := Nat.le_trans first.size second.size
  head id inside :=
    (second.head id (Nat.lt_of_lt_of_le inside first.size)).trans (first.head id inside)
  pageName id inside :=
    (second.pageName id (Nat.lt_of_lt_of_le inside first.size)).trans (first.pageName id inside)
  sources := second.sources.trans first.sources
  placed id outside inside := by
    by_cases isMiddle : id < middle.decls.size
    · have placed := first.placed id outside isMiddle
      have location : (after.decl id).location = (middle.decl id).location :=
        congrArg (·.2.2.1) (second.head id isMiddle)
      constructor
      · simpa only [location, second.shortNames] using placed.file
      · simpa only [second.pageName id isMiddle] using placed.pageName
    · exact second.placed id (Nat.le_of_not_lt isMiddle) inside
  cites id cited := by
    rcases second.cites id cited with isOld | alone
    · exact (first.cites id isOld).imp_right second.standsAlone
    · exact .inr alone

/-- A step that adds no declaration. -/
theorem of_decls_eq (decls : after.decls = before.decls)
    (sources : after.files.map (·.source) = before.files.map (·.source))
    (listed : ∀ file ∈ after.files, ∀ id ∈ file.listed, before.Cites id ∨ after.StandsAlone id)
    (groups : after.groups = before.groups) (productions : after.productions = before.productions) :
    Extends before after where
  size := Nat.le_of_eq (congrArg Array.size decls.symm)
  head id _ := by rw [decl_of_decls_eq decls]
  pageName id _ := by rw [decl_of_decls_eq decls]
  sources := sources
  placed id outside inside := by
    rw [decls] at inside
    exact absurd inside (Nat.not_lt_of_le outside)
  cites id cited := by
    cases cited with
    | rule rule isProduction =>
        rw [decl_of_decls_eq decls] at isProduction
        exact .inl (.rule rule isProduction)
    | file file isFile isListed => exact listed file isFile id isListed
    | group group member =>
        simp only [Graph.group, groups] at member
        exact .inl (.group group member)
    | production isListed =>
        rw [productions] at isListed
        exact .inl (.production isListed)

/-- A step that adds declarations behind the others. What they cite has to be there, or to stand
alone when they have been added. -/
theorem append {decls : List Decl} (appended : after.decls = before.decls ++ decls.toArray)
    (files : after.files = before.files)
    (placed : ∀ decl ∈ decls, decl.Placed before.shortNames)
    (rules : ∀ decl ∈ decls, ∀ id, decl.production? = some id →
      before.Cites id ∨ after.StandsAlone id)
    (groups : ∀ group, ∀ id ∈ (after.group group).members, before.Cites id ∨ after.StandsAlone id)
    (productions : ∀ id ∈ after.productions, before.Cites id ∨ after.StandsAlone id) :
    Extends before after := by
  have old : ∀ id < before.decls.size, after.decl id = before.decl id := by
    intro id inside
    simp [decl, appended, Array.getElem?_append, inside]
  have added : ∀ id, before.decls.size ≤ id → id < after.decls.size → after.decl id ∈ decls := by
    intro id outside inside
    have position : id - before.decls.size < decls.length := by
      simp only [appended, Array.size_append, List.size_toArray] at inside
      omega
    simp [decl, appended, Array.getElem?_append, Nat.not_lt_of_le outside, position]
  constructor
  · simp [appended]
  · intro id inside
    rw [old id inside]
  · intro id inside
    rw [old id inside]
  · rw [files]
  · intro id outside inside
    have names : after.shortNames = before.shortNames := congrArg (List.map _) files
    rw [names]
    exact placed _ (added id outside inside)
  · intro id cited
    cases cited with
    | rule rule isProduction =>
        by_cases isOld : rule < before.decls.size
        · rw [old rule isOld] at isProduction
          exact .inl (.rule rule isProduction)
        · by_cases inside : rule < after.decls.size
          · exact rules _ (added rule (Nat.le_of_not_lt isOld) inside) id isProduction
          · rw [decl_of_size_le (Nat.le_of_not_lt inside)] at isProduction
            contradiction
    | file file isFile isListed =>
        rw [files] at isFile
        exact .inl (.file file isFile isListed)
    | group group member => exact groups group id member
    | production isListed => exact productions id isListed

/-- A step that adds one declaration, which the list of productions may take. -/
theorem push {decl : Decl} (decls : after.decls = before.decls.push decl)
    (placed : decl.Placed before.shortNames)
    (rules : ∀ id, decl.production? = some id → before.Cites id ∨ after.StandsAlone id)
    (files : after.files = before.files) (groups : after.groups = before.groups)
    (productions : ∀ id ∈ after.productions, id ∈ before.productions ∨ after.StandsAlone id) :
    Extends before after := by
  have appended : after.decls = before.decls ++ [decl].toArray := by simp [decls]
  apply append appended files (by simpa using placed) (by simpa using rules)
  · intro group id member
    simp only [Graph.group, groups] at member
    exact .inl (.group group member)
  · intro id isListed
    exact (productions id isListed).imp_left .production

/-- A step that changes one declaration, but nothing of what is said here. Its head, its page and
the production that it names stay, so it is placed and cited as before. -/
theorem modifyDecl {change : Decl → Decl} (head : ∀ decl, (change decl).head = decl.head)
    (pageName : ∀ decl, (change decl).pageName? = decl.pageName?)
    (production : ∀ decl, (change decl).production? = decl.production?) (graph : Graph)
    (id : DeclId) : Extends graph (graph.modifyDecl id change) := by
  have size : (graph.modifyDecl id change).decls.size = graph.decls.size := by
    simp [Graph.modifyDecl]
  constructor
  · exact Nat.le_of_eq size.symm
  · exact fun other _ => Keeps.modifyDecl head graph id other
  · exact fun other _ => Keeps.modifyDecl pageName graph id other
  · rfl
  · intro other outside inside
    rw [size] at inside
    exact absurd inside (Nat.not_lt_of_le outside)
  · intro other cited
    cases cited with
    | rule rule isProduction =>
        rw [Keeps.modifyDecl production graph id rule] at isProduction
        exact .inl (.rule rule isProduction)
    | file file isFile isListed => exact .inl (.file file isFile isListed)
    | group group member => exact .inl (.group group member)
    | production isListed => exact .inl (.production isListed)

/-- A file may list more than before, if what is new in its lists is shown by itself. -/
theorem modifyFile {change : FileRecord → FileRecord}
    (source : ∀ file, (change file).source = file.source)
    (lists : ∀ file, ∀ id ∈ (change file).listed, id ∈ file.listed ∨ graph.StandsAlone id)
    (index : Nat) : Extends graph (graph.modifyFile index change) := by
  have decls : (graph.modifyFile index change).decls = graph.decls := rfl
  apply of_decls_eq decls (sources_modifyFile source graph index)
  · intro file isFile id isListed
    rcases mem_files_modifyFile isFile with isOld | ⟨old, isOld, rfl⟩
    · exact .inl (.file file isOld isListed)
    · exact (lists old id isListed).imp (.file old isOld) fun alone => ⟨alone.inside, alone.alone⟩
  · rfl
  · rfl

end Extends

/-! ### Names of pages -/

theorem undotted_toString (number : Nat) : Undotted (toString number).toList := by
  apply Undotted.of_no_slash
  intro isSlash
  exact absurd (Text.isDigit_of_mem_toString isSlash) (by decide)

/-- A name that is taken for a page is the name of the declaration with a number behind it at most,
so a name without dots leads to one without dots. -/
theorem undotted_takeName (graph : Graph) {name : String} (undotted : Undotted name.toList) :
    Undotted (graph.takeName name).1.toList := by
  rcases (graph.handedOut_takeName name).first with same | ⟨_, suffix, _, given, _⟩
  · rwa [same]
  · rw [given, String.toList_append]
    apply undotted.append (undotted_toString suffix)
    intro isSlash
    exact absurd (Text.isDigit_of_mem_toString (List.mem_of_head? isSlash)) (by decide)

theorem undotted_productionName {name : String} (undotted : Undotted name.toList) :
    Undotted (productionName name).toList := by
  rw [productionName, String.toList_ofList]
  rw [← List.takeWhile_append_dropWhile (p := (· != '(')) (l := name.toList)] at undotted
  exact undotted.of_append

/-! ### Recording -/

namespace Extends

theorem takeName (graph : Graph) (name : String) : Extends graph (graph.takeName name).2 :=
  of_decls_eq rfl rfl (fun file isFile _ listed => .inl (.file file isFile listed)) rfl rfl

theorem standsAlone_newest {decl : Decl} (decls : after.decls = before.decls.push decl)
    (alone : decl.standsAlone = true) : after.StandsAlone before.nextId where
  inside := by
    rw [size_of_push decls]
    exact Nat.lt_succ_self _
  alone := by rwa [decl_newest_of_push decls]

/-- A declaration is added, and a file lists it. -/
theorem enlist {decl : Decl} {change : FileRecord → FileRecord} {index : Nat}
    (placed : decl.Placed before.shortNames) (alone : decl.standsAlone = true)
    (rules : ∀ id, decl.production? = some id → before.Cites id)
    (decls : after.decls = before.decls.push decl)
    (files : after.files = before.files.modify index change)
    (groups : after.groups = before.groups) (productions : after.productions = before.productions)
    (source : ∀ file, (change file).source = file.source)
    (lists : ∀ file id, id ∈ (change file).listed → id ∈ file.listed ∨ id = before.nextId) :
    Extends before after := by
  have pushed : Extends before { after with files := before.files } := by
    refine push decls placed (fun id isRule => .inl (rules id isRule)) rfl groups ?_
    intro id isListed
    exact .inl (productions ▸ isListed)
  have shape : after = { after with files := before.files }.modifyFile index change := by
    rw [Graph.modifyFile, ← files]
  rw [shape]
  apply pushed.trans (modifyFile source _ index)
  intro file id isListed
  rcases lists file id isListed with isOld | rfl
  · exact .inl isOld
  · exact .inr (standsAlone_newest decls alone)

theorem addClass {decl : Decl} (placed : decl.Placed graph.shortNames)
    (alone : decl.standsAlone = true)
    (rules : ∀ id, decl.production? = some id → graph.Cites id) (index : Nat) :
    Extends graph (graph.addClass index decl) := by
  refine enlist placed alone rules rfl rfl rfl rfl (fun _ => rfl) ?_
  simp only [FileRecord.listed, List.mem_append, List.mem_singleton]
  grind

theorem addObject {decl : Decl} (placed : decl.Placed graph.shortNames)
    (alone : decl.standsAlone = true) (noRule : decl.production? = none) (index : Nat) :
    Extends graph (graph.addObject index decl) := by
  refine enlist placed alone (by simp [noRule]) rfl rfl rfl rfl (fun _ => rfl) ?_
  simp only [FileRecord.listed, List.mem_append, List.mem_singleton]
  grind

theorem addFunction {decl : Decl} (placed : decl.Placed graph.shortNames)
    (alone : decl.standsAlone = true) (noRule : decl.production? = none) (index : Nat) :
    Extends graph (graph.addFunction index decl) := by
  refine enlist placed alone (by simp [noRule]) rfl rfl rfl rfl (fun _ => rfl) ?_
  simp only [FileRecord.listed, List.mem_append, List.mem_singleton]
  grind

theorem addMacro {decl : Decl} (placed : decl.Placed graph.shortNames)
    (alone : decl.standsAlone = true) (noRule : decl.production? = none) (index : Nat) :
    Extends graph (graph.addMacro index decl) := by
  refine enlist placed alone (by simp [noRule]) rfl rfl rfl rfl (fun _ => rfl) ?_
  simp only [FileRecord.listed, List.mem_append, List.mem_singleton]
  grind

theorem addTemplate {decl : Decl} (placed : decl.Placed graph.shortNames)
    (alone : decl.standsAlone = true) (noRule : decl.production? = none) (index : Nat) :
    Extends graph (graph.addTemplate index decl) := by
  refine enlist placed alone (by simp [noRule]) rfl rfl rfl rfl (fun _ => rfl) ?_
  simp only [FileRecord.listed, List.mem_append, List.mem_singleton]
  grind

/-- A declaration that no page shows by itself. -/
theorem aside {decl : Decl} (placed : decl.Placed before.shortNames)
    (noRule : decl.production? = none) (decls : after.decls = before.decls.push decl)
    (files : after.files = before.files) (groups : after.groups = before.groups)
    (productions : after.productions = before.productions) : Extends before after := by
  apply push decls placed (by simp [noRule]) files groups
  simp only [productions]
  exact fun _ => .inl

/-- A production that is required is cited by the list of productions, whether it had to be added or
was there already. -/
theorem requireProduction {name : String} {location : Location}
    (located : location.file ∈ graph.shortNames) (undotted : Undotted name.toList) :
    Extends graph (graph.requireProduction name location).2 ∧
      (graph.requireProduction name location).2.Cites
        (graph.requireProduction name location).1 := by
  rw [Graph.requireProduction]
  split
  · next found =>
      exact ⟨refl graph, .production (List.mem_of_find?_eq_some found)⟩
  · have named := takeName graph name
    have ofName := undotted_takeName graph undotted
    constructor
    · apply named.trans
      apply push rfl
      · exact ⟨located, by rintro _ ⟨⟩; exact ofName⟩
      · intro id isRule
        contradiction
      · rfl
      · rfl
      · intro id isListed
        rcases List.mem_append.mp isListed with isOld | isNew
        · exact .inl isOld
        · rw [List.mem_singleton.mp isNew]
          exact .inr (standsAlone_newest rfl rfl)
    · exact .production (List.mem_append_right _ (List.mem_singleton_self _))

/-- A class is listed by its file. If it is a grammar rule, it cites the production of the rule,
which is there by then, and it is cited in turn as a rule of this production. -/
theorem recordClass {name : String} {location : Location}
    (located : location.file ∈ graph.shortNames) (undotted : Undotted name.toList) (index : Nat)
    (description : String) (head : ClassHead) :
    Extends graph (graph.recordClass index name description location head) := by
  have named := takeName graph name
  have ofName := undotted_takeName graph undotted
  rcases takes : graph.takeName name with ⟨fileName, taken⟩
  simp only [takes] at named ofName
  simp only [Graph.recordClass, takes]
  rw [← named.shortNames] at located
  apply named.trans
  split
  · apply addClass _ rfl
    · rintro _ ⟨⟩
    · exact ⟨located, by rintro _ ⟨⟩; exact ofName⟩
  · rcases requireProduction located (undotted_productionName undotted) with ⟨joins, cited⟩
    rcases requires : taken.requireProduction (productionName name) location
      with ⟨production, joined⟩
    simp only [requires] at joins cited
    rw [← joins.shortNames] at located
    apply joins.trans
    refine trans (addClass ?_ rfl ?_ index) (modifyDecl ?_ ?_ ?_ _ production)
    · exact ⟨located, by rintro _ ⟨⟩; exact ofName⟩
    · rintro _ ⟨⟩
      exact cited
    all_goals
      rintro ⟨_, _, _, kind⟩
      cases kind <;> rfl

theorem recordObject {name : String} {location : Location}
    (located : location.file ∈ graph.shortNames) (undotted : Undotted name.toList) (index : Nat)
    (description : String) (head : ObjectHead) :
    Extends graph (graph.recordObject index name description location head) := by
  have named := takeName graph name
  have ofName := undotted_takeName graph undotted
  rw [← named.shortNames] at located
  apply named.trans
  exact addObject ⟨located, by rintro _ ⟨⟩; exact ofName⟩ rfl rfl index

theorem addMember {decl : Decl} (placed : decl.Placed graph.shortNames)
    (noRule : decl.production? = none) (owner : DeclId) (kind : MemberKind) :
    Extends graph (graph.addMember owner kind decl) := by
  have pushed : Extends graph (graph.addDecl decl) := aside placed noRule rfl rfl rfl rfl
  apply pushed.trans (modifyDecl _ _ _ _ owner)
  · exact fun holder => Decl.head_mapBody holder _
  · exact pageName?_mapBody fun body => by cases kind <;> rfl
  · rintro ⟨_, _, _, kind⟩
    cases kind <;> rfl

/-- The members of the new group are the constants that have just been declared, and those stand
alone. -/
theorem recordEnum {location : Location} (located : location.file ∈ graph.shortNames)
    (index : Nat) (description : String) (members : List String) :
    Extends graph (graph.recordEnum index description location members) := by
  rw [Graph.recordEnum]
  refine trans ?_ (modifyFile ?_ ?_ index)
  · refine append rfl rfl ?_ ?_ ?_ ?_
    · intro decl isConstant
      rcases List.mem_map.mp isConstant with ⟨name, _, rfl⟩
      exact ⟨located, by rintro _ ⟨⟩⟩
    · intro decl isConstant id isRule
      rcases List.mem_map.mp isConstant with ⟨name, _, rfl⟩
      contradiction
    · intro group id member
      simp only [Graph.group, Array.getD_eq_getD_getElem?, Array.getElem?_push] at member
      split at member
      · next newest =>
          simp only [Option.getD_some, List.mem_map, List.mem_range] at member
          rcases member with ⟨position, inside, rfl⟩
          refine .inr ⟨?_, ?_⟩
          · simpa [nextId] using inside
          · simp [decl, nextId, inside, Decl.standsAlone, Decl.kindLabel]
      · exact .inl (.group group (by simpa [Graph.group] using member))
    · exact fun id isListed => .inl (.production isListed)
  · exact fun _ => rfl
  · exact fun file id isListed => .inl isListed

/-- What a line declares extends the graph. Each kind of declaration is recorded by one of the steps
above, and only blocks need a name that can stand in an address. -/
theorem declare {state : Recording} {name : String} {location : Location} {declared : Declared}
    (located : location.file ∈ state.graph.shortNames) (addressable : Addressable name declared)
    (index : Nat) (description : String) :
    Extends state.graph (state.declare index name description location declared).graph := by
  cases declared with
  | classBlock head => exact recordClass located (addressable rfl) index description head
  | objectBlock head => exact recordObject located (addressable rfl) index description head
  | modifyBlock => exact aside ⟨located, by rintro _ ⟨⟩⟩ rfl rfl rfl rfl rfl
  | property interfaceOnly =>
      simp only [Recording.declare]
      split
      · exact refl _
      · exact addMember ⟨located, by rintro _ ⟨⟩⟩ rfl _ .property
  | method parameters interfaceOnly =>
      simp only [Recording.declare]
      split
      · exact refl _
      · exact addMember ⟨located, by rintro _ ⟨⟩⟩ rfl _ .method
  | function parameters => exact addFunction ⟨located, by rintro _ ⟨⟩⟩ rfl rfl index
  | macroDefinition parameters body => exact addMacro ⟨located, by rintro _ ⟨⟩⟩ rfl rfl index
  | template body => exact addTemplate ⟨located, by rintro _ ⟨⟩⟩ rfl rfl index
  | message kind text => exact aside ⟨located, by rintro _ ⟨⟩⟩ rfl rfl rfl rfl rfl

/-- An entry extends the graph, for it is recorded as declarations, as constants or as something
that a file notes of itself. -/
theorem add {state : Recording} {shortName : String} {entry : Entry}
    (known : shortName ∈ state.graph.shortNames) (addressable : entry.Addressable) (index : Nat) :
    Extends state.graph (state.add index shortName entry).graph := by
  cases entry with
  | fileDescription text =>
      refine modifyFile ?_ ?_ index
      · exact fun _ => rfl
      · exact fun _ _ isListed => .inl isListed
  | declaration name description line declared => exact declare known addressable index description
  | enumGroup description line members => exact recordEnum known index description members

theorem shortName_mem {index : Nat} (inside : index < graph.files.length) :
    (graph.file index).source.shortName ∈ graph.shortNames := by
  apply List.mem_map.mpr
  refine ⟨graph.files[index], List.getElem_mem inside, ?_⟩
  simp [file, inside]

/-- The entries of a file extend the graph one after the other, and the name of the file stays known
on the way. -/
theorem record {index : Nat} {entries : List Entry} (inside : index < graph.files.length)
    (addressable : AllAddressable entries) : Extends graph (graph.record index entries) := by
  have known := shortName_mem inside
  rw [Graph.record]
  apply List.foldlRecOn (motive := fun state : Recording => Extends graph state.graph) entries _
    (refl graph)
  intro state extended entry isEntry
  rw [← extended.shortNames] at known
  exact extended.trans (add known (addressable entry isEntry) index)

end Extends

/-! ### Reading -/

/-- Every declaration is placed in a file of the graph, and what is cited stands alone. -/
structure Anchored (graph : Graph) : Prop where
  placed : ∀ id < graph.decls.size, (graph.decl id).Placed graph.shortNames
  cites : ∀ id, graph.Cites id → graph.StandsAlone id

/-- A graph of files in which nothing is declared cites nothing. -/
theorem anchored_ofFiles (files : List SourceFile) : (ofFiles files).Anchored where
  placed _ inside := absurd inside (Nat.not_lt_zero _)
  cites id cited := by
    cases cited with
    | rule rule isProduction =>
        rw [decl_of_size_le (Nat.zero_le rule)] at isProduction
        contradiction
    | file file isFile isListed =>
        rcases List.mem_map.mp isFile with ⟨source, _, rfl⟩
        simp [FileRecord.listed] at isListed
    | group group member => exact absurd member List.not_mem_nil
    | production isListed => simp [ofFiles] at isListed

/-- A graph that grows keeps every declaration in its place, and what is cited newly stands
alone. -/
theorem Anchored.of_extends (anchored : before.Anchored) (extended : Extends before after) :
    after.Anchored where
  placed id inside := by
    by_cases isOld : id < before.decls.size
    · have placed := anchored.placed id isOld
      have location : (after.decl id).location = (before.decl id).location :=
        congrArg (·.2.2.1) (extended.head id isOld)
      constructor
      · simpa only [location, extended.shortNames] using placed.file
      · simpa only [extended.pageName id isOld] using placed.pageName
    · exact extended.placed id (Nat.le_of_not_lt isOld) inside
  cites id cited := by
    rcases extended.cites id cited with isOld | alone
    · exact extended.standsAlone (anchored.cites id isOld)
    · exact alone

theorem extends_read {reading : FileReading} (inside : reading.index < graph.files.length) :
    Extends graph (graph.read reading) := by
  apply Extends.record inside
  apply FileOutcome.addressable_ofFile

/-- Reading files places every declaration in one of them. Each reading extends the graph, which is
all that is needed of it. -/
theorem anchored_readAll {files : List SourceFile} {readings : List FileReading}
    (inside : ∀ reading ∈ readings, reading.index < files.length) :
    ((ofFiles files).readAll readings).Anchored ∧
      ((ofFiles files).readAll readings).files.map (·.source) = files := by
  have sources : (ofFiles files).files.map (·.source) = files := by
    simp [ofFiles, Function.comp_def]
  have extended : Extends (ofFiles files) ((ofFiles files).readAll readings) := by
    apply List.foldlRecOn (motive := Extends (ofFiles files)) readings read (.refl _)
    intro graph extended reading isReading
    have count := congrArg List.length (extended.sources.trans sources)
    rw [List.length_map] at count
    apply extended.trans (extends_read _)
    rw [count]
    exact inside reading isReading
  exact ⟨(anchored_ofFiles files).of_extends extended, extended.sources.trans sources⟩

end Graph

end TadsReference
