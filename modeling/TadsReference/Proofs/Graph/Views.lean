import TadsReference.Graph.DisplayOrder
import TadsReference.Graph.Inheritance

/-!
# Views of declarations

A pass over the graph changes some of what its declarations hold and leaves the rest alone. A view
reads one thing off a declaration, so that what a pass leaves alone can be said view by view:
`Graph.Keeps view` relates a graph to another in which every declaration looks the same.
-/

namespace TadsReference

variable {Value : Type}

/-- The lists that a graph keeps of its declarations by kind. -/
inductive Listing where
  | classes
  | objects
  | productions
  | functions
  | macros
  | templates
  | modifications
  | messages

namespace Listing

/-- The kind of the declarations in a list. -/
def label : Listing → String
  | classes => "class"
  | objects => "object"
  | productions => "grammar"
  | functions => "function"
  | macros => "macro"
  | templates => "template"
  | modifications => "modify"
  | messages => "message"

end Listing

namespace Decl

/-- What names and places a declaration, together with its kind. -/
def head (decl : Decl) : String × String × Location × String :=
  (decl.name, decl.description, decl.location, decl.kindLabel)

/-- Whether a declaration is a class or an object. -/
def isBlock (decl : Decl) : Bool :=
  decl.block?.isSome

/-- Whether a declaration is a class, an object or a `modify` block. -/
def takesMembers (decl : Decl) : Bool :=
  decl.isBlock || decl.kindLabel == "modify"

/-- What modifies a declaration: `modify` blocks, or members of such blocks. -/
def modifications (decl : Decl) : List DeclId :=
  (decl.block?.map (·.modifications)).getD ((decl.member?.map (·.modifications)).getD [])

/-- The locations of what modifies a declaration. -/
def modifiedAt (decl : Decl) : List Location :=
  (decl.block?.map (·.modifiedAt)).getD ((decl.member?.map (·.modifiedAt)).getD [])

/-- The class or object that a `modify` block modifies. -/
def target? (decl : Decl) : Option DeclId :=
  match decl.kind with
  | .modifyDecl details => details.target
  | _ => none

/-- The declaration in which a member was declared. -/
def owner? (decl : Decl) : Option DeclId :=
  decl.member?.map (·.owner)

/-- The kind of a member. -/
def memberKind? (decl : Decl) : Option MemberKind :=
  match decl.kind with
  | .method _ _ => some .method
  | .property _ => some .property
  | _ => none

/-- Whether a member overrides an inherited one. -/
def overridden (decl : Decl) : Bool :=
  (decl.member?.map (·.overridden)).getD false

/-- The classes that have a class as a base. -/
def subclasses (decl : Decl) : List DeclId :=
  (decl.class?.map (·.subclasses)).getD []

/-- The objects that have a class as a base. -/
def globalObjects (decl : Decl) : List DeclId :=
  (decl.class?.map (·.globalObjects)).getD []

/-- The rules of a production. -/
def matchClasses (decl : Decl) : List DeclId :=
  match decl.kind with
  | .production details => details.matchClasses
  | _ => []

theorem isClass_eq_of_head_eq {left right : Decl} (same : left.head = right.head) :
    left.isClass = right.isClass := by
  have label : left.kindLabel = right.kindLabel := congrArg (·.2.2.2) same
  rcases left with ⟨_, _, _, leftKind⟩
  rcases right with ⟨_, _, _, rightKind⟩
  cases leftKind <;> cases rightKind <;> simp_all [kindLabel, isClass, class?]

theorem isBlock_eq_of_head_eq {left right : Decl} (same : left.head = right.head) :
    left.isBlock = right.isBlock := by
  have label : left.kindLabel = right.kindLabel := congrArg (·.2.2.2) same
  rcases left with ⟨_, _, _, leftKind⟩
  rcases right with ⟨_, _, _, rightKind⟩
  cases leftKind <;> cases rightKind <;> simp_all [kindLabel, isBlock, block?]

theorem memberKind?_eq_of_head_eq {left right : Decl} (same : left.head = right.head) :
    left.memberKind? = right.memberKind? := by
  have label : left.kindLabel = right.kindLabel := congrArg (·.2.2.2) same
  rcases left with ⟨_, _, _, leftKind⟩
  rcases right with ⟨_, _, _, rightKind⟩
  cases leftKind <;> cases rightKind <;> simp_all [kindLabel, memberKind?]

theorem isSome_member? (decl : Decl) : decl.member?.isSome = decl.memberKind?.isSome := by
  rcases decl with ⟨_, _, _, kind⟩
  cases kind <;> rfl

theorem isClass_iff (decl : Decl) : decl.isClass = true ↔ decl.kindLabel = "class" := by
  rcases decl with ⟨_, _, _, kind⟩
  cases kind <;> simp [isClass, class?, kindLabel]

theorem isBlock_iff (decl : Decl) :
    decl.isBlock = true ↔ decl.kindLabel = "class" ∨ decl.kindLabel = "object" := by
  rcases decl with ⟨_, _, _, kind⟩
  cases kind <;> simp [isBlock, block?, kindLabel]

theorem matchClasses_of_not_production {decl : Decl} (notProduction : decl.kindLabel ≠ "grammar") :
    decl.matchClasses = [] := by
  rcases decl with ⟨_, _, _, kind⟩
  cases kind with
  | production details => contradiction
  | _ => rfl

/-- Only productions show members without taking any. -/
theorem members_of_not_takesMembers {decl : Decl} (takesNone : decl.takesMembers = false)
    (notProduction : decl.kindLabel ≠ "grammar") (kind : MemberKind) : decl.members kind = [] := by
  rcases decl with ⟨_, _, _, shape⟩
  cases shape <;> simp_all [takesMembers, isBlock, block?, kindLabel, members, body?]

/-! ### What a change of the members leaves alone -/

section MapBody

variable (decl : Decl) (change : Body → Body)

@[simp]
theorem head_mapBody : (decl.mapBody change).head = decl.head := by
  rcases decl with ⟨_, _, _, kind⟩
  cases kind <;> rfl

@[simp]
theorem owner?_mapBody : (decl.mapBody change).owner? = decl.owner? := by
  rcases decl with ⟨_, _, _, kind⟩
  cases kind <;> rfl

@[simp]
theorem memberKind?_mapBody : (decl.mapBody change).memberKind? = decl.memberKind? := by
  rcases decl with ⟨_, _, _, kind⟩
  cases kind <;> rfl

@[simp]
theorem isClass_mapBody : (decl.mapBody change).isClass = decl.isClass :=
  isClass_eq_of_head_eq (head_mapBody decl change)

@[simp]
theorem takesMembers_mapBody : (decl.mapBody change).takesMembers = decl.takesMembers := by
  rcases decl with ⟨_, _, _, kind⟩
  cases kind <;> rfl

@[simp]
theorem matchClasses_mapBody : (decl.mapBody change).matchClasses = decl.matchClasses := by
  rcases decl with ⟨_, _, _, kind⟩
  cases kind <;> rfl

@[simp]
theorem member?_mapBody : (decl.mapBody change).member? = decl.member? := by
  rcases decl with ⟨_, _, _, kind⟩
  cases kind <;> rfl

theorem members_addMember {decl : Decl} (takes : decl.takesMembers = true)
    (kind other : MemberKind) (id : DeclId) :
    (decl.mapBody (·.addMember kind id)).members other =
      decl.members other ++ if other = kind then [id] else [] := by
  rcases decl with ⟨_, _, _, shape⟩
  cases shape <;> cases kind <;> cases other <;>
    simp_all [takesMembers, isBlock, block?, kindLabel, mapBody, mapBlock, members, body?,
      Body.addMember, Body.setMembers, Body.members]

end MapBody

@[simp]
theorem members_mapMember (decl : Decl) (change : MemberDecl → MemberDecl) (kind : MemberKind) :
    (decl.mapMember change).members kind = decl.members kind := by
  rcases decl with ⟨_, _, _, shape⟩
  cases shape <;> rfl

@[simp]
theorem member?_mapMember (decl : Decl) (change : MemberDecl → MemberDecl) :
    (decl.mapMember change).member? = decl.member?.map change := by
  rcases decl with ⟨_, _, _, kind⟩
  cases kind <;> rfl

end Decl

namespace Graph

/-- The list of a kind of declarations. -/
def listed (graph : Graph) : Listing → List DeclId
  | .classes => graph.classes
  | .objects => graph.objects
  | .productions => graph.productions
  | .functions => graph.functions
  | .macros => graph.macros
  | .templates => graph.templates
  | .modifications => graph.modifications
  | .messages => graph.messages

/-! ### Changing one declaration -/

theorem decl_of_size_le {graph : Graph} {id : DeclId} (outside : graph.decls.size ≤ id) :
    graph.decl id = default := by
  simp [decl, outside]

theorem lt_size_of_decl_ne {graph : Graph} {id : DeclId} (present : graph.decl id ≠ default) :
    id < graph.decls.size := by
  apply Nat.lt_of_not_le
  intro outside
  exact present (decl_of_size_le outside)

theorem inside_of_isProduction {graph : Graph} {id : DeclId}
    (isProduction : (graph.decl id).kindLabel = "grammar") : id < graph.decls.size := by
  apply lt_size_of_decl_ne
  intro blank
  rw [blank] at isProduction
  contradiction

/-- A number that shows something is that of a declaration. -/
theorem lt_size_of_view {view : Decl → Bool} (blank : view default = false) {graph : Graph}
    {id : DeclId} (shown : view (graph.decl id) = true) : id < graph.decls.size := by
  apply lt_size_of_decl_ne
  intro outside
  rw [outside, blank] at shown
  contradiction

theorem decl_nextId (graph : Graph) : graph.decl graph.nextId = default :=
  decl_of_size_le (Nat.le_refl _)

theorem decl_of_decls_eq {before after : Graph} (decls : after.decls = before.decls) (id : DeclId) :
    after.decl id = before.decl id := by
  simp only [decl, decls]

/-- Only the declaration that is changed looks different. A number that is out of range denotes the
default declaration before and after, so the change must leave that one alone. -/
theorem decl_modifyDecl {change : Decl → Decl} (fixed : change default = default)
    (graph : Graph) (id other : DeclId) :
    (graph.modifyDecl id change).decl other =
      if other = id then change (graph.decl other) else graph.decl other := by
  simp only [decl, modifyDecl, Array.getD_eq_getD_getElem?, Array.getElem?_modify]
  by_cases same : id = other
  · subst same
    cases graph.decls[id]? <;> simp [fixed]
  · simp [same, Ne.symm same]

/-! ### Passes and views -/

/-- Every declaration looks the same in two graphs. -/
def Keeps (view : Decl → Value) (before after : Graph) : Prop :=
  ∀ id, view (after.decl id) = view (before.decl id)

/-- Two graphs that differ in nothing but what their declarations hold. -/
def SameLists (before after : Graph) : Prop :=
  ∃ decls, decls.size = before.decls.size ∧ after = { before with decls := decls }

namespace Keeps

variable {view : Decl → Value} {before middle after : Graph}

theorem refl (view : Decl → Value) (graph : Graph) : Keeps view graph graph :=
  fun _ => rfl

theorem trans (first : Keeps view before middle) (second : Keeps view middle after) :
    Keeps view before after :=
  fun id => (second id).trans (first id)

theorem modifyDecl {change : Decl → Decl} (unchanged : ∀ decl, view (change decl) = view decl)
    (graph : Graph) (id : DeclId) : Keeps view graph (graph.modifyDecl id change) := by
  intro other
  simp only [decl, Graph.modifyDecl, Array.getD_eq_getD_getElem?, Array.getElem?_modify]
  split
  · cases graph.decls[other]? <;> simp [unchanged]
  · rfl

theorem foldl {Item : Type} {step : Graph → Item → Graph}
    (each : ∀ graph item, Keeps view graph (step graph item)) (graph : Graph)
    (items : List Item) : Keeps view graph (items.foldl step graph) := by
  induction items generalizing graph with
  | nil => exact refl view graph
  | cons item items ih => exact (each graph item).trans (ih (step graph item))

theorem comp {Other : Type} (read : Value → Other) (kept : Keeps view before after) :
    Keeps (fun decl => read (view decl)) before after :=
  fun id => congrArg read (kept id)

theorem name (kept : Keeps Decl.head before after) (id : DeclId) :
    after.name id = before.name id :=
  congrArg (·.1) (kept id)

theorem location (kept : Keeps Decl.head before after) (id : DeclId) :
    (after.decl id).location = (before.decl id).location :=
  congrArg (·.2.2.1) (kept id)

theorem kindLabel (kept : Keeps Decl.head before after) (id : DeclId) :
    (after.decl id).kindLabel = (before.decl id).kindLabel :=
  congrArg (·.2.2.2) (kept id)

theorem isClass (kept : Keeps Decl.head before after) (id : DeclId) :
    (after.decl id).isClass = (before.decl id).isClass :=
  Decl.isClass_eq_of_head_eq (kept id)

theorem isBlock (kept : Keeps Decl.head before after) (id : DeclId) :
    (after.decl id).isBlock = (before.decl id).isBlock :=
  Decl.isBlock_eq_of_head_eq (kept id)

theorem memberKind? (kept : Keeps Decl.head before after) (id : DeclId) :
    (after.decl id).memberKind? = (before.decl id).memberKind? :=
  Decl.memberKind?_eq_of_head_eq (kept id)

theorem takesMembers (kept : Keeps Decl.head before after) (id : DeclId) :
    (after.decl id).takesMembers = (before.decl id).takesMembers := by
  simp only [Decl.takesMembers, kept.isBlock id, kept.kindLabel id]

theorem findNamed? (kept : Keeps Decl.head before after) (ids : List DeclId) (name : String) :
    after.findNamed? ids name = before.findNamed? ids name := by
  simp only [Graph.findNamed?, kept.name]

theorem displayOrder (kept : Keeps Decl.head before after) (left right : DeclId) :
    after.displayOrder left right = before.displayOrder left right := by
  have sameLeft := kept.name left
  have sameRight := kept.name right
  simp only [Graph.name] at sameLeft sameRight
  simp only [Graph.displayOrder, Decl.displayOrder, sameLeft, sameRight, kept.location]

theorem sorted (kept : Keeps Decl.head before after) (ids : List DeclId) :
    after.sorted ids = before.sorted ids := by
  simp only [Graph.sorted, kept.displayOrder]

end Keeps

namespace SameLists

variable {before middle after : Graph}

theorem refl (graph : Graph) : SameLists graph graph :=
  ⟨graph.decls, rfl, rfl⟩

theorem trans (first : SameLists before middle) (second : SameLists middle after) :
    SameLists before after := by
  rcases first with ⟨middleDecls, middleSize, rfl⟩
  rcases second with ⟨afterDecls, afterSize, rfl⟩
  exact ⟨afterDecls, afterSize.trans middleSize, rfl⟩

theorem modifyDecl (graph : Graph) (id : DeclId) (change : Decl → Decl) :
    SameLists graph (graph.modifyDecl id change) :=
  ⟨graph.decls.modify id change, by simp, rfl⟩

theorem listed (same : SameLists before after) (listing : Listing) :
    after.listed listing = before.listed listing := by
  rcases same with ⟨decls, size, rfl⟩
  cases listing <;> rfl

theorem size (same : SameLists before after) : after.decls.size = before.decls.size := by
  rcases same with ⟨decls, size, rfl⟩
  exact size

theorem files (same : SameLists before after) : after.files = before.files := by
  rcases same with ⟨decls, size, rfl⟩
  rfl

theorem group (same : SameLists before after) (id : GroupId) :
    after.group id = before.group id := by
  rcases same with ⟨decls, size, rfl⟩
  rfl

theorem enumGroups (same : SameLists before after) : after.enumGroups = before.enumGroups := by
  rcases same with ⟨decls, size, rfl⟩
  rfl

theorem foldl {Item : Type} {step : Graph → Item → Graph}
    (each : ∀ graph item, SameLists graph (step graph item)) (graph : Graph)
    (items : List Item) : SameLists graph (items.foldl step graph) := by
  induction items generalizing graph with
  | nil => exact refl graph
  | cons item items ih => exact (each graph item).trans (ih (step graph item))

theorem findBlock? (same : SameLists before after) (kept : Keeps Decl.head before after)
    (name : String) : after.findBlock? name = before.findBlock? name := by
  rcases same with ⟨decls, _, rfl⟩
  simp only [Graph.findBlock?, findClass?, kept.findNamed?]

end SameLists

end Graph

end TadsReference
