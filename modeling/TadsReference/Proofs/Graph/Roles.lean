import TadsReference.Proofs.Graph.Members
import TadsReference.Proofs.Graph.Skeletons

/-!
# Roles

Declarations store the numbers of other declarations, each in a role: as a base, an heir, a member,
an owner and so on. `Decl.references` lists all numbers that a declaration stores. For each change
that recording or linking makes it is said which references it can add.
-/

namespace TadsReference

/-- What a stored number stands for. -/
inductive Role where
  /-- A declaration of a kind. -/
  | kind (label : String)
  /-- A class or an object. -/
  | block
  /-- A class, an object or a `modify` block. -/
  | holder
  /-- A class that is a grammar rule. -/
  | rule
  /-- A method or a property. -/
  | member (kind : MemberKind)
deriving DecidableEq

/-- Whether a declaration can have a role. -/
def Role.fits (decl : Decl) : Role → Bool
  | .kind label => decl.kindLabel == label
  | .block => decl.isBlock
  | .holder => decl.takesMembers
  | .rule => decl.production?.isSome
  | .member memberKind => decl.memberKind? == some memberKind

/-- Whether a declaration can have a role follows from its skeleton, so no change that keeps
skeletons takes a role away. -/
theorem Role.fits_eq_of_skeleton_eq {left right : Decl} (same : left.skeleton = right.skeleton)
    (role : Role) : role.fits left = role.fits right := by
  have head := Decl.head_eq_of_skeleton_eq same
  have label : left.kindLabel = right.kindLabel := congrArg (·.2.2.2) head
  cases role with
  | kind => simp only [Role.fits, label]
  | block => exact Decl.isBlock_eq_of_head_eq head
  | holder => simp only [Role.fits, Decl.takesMembers, Decl.isBlock_eq_of_head_eq head, label]
  | rule => simp only [Role.fits, Decl.production?_eq_of_skeleton_eq same]
  | member => simp only [Role.fits, Decl.memberKind?_eq_of_head_eq head]

/-! ### What is stored -/

/-- The numbers stored in a body: those of its members, by their kinds. -/
def Body.references (body : Body) : List (Role × DeclId) :=
  body.methods.map (.member .method, ·) ++ body.properties.map (.member .property, ·)

/-- The number stored in a base, if it has been resolved. -/
def BaseRef.references : BaseRef → List (Role × DeclId)
  | name _ => []
  | decl id => [(.block, id)]

/-- The numbers stored in a class or an object, with those that its body and its bases store. -/
def Block.references (block : Block) : List (Role × DeclId) :=
  block.body.references ++ block.bases.flatMap BaseRef.references ++
    block.modifications.map (.kind "modify", ·)

/-- The numbers stored in a member of a kind. What modifies it is of the same kind. -/
def MemberDecl.references (kind : MemberKind) (details : MemberDecl) : List (Role × DeclId) :=
  (.holder, details.owner) :: details.modifications.map (.member kind, ·)

/-- The numbers of declarations that a declaration stores, each with its role. -/
def Decl.references (decl : Decl) : List (Role × DeclId) :=
  match decl.kind with
  | .classDecl details =>
      details.block.references ++
        details.grammar.toList.map (fun link => (.kind "grammar", link.production)) ++
          details.subclasses.map (.kind "class", ·) ++ details.globalObjects.map (.kind "object", ·)
  | .objectDecl details => details.block.references
  | .production details => details.body.references ++ details.matchClasses.map (.rule, ·)
  | .modifyDecl details => details.body.references ++ details.target.toList.map (.block, ·)
  | .method details _ => details.references .method
  | .property details => details.references .property
  | .function _ | .macroDecl _ _ | .template _ | .enumMember _ | .message _ _ => []

/-! ### References of changed declarations -/

theorem BaseRef.references_of_decl? {base : BaseRef} (unresolved : base.decl? = none) :
    base.references = [] := by
  cases base with
  | name name => rfl
  | decl id => contradiction

theorem Body.references_eq_nil {body : Body} (methods : body.methods = [])
    (properties : body.properties = []) : body.references = [] := by
  simp [references, methods, properties]

theorem Block.references_eq_nil {block : Block} (methods : block.body.methods = [])
    (properties : block.body.properties = []) (modifications : block.modifications = [])
    (bases : ∀ base ∈ block.bases, base.decl? = none) : block.references = [] := by
  have noBases : block.bases.flatMap BaseRef.references = [] :=
    List.flatMap_eq_nil_iff.mpr fun base isBase => BaseRef.references_of_decl? (bases base isBase)
  simp [references, Body.references_eq_nil methods properties, modifications, noBases]

theorem Body.mem_references_addMember {body : Body} {kind : MemberKind} {id : DeclId}
    {reference : Role × DeclId} :
    reference ∈ (body.addMember kind id).references ↔
      reference ∈ body.references ∨ reference = (.member kind, id) := by
  cases kind <;>
    simp [addMember, setMembers, members, references, or_comm, or_left_comm, eq_comm]

namespace Decl

variable {decl : Decl} {reference : Role × DeclId} {id : DeclId}

theorem mem_references_of_mem_members {kind : MemberKind} (isMember : id ∈ decl.members kind) :
    (.member kind, id) ∈ decl.references := by
  rcases decl with ⟨_, _, _, shape⟩
  cases shape <;> cases kind <;>
    simp_all [members, body?, Body.members, references, Block.references, Body.references]

theorem mem_references_of_mem_matchClasses (isRule : id ∈ decl.matchClasses) :
    (.rule, id) ∈ decl.references := by
  rcases decl with ⟨_, _, _, shape⟩
  cases shape <;> simp_all [matchClasses, references]

theorem mem_references_of_owner? (owned : decl.owner? = some id) :
    (.holder, id) ∈ decl.references := by
  rcases decl with ⟨_, _, _, shape⟩
  cases shape <;> simp_all [owner?, member?, references, MemberDecl.references]

theorem mem_references_of_target? (aims : decl.target? = some id) :
    (.block, id) ∈ decl.references := by
  rcases decl with ⟨_, _, _, shape⟩
  cases shape <;> simp_all [target?, references]

theorem mem_references_of_mem_bases (isBase : .decl id ∈ decl.bases) :
    (.block, id) ∈ decl.references := by
  have ofBlock (block : Block) (isBase : .decl id ∈ block.bases) :
      (.block, id) ∈ block.bases.flatMap BaseRef.references :=
    List.mem_flatMap.mpr ⟨.decl id, isBase, List.mem_singleton_self _⟩
  rcases decl with ⟨_, _, _, shape⟩
  cases shape with
  | classDecl details =>
      simp only [references, Block.references, List.mem_append]
      exact .inl (.inl (.inl (.inl (.inr (ofBlock details.block isBase)))))
  | objectDecl details =>
      simp only [references, Block.references, List.mem_append]
      exact .inl (.inr (ofBlock details.block isBase))
  | _ => exact absurd isBase List.not_mem_nil

theorem kindLabel_of_production? (isRule : decl.production? = some id) :
    decl.kindLabel = "class" := by
  rcases decl with ⟨_, _, _, shape⟩
  cases shape <;> simp_all [production?, class?, kindLabel]

/-- All that a bare declaration refers to is its production. -/
theorem Bare.mem_references (bare : decl.Bare) (isStored : reference ∈ decl.references) :
    ∃ production, decl.production? = some production ∧
      reference = (.kind "grammar", production) := by
  have methods := bare.members .method
  have properties := bare.members .property
  have matchClasses := bare.matchClasses
  have member := bare.member
  rcases bare.toUnlinked with ⟨modifications, _, target, _, subclasses, globalObjects, bases⟩
  rcases decl with ⟨_, _, _, shape⟩
  cases shape with
  | classDecl details =>
      have noBlock := Block.references_eq_nil methods properties modifications bases
      have noSubclasses : details.subclasses = [] := subclasses
      have noObjects : details.globalObjects = [] := globalObjects
      simp only [references, noBlock, noSubclasses, noObjects, List.map_nil, List.append_nil,
        List.nil_append, List.mem_map, Option.mem_toList] at isStored
      rcases isStored with ⟨link, isLink, rfl⟩
      exact ⟨link.production, by simp_all [production?, class?], rfl⟩
  | objectDecl details =>
      have noBlock := Block.references_eq_nil methods properties modifications bases
      simp [references, noBlock] at isStored
  | production details =>
      have noBody := Body.references_eq_nil methods properties
      have noRules : details.matchClasses = [] := matchClasses
      simp [references, noBody, noRules] at isStored
  | modifyDecl details =>
      have noBody := Body.references_eq_nil methods properties
      have noTarget : details.target = none := target
      simp [references, noBody, noTarget] at isStored
  | method details parameters => simp [member?] at member
  | property details => simp [member?] at member
  | function parameters => exact absurd isStored List.not_mem_nil
  | macroDecl parameters body => exact absurd isStored List.not_mem_nil
  | template body => exact absurd isStored List.not_mem_nil
  | enumMember group => exact absurd isStored List.not_mem_nil
  | message kind text => exact absurd isStored List.not_mem_nil

/-- All that a member refers to before linking is its owner. -/
theorem Unlinked.mem_references (unlinked : decl.Unlinked) (owned : decl.owner? = some id)
    (isStored : reference ∈ decl.references) : reference = (.holder, id) := by
  have modifications := unlinked.modifications
  rcases decl with ⟨_, _, _, shape⟩
  cases shape <;>
    simp_all [owner?, member?, references, MemberDecl.references, Decl.modifications, block?]

theorem mem_references_addMember {kind : MemberKind}
    (isStored : reference ∈ (decl.mapBody (·.addMember kind id)).references) :
    reference ∈ decl.references ∨ reference = (.member kind, id) := by
  rcases decl with ⟨_, _, _, shape⟩
  cases shape <;>
    simp only [mapBody, mapBlock, references, Block.references, List.mem_append,
      Body.mem_references_addMember] at isStored ⊢ <;> grind

theorem mem_references_withRule (isStored : reference ∈ (decl.withRule id).references) :
    reference ∈ decl.references ∨ reference = (.rule, id) := by
  rcases decl with ⟨_, _, _, shape⟩
  cases shape with
  | production details =>
      simp only [withRule, mapProduction, references, List.map_append, List.map_cons,
        List.map_nil, List.mem_append, List.mem_singleton] at isStored ⊢
      exact or_assoc.mpr isStored
  | _ => exact .inl isStored

theorem mem_references_withModification {location : Location}
    (isStored : reference ∈ (decl.withModification location id).references) :
    reference ∈ decl.references ∨ reference = (.kind "modify", id) := by
  rcases decl with ⟨_, _, _, shape⟩
  cases shape <;> simp_all [withModification, mapBlock, references, Block.references] <;> grind

/-- The target is the only new reference of a `modify` block. -/
theorem mem_references_withTarget {fileName : String}
    (isStored : reference ∈ (decl.withTarget id fileName).references) :
    reference ∈ decl.references ∨ reference = (.block, id) := by
  rcases decl with ⟨_, _, _, shape⟩
  cases shape with
  | modifyDecl details =>
      simp only [withTarget, mapModify, references, Option.toList_some, List.map_cons,
        List.map_nil, List.mem_append, List.mem_singleton] at isStored ⊢
      rcases isStored with isMember | isTarget
      · exact .inl (.inl isMember)
      · exact .inr isTarget
  | _ => exact .inl isStored

theorem mem_references_noted {kind : MemberKind} {location : Location}
    (kindOf : decl.memberKind? = some kind)
    (isStored : reference ∈ (decl.mapMember fun details =>
      { details with
        modifiedAt := details.modifiedAt ++ [location]
        modifications := details.modifications ++ [id] }).references) :
    reference ∈ decl.references ∨ reference = (.member kind, id) := by
  rcases decl with ⟨_, _, _, shape⟩
  cases shape <;> simp_all [memberKind?, mapMember, references, MemberDecl.references] <;> grind

theorem mem_references_withHeir {heirIsClass : Bool}
    (isStored : reference ∈ (decl.mapClass fun details =>
      if heirIsClass then { details with subclasses := Graph.insertOnce details.subclasses id }
      else
        { details with globalObjects := Graph.insertOnce details.globalObjects id }).references) :
    reference ∈ decl.references ∨
      reference = (.kind (if heirIsClass then "class" else "object"), id) := by
  rcases decl with ⟨_, _, _, shape⟩
  cases heirIsClass <;> cases shape <;>
    simp_all [mapClass, references, Graph.mem_insertOnce] <;> grind

/-- Resolving bases adds the references that the names in the base list are resolved to. Those that
were resolved before were stored already. -/
theorem mem_references_resolved {resolve : BaseRef → BaseRef}
    (isStored : reference ∈ (decl.mapBlock fun block =>
      { block with bases := block.bases.map resolve }).references) :
    reference ∈ decl.references ∨
      ∃ target, .decl target ∈ decl.bases.map resolve ∧ reference = (.block, target) := by
  have ofBlock (block : Block)
      (isStored : reference ∈ { block with bases := block.bases.map resolve : Block }.references) :
      reference ∈ block.references ∨
        ∃ target, .decl target ∈ block.bases.map resolve ∧ reference = (.block, target) := by
    simp only [Block.references, List.mem_append] at isStored ⊢
    rcases isStored with (isMember | isBase) | isModification
    · exact .inl (.inl (.inl isMember))
    · rcases List.mem_flatMap.mp isBase with ⟨base, isBase, isTarget⟩
      cases base with
      | name name => exact absurd isTarget List.not_mem_nil
      | decl target => exact .inr ⟨target, isBase, List.mem_singleton.mp isTarget⟩
    · exact .inl (.inr isModification)
  rcases decl with ⟨_, _, _, shape⟩
  cases shape with
  | classDecl details =>
      simp only [mapBlock, references, List.mem_append] at isStored ⊢
      rcases isStored with ((isBlock | isProduction) | isSubclass) | isObject
      · exact (ofBlock details.block isBlock).imp_left fun old => .inl (.inl (.inl old))
      · exact .inl (.inl (.inl (.inr isProduction)))
      · exact .inl (.inl (.inr isSubclass))
      · exact .inl (.inr isObject)
  | objectDecl details => exact ofBlock details.block isStored
  | _ => exact .inl isStored

/-- A production that gathers members stores the numbers that it has gathered, and its rules as
before. -/
theorem mem_references_gathered {gather : ProductionDecl → MemberKind → List DeclId}
    (isStored : reference ∈ (decl.mapProduction fun details =>
      { details with
        body :=
          { details.body with
            methods := gather details .method
            properties := gather details .property } }).references) :
    reference ∈ decl.references ∨ ∃ details kind id, decl.kind = .production details ∧
      id ∈ gather details kind ∧ reference = (.member kind, id) := by
  rcases decl with ⟨_, _, _, shape⟩
  cases shape with
  | production details =>
      simp only [mapProduction, references, Body.references, List.mem_append, List.mem_map]
        at isStored
      rcases isStored with (⟨id, isMethod, rfl⟩ | ⟨id, isProperty, rfl⟩) | ⟨id, isRule, rfl⟩
      · exact .inr ⟨details, .method, id, rfl, isMethod, rfl⟩
      · exact .inr ⟨details, .property, id, rfl, isProperty, rfl⟩
      · exact .inl (mem_references_of_mem_matchClasses isRule)
  | _ => exact .inl isStored

theorem mem_references_sortLists {sort : List DeclId → List DeclId}
    (sorts : ∀ ids, (sort ids).Perm ids) :
    reference ∈ (decl.sortLists sort).references ↔ reference ∈ decl.references := by
  rcases decl with ⟨_, _, _, shape⟩
  cases shape <;>
    simp [sortLists, mapBody, mapBlock, mapClass, mapProduction, references, Block.references,
      Body.references, (sorts _).mem_iff]

theorem references_marked : decl.marked.references = decl.references := by
  rcases decl with ⟨_, _, _, shape⟩
  cases shape <;> rfl

end Decl

end TadsReference
