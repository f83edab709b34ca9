import TadsReference.Proofs.Graph.Skeletons

/-!
# What an entry adds

Recording an entry adds declarations behind the others, of which it leaves alone what was written in
them: the skeleton and the bases. Nor does it mark them. `adds_add` lists the declarations that each
entry adds. Apart from a production that is missing, they depend on the entry, on the last block and
on the number of groups alone.
-/

namespace TadsReference

/-- What was written of a declaration in the line that declares it, and whether it has been marked
as overriding another one since. -/
def Decl.written (decl : Decl) : Decl × List BaseRef × Bool :=
  (decl.skeleton, decl.bases, decl.overridden)

theorem Decl.written_mapBody (decl : Decl) (change : Body → Body) :
    (decl.mapBody change).written = decl.written := by
  rcases decl with ⟨_, _, _, kind⟩
  cases kind <;> rfl

theorem Decl.written_withRule (rule : DeclId) (decl : Decl) :
    (decl.withRule rule).written = decl.written := by
  rcases decl with ⟨_, _, _, kind⟩
  cases kind <;> rfl

namespace Graph

variable {graph before middle after : Graph} {added : List Decl} {id : DeclId}

/-- A graph is followed by one with some more declarations. What was written of those that it has
stays as it is. -/
def Adds (before : Graph) (added : List Decl) (after : Graph) : Prop :=
  after.decls.toList.map Decl.written =
    before.decls.toList.map Decl.written ++ added.map Decl.written

namespace Adds

theorem refl (graph : Graph) : Adds graph [] graph := by
  simp [Adds]

theorem trans {more : List Decl} (first : Adds before added middle)
    (second : Adds middle more after) : Adds before (added ++ more) after := by
  simp only [Adds] at first second ⊢
  rw [second, first, List.map_append, List.append_assoc]

section Further

variable (adds : Adds before added middle)

include adds

theorem aside (decls : after.decls = middle.decls) : Adds before added after := by
  rwa [Adds, decls]

/-- A declaration that is put behind the others is added as it was written, even if it carries more
than that. -/
theorem push {decl shown : Decl} (decls : after.decls = middle.decls.push decl)
    (written : decl.written = shown.written) : Adds before (added ++ [shown]) after := by
  apply adds.trans
  simp [Adds, decls, written]

/-- Changing a declaration adds nothing, so long as what was written of it stays. -/
theorem modifyDecl {change : Decl → Decl} (unchanged : ∀ decl, (change decl).written = decl.written)
    (id : DeclId) : Adds before added (middle.modifyDecl id change) := by
  have same : (middle.modifyDecl id change).decls.toList.map Decl.written =
      middle.decls.toList.map Decl.written := by
    apply List.ext_getElem?
    intro position
    simp only [Graph.modifyDecl, Array.toList_modify, List.getElem?_map, List.getElem?_modify]
    split
    · cases middle.decls.toList[position]? <;> simp [unchanged]
    · simp
  rwa [Adds, same]

end Further

section Lookup

variable (adds : Adds before added after)

include adds

theorem size : after.decls.size = before.decls.size + added.length := by
  simpa using congrArg List.length adds

/-- What is written of a declaration is what was written of it before, or as it was added. Which of
the two it is can be told from its number. -/
theorem written_decl (id : DeclId) :
    (after.decl id).written =
      if id < before.decls.size then (before.decl id).written
      else (added.getD (id - before.decls.size) default).written := by
  have same := congrArg (·[id]?) adds
  simp only [List.getElem?_map, List.getElem?_append, List.length_map, Array.length_toList,
    Array.getElem?_toList] at same
  simp only [decl, Array.getD_eq_getD_getElem?, List.getD_eq_getElem?_getD]
  split at same
  · next inside =>
      simp only [inside, if_true]
      rcases isAfter : after.decls[id]? with _ | decl <;>
        rcases isBefore : before.decls[id]? with _ | old <;> simp_all
  · next outside =>
      simp only [outside, if_false]
      rcases isAfter : after.decls[id]? with _ | decl <;>
        rcases isNew : added[id - before.decls.size]? with _ | new <;> simp_all

end Lookup

end Adds

/-! ### The additions -/

/-- The production of a name, if there is none yet. -/
def missingProduction (graph : Graph) (name : String) (location : Location) : List Decl :=
  match graph.findProduction? name with
  | some _ => []
  | none => [⟨name, "", location, .production { body := { fileName := "" } }⟩]

/-- What is written of a class. -/
def writtenClass (name description : String) (location : Location) (head : ClassHead)
    (grammar : Option GrammarLink) : Decl :=
  ⟨name, description, location, .classDecl
    { block := { body := { fileName := "" }, bases := head.bases.map .name }
      intrinsic := head.intrinsic
      action := head.action
      grammar := grammar
      macroCall := head.macroCall }⟩

/-- What a class adds: itself, behind its production if that is missing. -/
def classAdditions (graph : Graph) (name description : String) (location : Location)
    (head : ClassHead) : List Decl :=
  match head.rule with
  | none => [writtenClass name description location head none]
  | some rule =>
      let root := productionName name
      graph.missingProduction root location ++
        [writtenClass name description location head
          (some ⟨rule, (graph.findProduction? root).getD graph.nextId⟩)]

/-- What a class adds is either the production of its rule, which has nothing of its own, or the
class itself. -/
theorem mem_classAdditions_cases {name description : String} {location : Location}
    {head : ClassHead} {decl : Decl}
    (isAdded : decl ∈ graph.classAdditions name description location head) :
    decl = ⟨productionName name, "", location, .production { body := { fileName := "" } }⟩ ∨
      ∃ grammar, decl = writtenClass name description location head grammar := by
  rw [classAdditions] at isAdded
  split at isAdded
  · exact .inr ⟨_, List.mem_singleton.mp isAdded⟩
  · rcases List.mem_append.mp isAdded with isProduction | isClass
    · rw [missingProduction] at isProduction
      split at isProduction
      · contradiction
      · exact .inl (List.mem_singleton.mp isProduction)
    · exact .inr ⟨_, List.mem_singleton.mp isClass⟩

/-- A production that is required is added if it is missing, and its number is the next one in that
case. -/
theorem adds_requireProduction (graph : Graph) (name : String) (location : Location) :
    Adds graph (graph.missingProduction name location)
        (graph.requireProduction name location).2 ∧
      (graph.requireProduction name location).1 =
        (graph.findProduction? name).getD graph.nextId := by
  cases found : graph.findProduction? name with
  | some id =>
      simp only [requireProduction, missingProduction, found, Option.getD_some, and_true]
      exact .refl graph
  | none =>
      simp only [requireProduction, missingProduction, found]
      exact ⟨(Adds.refl graph).push rfl rfl, rfl⟩

/-- A class adds what was written of it. If it is a grammar rule, the production of the rule is
added in front of it, unless it is there already. Taking a name for the page of the class does not
matter to what the productions are. -/
theorem adds_recordClass (graph : Graph) (index : Nat) (name description : String)
    (location : Location) (head : ClassHead) :
    Adds graph (graph.classAdditions name description location head)
      (graph.recordClass index name description location head) := by
  have taken : Adds graph [] (graph.takeName name).2 := (Adds.refl graph).aside rfl
  have missing (root : String) : (graph.takeName name).2.missingProduction root location =
      graph.missingProduction root location := rfl
  have production (root : String) : ((graph.takeName name).2.findProduction? root).getD
      (graph.takeName name).2.nextId = (graph.findProduction? root).getD graph.nextId := rfl
  rcases takes : graph.takeName name with ⟨fileName, named⟩
  rw [takes] at taken missing production
  cases isRule : head.rule with
  | none =>
      simp only [recordClass, classAdditions, takes, isRule]
      exact taken.push rfl rfl
  | some rule =>
      simp only [recordClass, classAdditions, takes, isRule]
      rcases adds_requireProduction named (productionName name) location
        with ⟨required, isProduction⟩
      rw [missing] at required
      rw [production] at isProduction
      rw [isProduction]
      refine Adds.modifyDecl ?_ (Decl.written_withRule _) _
      exact (taken.trans required).push rfl rfl

namespace Recording

/-- What a declaration adds. A member needs a block that takes it. -/
def additions (state : Recording) (name description : String) (location : Location) :
    Declared → List Decl
  | .classBlock head => state.graph.classAdditions name description location head
  | .objectBlock head =>
      [⟨name, description, location, .objectDecl
        { block := { body := { fileName := "" }, bases := head.bases.map .name }
          transient := head.transient
          action := head.action }⟩]
  | .modifyBlock => [⟨name, description, location, .modifyDecl { body := { fileName := "" } }⟩]
  | .property interfaceOnly =>
      state.owner.toList.map fun owner =>
        ⟨name, description, location, .property { owner, interfaceOnly }⟩
  | .method parameters interfaceOnly =>
      state.owner.toList.map fun owner =>
        ⟨name, description, location, .method { owner, interfaceOnly } parameters⟩
  | .function parameters => [⟨name, description, location, .function parameters⟩]
  | .macroDefinition parameters body =>
      [⟨name, description, location, .macroDecl parameters body⟩]
  | .template body => [⟨name, description, location, .template body⟩]
  | .message kind text => [⟨name, description, location, .message kind text⟩]

/-- What an entry adds. The constants of an enumeration name the group that is added with them. -/
def entryAdditions (state : Recording) (shortName : String) : Entry → List Decl
  | .fileDescription _ => []
  | .declaration name description line declared =>
      state.additions name description ⟨shortName, line⟩ declared
  | .enumGroup _ line members =>
      members.map fun name => ⟨name, "", ⟨shortName, line⟩, .enumMember state.graph.groups.size⟩

theorem adds_addMember (graph : Graph) (owner : DeclId) (kind : MemberKind) (decl : Decl) :
    Adds graph [decl] (graph.addMember owner kind decl) :=
  Adds.modifyDecl ((Adds.refl graph).push rfl rfl) (fun holder => holder.written_mapBody _) owner

/-- What a line declares adds what its additions say. The proof takes each kind of declaration with
the function that records it, and a member that follows no block adds nothing. -/
theorem adds_declare (state : Recording) (index : Nat) (name description : String)
    (location : Location) (declared : Declared) :
    Adds state.graph (state.additions name description location declared)
      (state.declare index name description location declared).graph := by
  have start := Adds.refl state.graph
  cases declared with
  | classBlock head => exact adds_recordClass ..
  | objectBlock head => exact start.push rfl rfl
  | modifyBlock => exact start.push rfl rfl
  | property interfaceOnly =>
      cases isOwner : state.owner with
      | none =>
          simp only [declare, additions, isOwner]
          exact start
      | some owner =>
          simp only [declare, additions, isOwner]
          exact adds_addMember ..
  | method parameters interfaceOnly =>
      cases isOwner : state.owner with
      | none =>
          simp only [declare, additions, isOwner]
          exact start
      | some owner =>
          simp only [declare, additions, isOwner]
          exact adds_addMember ..
  | function parameters => exact start.push rfl rfl
  | macroDefinition parameters body => exact start.push rfl rfl
  | template body => exact start.push rfl rfl
  | message kind text => exact start.push rfl rfl

theorem adds_add (state : Recording) (index : Nat) (shortName : String) (entry : Entry) :
    Adds state.graph (state.entryAdditions shortName entry)
      (state.add index shortName entry).graph := by
  cases entry with
  | fileDescription text => exact (Adds.refl state.graph).aside rfl
  | declaration name description line declared => exact adds_declare ..
  | enumGroup description line members =>
      simp [Adds, add, recordEnum, modifyFile, entryAdditions]

end Recording

end Graph

end TadsReference
