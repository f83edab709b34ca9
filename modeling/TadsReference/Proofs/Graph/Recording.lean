import Mathlib.Logic.Relation
import TadsReference.Graph.Record
import TadsReference.Proofs.Graph.Views

/-!
# What recording does to a graph

Whatever a file declares, recording it is a sequence of four kinds of steps: something other than
the declarations changes, a declaration is added, a member is added to the last block, or a class
joins a production. `steps_record` says so, and invariants of graphs that have not been linked are
proved for each kind of step.
-/

namespace TadsReference

open Relation

/-- A declaration of which linking has noted nothing. -/
structure Decl.Unlinked (decl : Decl) : Prop where
  modifications : decl.modifications = []
  modifiedAt : decl.modifiedAt = []
  target : decl.target? = none
  overridden : decl.overridden = false
  subclasses : decl.subclasses = []
  globalObjects : decl.globalObjects = []
  bases : ∀ base ∈ decl.bases, base.decl? = none

/-- A declaration as it is added, members apart: it holds nothing but what its own line says. -/
structure Decl.Bare (decl : Decl) : Prop extends decl.Unlinked where
  member : decl.member? = none
  members : ∀ kind, decl.members kind = []
  matchClasses : decl.matchClasses = []

namespace Decl

/-- A production with one more rule. -/
def withRule (rule : DeclId) (decl : Decl) : Decl :=
  decl.mapProduction fun details =>
    { details with matchClasses := details.matchClasses ++ [rule] }

section WithRule

variable (rule : DeclId) (decl : Decl)

@[simp]
theorem head_withRule : (decl.withRule rule).head = decl.head := by
  rcases decl with ⟨_, _, _, kind⟩
  cases kind <;> rfl

@[simp]
theorem members_withRule (kind : MemberKind) :
    (decl.withRule rule).members kind = decl.members kind := by
  rcases decl with ⟨_, _, _, shape⟩
  cases shape <;> rfl

@[simp]
theorem owner?_withRule : (decl.withRule rule).owner? = decl.owner? := by
  rcases decl with ⟨_, _, _, kind⟩
  cases kind <;> rfl

@[simp]
theorem memberKind?_withRule : (decl.withRule rule).memberKind? = decl.memberKind? := by
  rcases decl with ⟨_, _, _, kind⟩
  cases kind <;> rfl

theorem mem_matchClasses_withRule {other : DeclId}
    (isRule : other ∈ (decl.withRule rule).matchClasses) :
    other ∈ decl.matchClasses ∨ other = rule := by
  rcases decl with ⟨_, _, _, kind⟩
  cases kind <;> simp_all [withRule, mapProduction, matchClasses]

theorem Unlinked.withRule {decl : Decl} (unlinked : decl.Unlinked) :
    (decl.withRule rule).Unlinked := by
  rcases decl with ⟨_, _, _, kind⟩
  rcases unlinked with ⟨_, _, _, _, _, _, _⟩
  cases kind <;> constructor <;> assumption

end WithRule

/-- Bodies hold members and nothing that linking notes, so changing one leaves a declaration
unlinked. -/
theorem Unlinked.mapBody {decl : Decl} (unlinked : decl.Unlinked) (change : Body → Body) :
    (decl.mapBody change).Unlinked := by
  rcases decl with ⟨_, _, _, kind⟩
  rcases unlinked with ⟨_, _, _, _, _, _, _⟩
  cases kind <;> constructor <;> assumption

variable {name description : String} {location : Location} {details : MemberDecl}

theorem bare_class (fileName : String) (bases : List String) (intrinsic action : Bool)
    (grammar : Option GrammarLink) (macroCall : Option String) :
    Bare ⟨name, description, location, .classDecl
      { block := { body := { fileName }, bases := bases.map .name }
        intrinsic, action, grammar, macroCall }⟩ := by
  constructor
  · constructor <;> first | rfl | simp [Decl.bases, block?, BaseRef.decl?]
  · rfl
  · rintro (_ | _) <;> rfl
  · rfl

theorem bare_object (fileName : String) (bases : List String) (transient action : Bool) :
    Bare ⟨name, description, location, .objectDecl
      { block := { body := { fileName }, bases := bases.map .name }, transient, action }⟩ := by
  constructor
  · constructor <;> first | rfl | simp [Decl.bases, block?, BaseRef.decl?]
  · rfl
  · rintro (_ | _) <;> rfl
  · rfl

/-- A declaration of a kind that is neither a block nor a member is bare if it has no members and
no rules. -/
theorem bare_of_block?_eq_none {decl : Decl} (block : decl.block? = none)
    (member : decl.member? = none) (target : decl.target? = none)
    (members : ∀ kind, decl.members kind = []) (matchClasses : decl.matchClasses = []) :
    Bare decl := by
  have class? : decl.class? = none := by
    rcases decl with ⟨_, _, _, kind⟩
    cases kind <;> simp_all [block?, Decl.class?]
  constructor
  · constructor <;>
      simp [Decl.modifications, Decl.modifiedAt, Decl.overridden, Decl.subclasses,
        Decl.globalObjects, Decl.bases, block, member, target, class?]
  · exact member
  · exact members
  · exact matchClasses

end Decl

namespace Graph

/-! ### Declarations in the order of their numbers -/

/-- The declarations that pass a test, in the order in which they were added. -/
def idsWhere (graph : Graph) (select : Decl → Bool) : List DeclId :=
  (List.range graph.decls.size).filter fun id => select (graph.decl id)

/-- The declarations of a kind. -/
def labelled (graph : Graph) (label : String) : List DeclId :=
  graph.idsWhere fun decl => decl.kindLabel == label

/-- The members of a kind that were declared in a block. -/
def owned (graph : Graph) (owner : DeclId) (kind : MemberKind) : List DeclId :=
  graph.idsWhere fun decl => decl.owner? == some owner && decl.memberKind? == some kind

variable {before after graph : Graph}

theorem mem_idsWhere {select : Decl → Bool} {id : DeclId} :
    id ∈ graph.idsWhere select ↔ id < graph.decls.size ∧ select (graph.decl id) = true := by
  simp [idsWhere]

theorem pairwise_lt_idsWhere (graph : Graph) (select : Decl → Bool) :
    (graph.idsWhere select).Pairwise (· < ·) :=
  List.pairwise_lt_range.filter _

theorem Keeps.idsWhere {select : Decl → Bool} (kept : Keeps select before after)
    (size : after.decls.size = before.decls.size) :
    after.idsWhere select = before.idsWhere select := by
  simp only [Graph.idsWhere, size, kept _]

theorem Keeps.labelled (kept : Keeps Decl.head before after)
    (size : after.decls.size = before.decls.size) (label : String) :
    after.labelled label = before.labelled label :=
  Keeps.idsWhere (fun id => by rw [kept.kindLabel id]) size

theorem decl_of_push {decl : Decl} (decls : after.decls = before.decls.push decl)
    (id : DeclId) : after.decl id = if id = before.nextId then decl else before.decl id := by
  simp only [Graph.decl, decls, nextId, Array.getD_eq_getD_getElem?, Array.getElem?_push]
  split <;> rfl

theorem decl_newest_of_push {decl : Decl} (decls : after.decls = before.decls.push decl) :
    after.decl before.nextId = decl := by
  rw [decl_of_push decls, if_pos rfl]

theorem size_of_push {decl : Decl} (decls : after.decls = before.decls.push decl) :
    after.decls.size = before.decls.size + 1 := by
  rw [decls, Array.size_push]

theorem idsWhere_of_push {decl : Decl} (decls : after.decls = before.decls.push decl)
    (select : Decl → Bool) :
    after.idsWhere select =
      before.idsWhere select ++ if select decl then [before.nextId] else [] := by
  simp only [Graph.idsWhere, size_of_push decls, List.range_succ, List.filter_append]
  congr 1
  · apply List.filter_congr
    intro id inside
    have other : id ≠ before.nextId := Nat.ne_of_lt (List.mem_range.mp inside)
    rw [decl_of_push decls, if_neg other]
  · simp only [decl_of_push decls, nextId, List.filter_cons, List.filter_nil, if_true]

/-! ### The steps -/

/-- One step of recording. -/
inductive RecordStep (before : Graph) : Graph → Prop where
  /-- Something other than the declarations and their lists changes. -/
  | aside {after : Graph} (decls : after.decls = before.decls)
      (lists : ∀ listing, after.listed listing = before.listed listing) : RecordStep before after
  /-- A declaration that is not a member is added, and listed by its kind. -/
  | declare {after : Graph} (decl : Decl) (bare : decl.Bare)
      (decls : after.decls = before.decls.push decl)
      (lists : ∀ listing, after.listed listing =
        if listing.label = decl.kindLabel then before.listed listing ++ [before.nextId]
        else before.listed listing) :
      RecordStep before after
  /-- A member is added to the last block. -/
  | member (owner : DeclId) (kind : MemberKind) (decl : Decl) (unlinked : decl.Unlinked)
      (owned : decl.owner? = some owner) (kindOf : decl.memberKind? = some kind)
      (takes : (before.decl owner).takesMembers = true)
      (last : ∀ other, owner < other → (before.decl other).takesMembers = false) :
      RecordStep before (before.addMember owner kind decl)
  /-- A class joins a production. -/
  | join (production rule : DeclId) (isClass : (before.decl rule).isClass = true) :
      RecordStep before (before.modifyDecl production (Decl.withRule rule))

/-! ### Recording in steps -/

theorem RecordStep.modifyFile (graph : Graph) (index : Nat)
    (change : FileRecord → FileRecord) : RecordStep graph (graph.modifyFile index change) :=
  .aside rfl fun listing => by cases listing <;> rfl

theorem RecordStep.takeName (graph : Graph) (name : String) :
    RecordStep graph (graph.takeName name).2 :=
  .aside rfl fun listing => by cases listing <;> rfl

theorem RecordStep.addClass (index : Nat) {decl : Decl} (bare : decl.Bare)
    (label : decl.kindLabel = "class") : RecordStep graph (graph.addClass index decl) :=
  .declare decl bare rfl fun listing => by cases listing <;> simp [label, Listing.label] <;> rfl

theorem RecordStep.addObject (index : Nat) {decl : Decl} (bare : decl.Bare)
    (label : decl.kindLabel = "object") : RecordStep graph (graph.addObject index decl) :=
  .declare decl bare rfl fun listing => by cases listing <;> simp [label, Listing.label] <;> rfl

theorem RecordStep.addFunction (index : Nat) {decl : Decl} (bare : decl.Bare)
    (label : decl.kindLabel = "function") : RecordStep graph (graph.addFunction index decl) :=
  .declare decl bare rfl fun listing => by cases listing <;> simp [label, Listing.label] <;> rfl

theorem RecordStep.addMacro (index : Nat) {decl : Decl} (bare : decl.Bare)
    (label : decl.kindLabel = "macro") : RecordStep graph (graph.addMacro index decl) :=
  .declare decl bare rfl fun listing => by cases listing <;> simp [label, Listing.label] <;> rfl

theorem RecordStep.addTemplate (index : Nat) {decl : Decl} (bare : decl.Bare)
    (label : decl.kindLabel = "template") : RecordStep graph (graph.addTemplate index decl) :=
  .declare decl bare rfl fun listing => by cases listing <;> simp [label, Listing.label] <;> rfl

theorem RecordStep.addModification {decl : Decl} (bare : decl.Bare)
    (label : decl.kindLabel = "modify") : RecordStep graph (graph.addModification decl) :=
  .declare decl bare rfl fun listing => by cases listing <;> simp [label, Listing.label] <;> rfl

theorem RecordStep.addMessage {decl : Decl} (bare : decl.Bare)
    (label : decl.kindLabel = "message") : RecordStep graph (graph.addMessage decl) :=
  .declare decl bare rfl fun listing => by cases listing <;> simp [label, Listing.label] <;> rfl

/-- Requiring a production adds it if there is none of the name, and is idle otherwise. -/
theorem steps_requireProduction (graph : Graph) (name : String) (location : Location) :
    ReflTransGen RecordStep graph (graph.requireProduction name location).2 := by
  rw [requireProduction]
  split
  · exact .refl
  · apply ReflTransGen.head (RecordStep.takeName graph name)
    apply ReflTransGen.single
    apply RecordStep.declare _ _ rfl
    · intro listing
      cases listing <;> rfl
    · apply Decl.bare_of_block?_eq_none rfl rfl rfl _ rfl
      rintro (_ | _) <;> rfl

theorem decl_addClass (graph : Graph) (index : Nat) (decl : Decl) (id : DeclId) :
    (graph.addClass index decl).decl id = if id = graph.nextId then decl else graph.decl id := by
  have decls : (graph.addClass index decl).decls = graph.decls.push decl := rfl
  exact decl_of_push decls id

/-- A class is recorded in a few steps: taking a name, requiring the production if it is a rule,
adding the class and joining it to the production. -/
theorem steps_recordClass (graph : Graph) (index : Nat) (name description : String)
    (location : Location) (head : ClassHead) :
    ReflTransGen RecordStep graph (graph.recordClass index name description location head) := by
  have taken := RecordStep.takeName graph name
  rcases takes : graph.takeName name with ⟨fileName, named⟩
  rw [takes] at taken
  simp only [recordClass, takes]
  split
  · exact .tail (.single taken) (.addClass index (Decl.bare_class ..) rfl)
  · next rule _ =>
      have required := steps_requireProduction named (productionName name) location
      rcases requires : named.requireProduction (productionName name) location
        with ⟨production, joined⟩
      rw [requires] at required
      have added : RecordStep joined (joined.addClass index
          ⟨name, description, location, .classDecl
            { block := { body := { fileName }, bases := head.bases.map .name }
              intrinsic := head.intrinsic
              action := head.action
              grammar := some ⟨rule, production⟩
              macroCall := head.macroCall }⟩) :=
        .addClass index (Decl.bare_class ..) rfl
      apply ReflTransGen.tail (.tail (.head taken required) added)
      apply RecordStep.join
      rw [decl_addClass, if_pos rfl]
      rfl

theorem steps_recordObject (graph : Graph) (index : Nat) (name description : String)
    (location : Location) (head : ObjectHead) :
    ReflTransGen RecordStep graph (graph.recordObject index name description location head) :=
  .tail (.single (RecordStep.takeName graph name)) (.addObject index (Decl.bare_object ..) rfl)

/-- A declaration that takes no members may be added without there being another block that takes
some. -/
theorem keeps_takesMembers_of_push {decl : Decl} (decls : after.decls = before.decls.push decl)
    (takesNone : decl.takesMembers = false) : Keeps Decl.takesMembers before after := by
  intro id
  rw [decl_of_push decls]
  split
  · next newest =>
      rw [takesNone, newest, decl_nextId]
      rfl
  · rfl

/-- Constants are added one by one, none of which takes members. The induction goes from the end of
the list, since that is where arrays grow. -/
theorem steps_appendEnums (graph : Graph) (group : GroupId) (location : Location)
    (names : List String) :
    let appended := { graph with
      decls := graph.decls ++ (names.map fun name : String =>
        (⟨name, "", location, .enumMember group⟩ : Decl)).toArray }
    ReflTransGen RecordStep graph appended ∧ Keeps Decl.takesMembers graph appended := by
  induction names generalizing graph with
  | nil => simpa using ⟨.refl, Keeps.refl _ _⟩
  | cons name names ih =>
      have added : RecordStep graph
          { graph with decls := graph.decls.push ⟨name, "", location, .enumMember group⟩ } := by
        apply RecordStep.declare _ _ rfl
        · intro listing
          cases listing <;> rfl
        · apply Decl.bare_of_block?_eq_none rfl rfl rfl _ rfl
          rintro (_ | _) <;> rfl
      rcases ih { graph with decls := graph.decls.push ⟨name, "", location, .enumMember group⟩ }
        with ⟨steps, kept⟩
      have keptNow := (keeps_takesMembers_of_push rfl rfl).trans kept
      exact ⟨by simpa using ReflTransGen.head added steps, by simpa using keptNow⟩

theorem steps_recordEnum (graph : Graph) (index : Nat) (description : String)
    (location : Location) (members : List String) :
    ReflTransGen RecordStep graph
      (graph.recordEnum index description location members) := by
  apply ReflTransGen.tail (steps_appendEnums graph graph.groups.size location members).1
  exact .aside rfl fun listing => by cases listing <;> rfl

/-! ### The last block -/

namespace Recording

/-- The block that takes the members of the file is the last block of the graph. -/
def OwnerIsLast (state : Recording) : Prop :=
  ∀ owner, state.owner = some owner →
    (state.graph.decl owner).takesMembers = true ∧
      ∀ other, owner < other → (state.graph.decl other).takesMembers = false

theorem ownerIsLast_of_newest {owner : DeclId} (newest : graph.decls.size = owner + 1)
    (takes : (graph.decl owner).takesMembers = true) : OwnerIsLast ⟨graph, some owner⟩ := by
  rintro _ ⟨⟩
  refine ⟨takes, ?_⟩
  intro other behind
  have outside : graph.decls.size ≤ other := Nat.le_trans (Nat.le_of_eq newest) behind
  rw [decl_of_size_le outside]
  rfl

theorem OwnerIsLast.of_keeps {state : Recording} (last : state.OwnerIsLast)
    (kept : Keeps Decl.takesMembers state.graph after) : OwnerIsLast ⟨after, state.owner⟩ := by
  intro owner isOwner
  rcases last owner isOwner with ⟨takes, none⟩
  refine ⟨(kept owner).trans takes, ?_⟩
  intro other behind
  exact (kept other).trans (none other behind)

/-- The class itself is the last declaration that recording it adds, behind the production that it
may need. -/
theorem newest_recordClass (graph : Graph) (index : Nat) (name description : String)
    (location : Location) (head : ClassHead) :
    ∃ owner, (graph.recordClass index name description location head).decls.size = owner + 1 ∧
      ((graph.recordClass index name description location head).decl owner).takesMembers =
        true := by
  rcases takes : graph.takeName name with ⟨fileName, named⟩
  simp only [recordClass, takes]
  split
  · refine ⟨named.nextId, by simp [nextId, addClass, addDecl, modifyFile], ?_⟩
    rw [decl_addClass, if_pos rfl]
    rfl
  · rcases named.requireProduction (productionName name) location with ⟨production, joined⟩
    refine ⟨joined.nextId, by simp [nextId, addClass, addDecl, modifyFile, modifyDecl], ?_⟩
    have joins := Keeps.modifyDecl (Decl.head_withRule joined.nextId)
    refine ((joins _ production).takesMembers _).trans ?_
    rw [decl_addClass, if_pos rfl]
    rfl

/-- Recording went on in steps, and the last block still takes the members. -/
def GoesOn (before after : Recording) : Prop :=
  ReflTransGen RecordStep before.graph after.graph ∧ after.OwnerIsLast

/-- A declaration that is neither a block nor a member leaves the last block in place. -/
theorem goesOn_of_declare {state : Recording} (last : state.OwnerIsLast) {decl : Decl}
    (step : RecordStep state.graph after) (decls : after.decls = state.graph.decls.push decl)
    (takesNone : decl.takesMembers = false) : GoesOn state { state with graph := after } :=
  ⟨.single step, last.of_keeps (keeps_takesMembers_of_push decls takesNone)⟩

theorem keeps_head_addMember (graph : Graph) (owner : DeclId) (kind : MemberKind) (decl : Decl) :
    Keeps Decl.head (graph.addDecl decl) (graph.addMember owner kind decl) :=
  Keeps.modifyDecl (fun holder => Decl.head_mapBody holder _) _ _

/-- A member is added to the last block in one step, and that block remains the last one, for
members take no members. -/
theorem goesOn_of_member {state : Recording} (last : state.OwnerIsLast) {owner : DeclId}
    (isOwner : state.owner = some owner) {kind : MemberKind} {decl : Decl}
    (unlinked : decl.Unlinked) (owned : decl.owner? = some owner)
    (kindOf : decl.memberKind? = some kind) (takesNone : decl.takesMembers = false) :
    GoesOn state { state with graph := state.graph.addMember owner kind decl } := by
  rcases last owner isOwner with ⟨takes, none⟩
  refine ⟨.single (.member owner kind decl unlinked owned kindOf takes none), ?_⟩
  apply last.of_keeps
  intro id
  rw [(keeps_head_addMember state.graph owner kind decl).takesMembers id]
  exact keeps_takesMembers_of_push rfl takesNone id

/-- Each kind of declaration goes on from the last block. Classes, objects and `modify` blocks
become the last block themselves, members are added to it, and nothing else touches it. -/
theorem goesOn_declare {state : Recording} (last : state.OwnerIsLast) (index : Nat)
    (name description : String) (location : Location) (declared : Declared) :
    GoesOn state (state.declare index name description location declared) := by
  cases declared with
  | classBlock head =>
      refine ⟨steps_recordClass .., ?_⟩
      rcases newest_recordClass state.graph index name description location head
        with ⟨owner, size, takes⟩
      simp only [declare, nextId, size, Nat.add_sub_cancel]
      exact ownerIsLast_of_newest size takes
  | objectBlock head =>
      have decls : (state.graph.recordObject index name description location head).decls =
          state.graph.decls.push _ := rfl
      refine ⟨steps_recordObject .., ownerIsLast_of_newest (size_of_push decls) ?_⟩
      rw [decl_newest_of_push decls]
      rfl
  | modifyBlock =>
      refine ⟨.single (.addModification ?_ rfl), ownerIsLast_of_newest (size_of_push rfl) ?_⟩
      · apply Decl.bare_of_block?_eq_none rfl rfl rfl _ rfl
        rintro (_ | _) <;> rfl
      · rw [decl_newest_of_push rfl]
        rfl
  | property interfaceOnly =>
      simp only [declare]
      split
      · exact ⟨.refl, last⟩
      · next owner isOwner =>
          refine goesOn_of_member last isOwner ?_ rfl rfl rfl
          constructor <;> first | rfl | simp [Decl.bases, Decl.block?]
  | method parameters interfaceOnly =>
      simp only [declare]
      split
      · exact ⟨.refl, last⟩
      · next owner isOwner =>
          refine goesOn_of_member last isOwner ?_ rfl rfl rfl
          constructor <;> first | rfl | simp [Decl.bases, Decl.block?]
  | function parameters =>
      refine goesOn_of_declare last (.addFunction index ?_ rfl) rfl rfl
      apply Decl.bare_of_block?_eq_none rfl rfl rfl _ rfl
      rintro (_ | _) <;> rfl
  | macroDefinition parameters body =>
      refine goesOn_of_declare last (.addMacro index ?_ rfl) rfl rfl
      apply Decl.bare_of_block?_eq_none rfl rfl rfl _ rfl
      rintro (_ | _) <;> rfl
  | template body =>
      refine goesOn_of_declare last (.addTemplate index ?_ rfl) rfl rfl
      apply Decl.bare_of_block?_eq_none rfl rfl rfl _ rfl
      rintro (_ | _) <;> rfl
  | message kind text =>
      refine goesOn_of_declare last (.addMessage ?_ rfl) rfl rfl
      apply Decl.bare_of_block?_eq_none rfl rfl rfl _ rfl
      rintro (_ | _) <;> rfl

theorem goesOn_add {state : Recording} (last : state.OwnerIsLast) (index : Nat)
    (shortName : String) (entry : Entry) : GoesOn state (state.add index shortName entry) := by
  cases entry with
  | fileDescription text =>
      exact ⟨.single (.modifyFile ..), last.of_keeps (Keeps.refl _ _)⟩
  | declaration name description line declared => exact goesOn_declare last ..
  | enumGroup description line members =>
      refine ⟨steps_recordEnum .., last.of_keeps ?_⟩
      exact (steps_appendEnums state.graph state.graph.groups.size ⟨shortName, line⟩ members).2

theorem goesOn_foldl {state : Recording} (last : state.OwnerIsLast) (index : Nat)
    (shortName : String) (entries : List Entry) :
    GoesOn state (entries.foldl (add index shortName) state) := by
  induction entries generalizing state with
  | nil => exact ⟨.refl, last⟩
  | cons entry entries ih =>
      rcases goesOn_add last index shortName entry with ⟨steps, lastNext⟩
      rcases ih lastNext with ⟨later, lastLater⟩
      exact ⟨steps.trans later, lastLater⟩

end Recording

/-- Recording the entries of a file is a sequence of steps. -/
theorem steps_record (graph : Graph) (index : Nat) (entries : List Entry) :
    ReflTransGen RecordStep graph (graph.record index entries) := by
  have start : Recording.OwnerIsLast ⟨graph, none⟩ := by
    rintro _ ⟨⟩
  exact (Recording.goesOn_foldl start index _ entries).1

end Graph

end TadsReference
