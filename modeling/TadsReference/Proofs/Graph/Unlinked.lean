import TadsReference.Graph.Record
import TadsReference.Proofs.Graph.Recording

/-!
# Graphs that have not been linked

As long as files are only read, the graph's lists hold the declarations of their kinds in the order
of their numbers, each body lists the members that were declared in it in that order, and a member
is declared in the last block before it. `unlinked_readAll` states all of this for any files in any
order; it is what the results on linking start from.
-/

namespace TadsReference

open Relation

/-- How a file is read: the position of its record, whether the language directory has been
declared before, what the file and its mirror hold, and the macros that it sees. -/
structure FileReading where
  index : Nat
  languageSeen : Bool
  name : String
  content : List UInt8
  mirror : Option (List UInt8)
  macros : Option MacroScope

namespace Graph

/-- Reads a file. What it declares before a failure is kept. -/
def read (graph : Graph) (reading : FileReading) : Graph :=
  (graph.classifyFile reading.languageSeen reading.index
    (Reader.ofContent reading.name reading.content reading.mirror reading.macros)).graph

/-- Reads files one after the other. -/
def readAll (graph : Graph) (readings : List FileReading) : Graph :=
  readings.foldl read graph

theorem steps_read (graph : Graph) (reading : FileReading) :
    ReflTransGen RecordStep graph (graph.read reading) :=
  steps_record ..

/-- What holds of a graph that has not been linked. -/
structure Unlinked (graph : Graph) : Prop where
  listed : ∀ listing, graph.listed listing = graph.labelled listing.label
  members : ∀ id kind, (graph.decl id).members kind = graph.owned id kind
  owners : ∀ member owner, (graph.decl member).owner? = some owner →
    owner < member ∧ (graph.decl owner).takesMembers = true ∧
      ∀ other, owner < other → other < member → (graph.decl other).takesMembers = false
  decls : ∀ id, (graph.decl id).Unlinked
  rules : ∀ production rule, rule ∈ (graph.decl production).matchClasses →
    (graph.decl rule).isClass = true

theorem unlinked_default : (default : Decl).Unlinked := by
  constructor <;> first | rfl | simp [Decl.bases, Decl.block?, default]

/-- A graph without declarations has nothing in its lists. -/
theorem unlinked_ofFiles (files : List SourceFile) : (ofFiles files).Unlinked where
  listed listing := by cases listing <;> rfl
  members _ kind := by cases kind <;> rfl
  owners member owner isOwner := by
    rw [decl_of_size_le (Nat.zero_le _)] at isOwner
    contradiction
  decls id := by
    rw [decl_of_size_le (Nat.zero_le _)]
    exact unlinked_default
  rules production rule isRule := by
    rw [decl_of_size_le (Nat.zero_le _)] at isRule
    contradiction

/-! ### What a step keeps -/

variable {before after : Graph}

theorem idsWhere_of_decls_eq (decls : after.decls = before.decls) (select : Decl → Bool) :
    after.idsWhere select = before.idsWhere select := by
  simp only [idsWhere, decls, decl_of_decls_eq decls]

namespace Unlinked

/-- A change that touches neither declarations nor the lists of them leaves a graph unlinked. -/
theorem aside (unlinked : before.Unlinked) (decls : after.decls = before.decls)
    (lists : ∀ listing, after.listed listing = before.listed listing) : after.Unlinked := by
  have same := decl_of_decls_eq decls
  constructor
  · intro listing
    rw [lists, unlinked.listed, labelled, labelled, idsWhere_of_decls_eq decls]
  · intro id kind
    rw [same, unlinked.members, owned, owned, idsWhere_of_decls_eq decls]
  · simpa only [same] using unlinked.owners
  · simpa only [same] using unlinked.decls
  · simpa only [same] using unlinked.rules

theorem lt_nextId_of_owner? {member owner : DeclId}
    (isOwner : (before.decl member).owner? = some owner) : member < before.nextId := by
  apply lt_size_of_decl_ne
  intro same
  simp [same, Decl.owner?, Decl.member?, default] at isOwner

/-- A declaration that comes next owns nothing yet. -/
theorem owned_nextId (unlinked : before.Unlinked) (kind : MemberKind) :
    before.owned before.nextId kind = [] := by
  apply List.eq_nil_iff_forall_not_mem.mpr
  intro member isOwned
  have facts := mem_idsWhere.mp isOwned
  simp only [Bool.and_eq_true, beq_iff_eq] at facts
  have earlier := (unlinked.owners member before.nextId facts.2.1).1
  exact Nat.lt_irrefl _ (Nat.lt_trans earlier facts.1)

/-- A bare declaration is added and put into the list of its kind. It is the last one there, as its
number is the greatest, and it neither owns nor is owned by anything, so all bodies list what they
did. -/
theorem declare (unlinked : before.Unlinked) {decl : Decl} (bare : decl.Bare)
    (decls : after.decls = before.decls.push decl)
    (lists : ∀ listing, after.listed listing =
      if listing.label = decl.kindLabel then before.listed listing ++ [before.nextId]
      else before.listed listing) : after.Unlinked := by
  have ownerNone : decl.owner? = none := by simp [Decl.owner?, bare.member]
  have newest := decl_newest_of_push decls
  have old : ∀ id, id ≠ before.nextId → after.decl id = before.decl id := by
    intro id other
    rw [decl_of_push decls, if_neg other]
  have owned : ∀ id kind, after.owned id kind = before.owned id kind := by
    intro id kind
    simp [Graph.owned, idsWhere_of_push decls, ownerNone]
  constructor
  · intro listing
    rw [lists, labelled, idsWhere_of_push decls, unlinked.listed]
    by_cases same : listing.label = decl.kindLabel
    · simp [same, labelled]
    · simp [same, Ne.symm same, labelled]
  · intro id kind
    rw [owned]
    by_cases same : id = before.nextId
    · rw [same, newest, bare.members, unlinked.owned_nextId]
    · rw [old id same, unlinked.members]
  · intro member owner isOwner
    have inside : member ≠ before.nextId := by
      rintro rfl
      rw [newest, ownerNone] at isOwner
      contradiction
    rw [old member inside] at isOwner
    have memberLt := lt_nextId_of_owner? isOwner
    rcases unlinked.owners member owner isOwner with ⟨ownerLt, takes, none⟩
    refine ⟨ownerLt, ?_, ?_⟩
    · rwa [old owner (Nat.ne_of_lt (Nat.lt_trans ownerLt memberLt))]
    · intro other behind front
      rw [old other (Nat.ne_of_lt (Nat.lt_trans front memberLt))]
      exact none other behind front
  · intro id
    by_cases same : id = before.nextId
    · rw [same, newest]
      exact bare.toUnlinked
    · rw [old id same]
      exact unlinked.decls id
  · intro production rule isRule
    have inside : production ≠ before.nextId := by
      rintro rfl
      rw [newest, bare.matchClasses] at isRule
      contradiction
    rw [old production inside] at isRule
    have isClass := unlinked.rules production rule isRule
    have ruleLt : rule < before.nextId := lt_size_of_view rfl isClass
    rwa [old rule (Nat.ne_of_lt ruleLt)]

/-- What a view of declarations shows of a graph to which a member is added. -/
theorem view_addMember {Value : Type} (view : Decl → Value)
    (unchanged : ∀ holder change, view (Decl.mapBody change holder) = view holder)
    {owner : DeclId} {kind : MemberKind} {decl : Decl} (id : DeclId) :
    view ((before.addMember owner kind decl).decl id) =
      if id = before.nextId then view decl else view (before.decl id) := by
  have kept : Keeps view (before.addDecl decl) (before.addMember owner kind decl) :=
    Keeps.modifyDecl (fun holder => unchanged holder _) _ _
  have pushed : (before.addDecl decl).decls = before.decls.push decl := rfl
  rw [kept id, decl_of_push pushed]
  split <;> rfl

theorem members_of_owner? {decl : Decl} {owner : DeclId} (isOwner : decl.owner? = some owner)
    (kind : MemberKind) : decl.members kind = [] := by
  rcases decl with ⟨_, _, _, shape⟩
  cases shape <;> simp_all [Decl.owner?, Decl.member?, Decl.members, Decl.body?]

theorem matchClasses_of_owner? {decl : Decl} {owner : DeclId}
    (isOwner : decl.owner? = some owner) : decl.matchClasses = [] := by
  rcases decl with ⟨_, _, _, shape⟩
  cases shape <;> simp_all [Decl.owner?, Decl.member?, Decl.matchClasses]

theorem label_ne_of_owner? {decl : Decl} {owner : DeclId} (isOwner : decl.owner? = some owner)
    (listing : Listing) : decl.kindLabel ≠ listing.label := by
  rcases decl with ⟨_, _, _, shape⟩
  cases shape <;> cases listing <;>
    simp_all [Decl.owner?, Decl.member?, Decl.kindLabel, Listing.label]

/-- A member that is added is selected last. Its owner is selected as before, if the selection does
not look at members. -/
theorem idsWhere_addMember {owner : DeclId} {kind : MemberKind} {decl : Decl}
    {select : Decl → Bool}
    (unchanged : ∀ holder change, select (Decl.mapBody change holder) = select holder) :
    (before.addMember owner kind decl).idsWhere select =
      before.idsWhere select ++ if select decl then [before.nextId] else [] := by
  have kept : Keeps select (before.addDecl decl) (before.addMember owner kind decl) :=
    Keeps.modifyDecl (fun holder => unchanged holder _) _ _
  have pushed : (before.addDecl decl).decls = before.decls.push decl := rfl
  rw [kept.idsWhere (by simp [addMember, Graph.modifyDecl]), idsWhere_of_push pushed]

theorem decl_addMember (owner : DeclId) (kind : MemberKind) (decl : Decl) (id : DeclId) :
    (before.addMember owner kind decl).decl id =
      if id = owner then (if id = before.nextId then decl else before.decl id).mapBody
        (·.addMember kind before.nextId)
      else if id = before.nextId then decl else before.decl id := by
  have pushed : (before.addDecl decl).decls = before.decls.push decl := rfl
  rw [addMember, decl_modifyDecl rfl, decl_of_push pushed]

/-- A member is added to the last block that takes members, so it stands in the last place of the
list there. The order of owners follows that of the members, because no block comes behind that
one. -/
theorem member (unlinked : before.Unlinked) {owner : DeclId} {kind : MemberKind} {decl : Decl}
    (unlinkedMember : decl.Unlinked) (owned : decl.owner? = some owner)
    (kindOf : decl.memberKind? = some kind)
    (takes : (before.decl owner).takesMembers = true)
    (last : ∀ other, owner < other → (before.decl other).takesMembers = false) :
    (before.addMember owner kind decl).Unlinked := by
  have ownerLt : owner < before.nextId := lt_size_of_view rfl takes
  have ownerNe : owner ≠ before.nextId := Nat.ne_of_lt ownerLt
  constructor
  · intro listing
    have lists : (before.addMember owner kind decl).listed listing = before.listed listing := by
      cases listing <;> rfl
    have label : (decl.kindLabel == listing.label) = false := by
      simpa using label_ne_of_owner? owned listing
    rw [lists, labelled, idsWhere_addMember, unlinked.listed, labelled, label]
    · simp
    · intro holder change
      exact congrArg (·.2.2.2 == listing.label) (Decl.head_mapBody holder change)
  · intro id other
    have ownedAfter : (before.addMember owner kind decl).owned id other =
        before.owned id other ++ if owner = id ∧ kind = other then [before.nextId] else [] := by
      rw [Graph.owned, idsWhere_addMember, Graph.owned]
      · simp [owned, kindOf]
      · simp
    rw [ownedAfter, decl_addMember]
    by_cases isOwner : id = owner
    · subst isOwner
      rw [if_pos rfl, if_neg ownerNe, Decl.members_addMember takes, unlinked.members]
      simp [eq_comm]
    · rw [if_neg isOwner]
      split
      · next newest =>
          rw [members_of_owner? owned, newest, unlinked.owned_nextId]
          simp [ownerNe]
      · simp [unlinked.members, Ne.symm isOwner]
  · intro late lateOwner isOwner
    have takesOld : ∀ id, id ≠ before.nextId →
        ((before.addMember owner kind decl).decl id).takesMembers =
          (before.decl id).takesMembers := by
      intro id inside
      rw [view_addMember Decl.takesMembers Decl.takesMembers_mapBody, if_neg inside]
    rw [view_addMember Decl.owner? Decl.owner?_mapBody] at isOwner
    split at isOwner
    · next newest =>
        subst newest
        obtain rfl : owner = lateOwner := Option.some.inj (owned.symm.trans isOwner)
        refine ⟨ownerLt, ?_, ?_⟩
        · rwa [takesOld owner ownerNe]
        · intro other behind front
          rw [takesOld other (Nat.ne_of_lt front)]
          exact last other behind
    · have lateLt := lt_nextId_of_owner? isOwner
      rcases unlinked.owners late lateOwner isOwner with ⟨lateOwnerLt, lateTakes, none⟩
      refine ⟨lateOwnerLt, ?_, ?_⟩
      · rwa [takesOld lateOwner (Nat.ne_of_lt (Nat.lt_trans lateOwnerLt lateLt))]
      · intro other behind front
        rw [takesOld other (Nat.ne_of_lt (Nat.lt_trans front lateLt))]
        exact none other behind front
  · intro id
    rw [decl_addMember]
    have either : (if id = before.nextId then decl else before.decl id).Unlinked := by
      split
      · exact unlinkedMember
      · exact unlinked.decls id
    split
    · exact either.mapBody _
    · exact either
  · intro production rule isRule
    have noRules : decl.matchClasses = [] := matchClasses_of_owner? owned
    rw [view_addMember Decl.matchClasses Decl.matchClasses_mapBody] at isRule
    split at isRule
    · simp [noRules] at isRule
    · have isClass := unlinked.rules production rule isRule
      have ruleLt : rule < before.nextId := lt_size_of_view rfl isClass
      rwa [view_addMember Decl.isClass Decl.isClass_mapBody, if_neg (Nat.ne_of_lt ruleLt)]

/-- A class that joins a production is put behind the rules that the production has. No list of
members changes, and the production stays unlinked. -/
theorem join (unlinked : before.Unlinked) (production rule : DeclId)
    (isClass : (before.decl rule).isClass = true) :
    (before.modifyDecl production (Decl.withRule rule)).Unlinked := by
  have size : (before.modifyDecl production (Decl.withRule rule)).decls.size =
      before.decls.size := by
    simp [Graph.modifyDecl]
  have head := Keeps.modifyDecl (Decl.head_withRule rule) before production
  have owners := Keeps.modifyDecl (Decl.owner?_withRule rule) before production
  constructor
  · intro listing
    rw [head.labelled size, ← unlinked.listed]
    cases listing <;> rfl
  · intro id kind
    have members : Keeps (Decl.members · kind) before
        (before.modifyDecl production (Decl.withRule rule)) :=
      Keeps.modifyDecl (fun decl => Decl.members_withRule rule decl kind) before production
    refine ((members id).trans (unlinked.members id kind)).trans (Eq.symm ?_)
    apply Keeps.idsWhere _ size
    apply Keeps.modifyDecl
    simp
  · intro late owner isOwner
    rw [owners] at isOwner
    simpa only [head.takesMembers] using unlinked.owners late owner isOwner
  · intro id
    rw [decl_modifyDecl rfl]
    split
    · exact (unlinked.decls id).withRule rule
    · exact unlinked.decls id
  · intro holder other isRule
    rw [head.isClass]
    rw [decl_modifyDecl rfl] at isRule
    split at isRule
    · rcases Decl.mem_matchClasses_withRule _ _ isRule with old | rfl
      · exact unlinked.rules holder other old
      · exact isClass
    · exact unlinked.rules holder other isRule

/-- Every step of recording keeps a graph unlinked. -/
theorem of_step (unlinked : before.Unlinked) (step : RecordStep before after) :
    after.Unlinked := by
  cases step with
  | aside decls lists => exact unlinked.aside decls lists
  | declare decl bare decls lists => exact unlinked.declare bare decls lists
  | member owner kind decl unlinkedMember owned kindOf takes last =>
      exact unlinked.member unlinkedMember owned kindOf takes last
  | join production rule isClass => exact unlinked.join production rule isClass

theorem of_steps (unlinked : before.Unlinked) (steps : ReflTransGen RecordStep before after) :
    after.Unlinked := by
  induction steps with
  | refl => exact unlinked
  | tail _ step ih => exact ih.of_step step

end Unlinked

/-- Reading files in any order leaves a graph unlinked. No step of recording does what linking does,
and each keeps the lists in the order of the numbers. -/
theorem unlinked_readAll (files : List SourceFile) (readings : List FileReading) :
    ((ofFiles files).readAll readings).Unlinked := by
  apply List.foldlRecOn readings read (unlinked_ofFiles files)
  intro graph unlinked reading _
  exact unlinked.of_steps (steps_read graph reading)

end Graph

end TadsReference
