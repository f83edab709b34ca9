import TadsReference.Proofs.Graph.Additions
import TadsReference.Proofs.Graph.Modifications
import TadsReference.Proofs.Graph.References

/-!
# Owners of members

The members that a file adds belong to the last block that the file has added before them, and stand
in the list of that block and nowhere else. Once the graph has been linked, what stands in a class
or an object has been declared there, or in a block that modifies it, and is shown on its page:
`housed_of_session`.
-/

namespace TadsReference

open Relation

theorem Decl.owner?_eq_of_written_eq {left right : Decl} (same : left.written = right.written) :
    left.owner? = right.owner? :=
  owner?_eq_of_skeleton_eq (congrArg Prod.fst same)

/-- Whether an entry declares a block that takes the members behind it. -/
def Entry.opensBlock : Entry → Bool
  | .declaration _ _ _ (.classBlock _) => true
  | .declaration _ _ _ (.objectBlock _) => true
  | .declaration _ _ _ .modifyBlock => true
  | _ => false

namespace Graph

variable {graph before after : Graph} {start : Nat} {member owner home holder : DeclId}
  {kind : MemberKind}

/-! ### Members since a graph was so large -/

/-- How the members stand that were added when the graph had some number of declarations or more:
each is owned by the last block before it, and is in its list of the kind and in no other list. -/
structure HousedSince (start : Nat) (graph : Graph) : Prop where
  owners : ∀ member owner, start ≤ member → (graph.decl member).owner? = some owner →
    owner < member ∧ (graph.decl owner).takesMembers = true ∧
      ∀ other, owner < other → other < member → (graph.decl other).takesMembers = false
  places : ∀ member, start ≤ member → ∀ holder kind,
    ((graph.decl holder).members kind).count member =
      if (graph.decl member).owner? = some holder ∧ (graph.decl member).memberKind? = some kind
      then 1 else 0

/-- A number that is not in use yet stands in no list. -/
theorem Sound.not_mem_members (sound : graph.Sound) (outside : graph.decls.size ≤ member) :
    member ∉ (graph.decl holder).members kind :=
  fun isMember => Nat.not_lt_of_le outside (sound.of_mem_members isMember).inside

namespace HousedSince

/-- Of nothing that has been added since now, all members stand as they should. The lists of a sound
graph hold only numbers that are in use. -/
theorem of_sound (sound : graph.Sound) : HousedSince graph.decls.size graph where
  owners member owner outside owned := by
    rw [decl_of_size_le outside] at owned
    contradiction
  places member outside holder kind := by
    rw [List.count_eq_zero_of_not_mem (sound.not_mem_members outside), decl_of_size_le outside]
    rfl

/-- A change that touches neither blocks nor members nor the lists of members. -/
theorem of_keeps (housed : HousedSince start before)
    (takes : Keeps Decl.takesMembers before after) (owners : Keeps Decl.owner? before after)
    (kinds : Keeps Decl.memberKind? before after)
    (members : ∀ kind, Keeps (Decl.members · kind) before after) : HousedSince start after where
  owners member owner isNew owned := by
    rw [owners] at owned
    simpa only [takes _] using housed.owners member owner isNew owned
  places member isNew holder kind := by
    have listed : (after.decl holder).members kind = (before.decl holder).members kind :=
      members kind holder
    rw [listed, owners, kinds]
    exact housed.places member isNew holder kind

/-- A declaration that is not a member, and that has none yet, is added. It is neither owned nor
listed by anything. What was added before it keeps its owner, for whatever comes last does not stand
between a member and its owner. -/
theorem declare (housed : HousedSince start before) (large : start ≤ before.decls.size)
    {decl : Decl} (bare : decl.Bare) (decls : after.decls = before.decls.push decl) :
    HousedSince start after := by
  have newest := decl_newest_of_push decls
  have old {id : DeclId} (other : id ≠ before.nextId) : after.decl id = before.decl id := by
    rw [decl_of_push decls, if_neg other]
  have noOwner : decl.owner? = none := by simp [Decl.owner?, bare.member]
  have noMember (holder kind) : ((before.decl holder).members kind).count before.nextId = 0 := by
    rw [housed.places before.nextId large, decl_nextId]
    rfl
  constructor
  · intro member owner isNew owned
    have inside : member ≠ before.nextId := by
      rintro rfl
      rw [newest, noOwner] at owned
      contradiction
    rw [old inside] at owned
    have memberLt := Unlinked.lt_nextId_of_owner? owned
    rcases housed.owners member owner isNew owned with ⟨ownerLt, takes, none⟩
    refine ⟨ownerLt, ?_, ?_⟩
    · rwa [old (Nat.ne_of_lt (Nat.lt_trans ownerLt memberLt))]
    · intro other behind front
      rw [old (Nat.ne_of_lt (Nat.lt_trans front memberLt))]
      exact none other behind front
  · intro member isNew holder kind
    have sameCount : ((after.decl holder).members kind).count member =
        ((before.decl holder).members kind).count member := by
      by_cases same : holder = before.nextId
      · rw [same, newest, bare.members, decl_nextId]
        cases kind <;> rfl
      · rw [old same]
    rw [sameCount]
    by_cases same : member = before.nextId
    · rw [same, newest, noMember, noOwner]
      rfl
    · rw [old same]
      exact housed.places member isNew holder kind

/-- A member is added to the last block. The last block is the one that owns it, as no block comes
behind that one, and it is listed there once because its number is new. -/
theorem addMember (housed : HousedSince start before)
    {decl : Decl} (owned : decl.owner? = some owner) (kindOf : decl.memberKind? = some kind)
    (takes : (before.decl owner).takesMembers = true)
    (last : ∀ other, owner < other → (before.decl other).takesMembers = false) :
    HousedSince start (before.addMember owner kind decl) := by
  have ownerLt : owner < before.nextId := lt_size_of_view rfl takes
  have ownerNe : owner ≠ before.nextId := Nat.ne_of_lt ownerLt
  have takesOld {id : DeclId} (inside : id ≠ before.nextId) :
      ((before.addMember owner kind decl).decl id).takesMembers =
        (before.decl id).takesMembers := by
    rw [Unlinked.view_addMember Decl.takesMembers Decl.takesMembers_mapBody, if_neg inside]
  constructor
  · intro late lateOwner isNew isOwned
    rw [Unlinked.view_addMember Decl.owner? Decl.owner?_mapBody] at isOwned
    split at isOwned
    · next newest =>
        obtain rfl : owner = lateOwner := Option.some.inj (owned.symm.trans isOwned)
        rw [newest]
        refine ⟨ownerLt, by rwa [takesOld ownerNe], fun other behind front => ?_⟩
        rw [takesOld (Nat.ne_of_lt front)]
        exact last other behind
    · have lateLt := Unlinked.lt_nextId_of_owner? isOwned
      rcases housed.owners late lateOwner isNew isOwned with ⟨lateOwnerLt, lateTakes, none⟩
      refine ⟨lateOwnerLt, ?_, fun other behind front => ?_⟩
      · rwa [takesOld (Nat.ne_of_lt (Nat.lt_trans lateOwnerLt lateLt))]
      · rw [takesOld (Nat.ne_of_lt (Nat.lt_trans front lateLt))]
        exact none other behind front
  · intro late isNew holder other
    have listed : ((before.addMember owner kind decl).decl holder).members other =
        (before.decl holder).members other ++
          if holder = owner ∧ other = kind then [before.nextId] else [] := by
      rw [Unlinked.decl_addMember]
      by_cases isOwner : holder = owner
      · rw [if_pos isOwner, if_neg (isOwner ▸ ownerNe), isOwner, Decl.members_addMember takes]
        simp
      · rw [if_neg isOwner]
        split
        · next newest =>
            rw [newest, decl_nextId, Unlinked.members_of_owner? owned]
            cases other <;> simp [Ne.symm ownerNe] <;> rfl
        · simp [isOwner]
    rw [listed, List.count_append, housed.places late isNew,
      Unlinked.view_addMember Decl.owner? Decl.owner?_mapBody,
      Unlinked.view_addMember Decl.memberKind? Decl.memberKind?_mapBody]
    by_cases isNewest : late = before.nextId
    · have blank : (before.decl before.nextId).owner? = none := by
        rw [decl_nextId]
        rfl
      simp only [isNewest, blank, owned, kindOf, if_true, reduceCtorEq, false_and, if_false,
        Nat.zero_add, Option.some.injEq, eq_comm (a := owner), eq_comm (a := kind)]
      split <;> simp
    · rw [if_neg isNewest, if_neg isNewest]
      split <;> split <;> simp [Ne.symm isNewest]

/-- Each kind of step keeps how the members stand. A member is added to the last block, and it is
the only step that touches a list of members. -/
theorem of_step (housed : HousedSince start before) (large : start ≤ before.decls.size)
    (step : RecordStep before after) : HousedSince start after := by
  cases step with
  | aside decls lists =>
      have same := decl_of_decls_eq decls
      apply housed.of_keeps <;> intros <;> intro <;> rw [same]
  | declare decl bare decls lists => exact housed.declare large bare decls
  | member owner kind decl unlinked owned kindOf takes last =>
      exact housed.addMember owned kindOf takes last
  | join production rule isClass =>
      apply housed.of_keeps
      · exact (Keeps.modifyDecl (Decl.head_withRule rule) before production).takesMembers
      · exact Keeps.modifyDecl (Decl.owner?_withRule rule) before production
      · exact Keeps.modifyDecl (Decl.memberKind?_withRule rule) before production
      · intro kind
        exact Keeps.modifyDecl (fun decl => Decl.members_withRule rule decl kind) before production

/-- All steps keep how the members stand, by induction on them. The graph only grows, so it stays as
large as it has to be. -/
theorem of_steps (housed : HousedSince start before) (large : start ≤ before.decls.size)
    (steps : ReflTransGen RecordStep before after) : HousedSince start after := by
  have both : HousedSince start after ∧ start ≤ after.decls.size := by
    induction steps with
    | refl => exact ⟨housed, large⟩
    | tail _ step ih => exact ⟨ih.1.of_step ih.2 step, Nat.le_trans ih.2 (Grows.of_step step).size⟩
  exact both.1

end HousedSince

/-! ### Blocks of the same file -/

theorem owner?_of_mem_missingProduction {name : String} {location : Location} {decl : Decl}
    (isAdded : decl ∈ graph.missingProduction name location) : decl.owner? = none := by
  rw [missingProduction] at isAdded
  split at isAdded
  · exact absurd isAdded List.not_mem_nil
  · rw [List.mem_singleton.mp isAdded]
    rfl

/-- Neither a class nor the production that it requires is a member of anything. -/
theorem owner?_of_mem_classAdditions {name description : String} {location : Location}
    {head : ClassHead} {decl : Decl}
    (isAdded : decl ∈ graph.classAdditions name description location head) :
    decl.owner? = none := by
  rw [classAdditions] at isAdded
  split at isAdded
  · rw [List.mem_singleton.mp isAdded]
    rfl
  · rcases List.mem_append.mp isAdded with isProduction | isClass
    · exact owner?_of_mem_missingProduction isProduction
    · rw [List.mem_singleton.mp isClass]
      rfl

theorem classAdditions_ne_nil (graph : Graph) (name description : String) (location : Location)
    (head : ClassHead) : graph.classAdditions name description location head ≠ [] := by
  rw [classAdditions]
  split <;> simp

namespace Recording

/-- The members that an entry adds are owned by the last block. A member that follows no block is
not added at all. -/
theorem owner_of_mem_entryAdditions {state : Recording} {shortName : String} {entry : Entry}
    {decl : Decl} (isAdded : decl ∈ state.entryAdditions shortName entry)
    (owned : decl.owner? = some owner) : state.owner = some owner := by
  cases entry with
  | fileDescription text => exact absurd isAdded List.not_mem_nil
  | enumGroup description line names =>
      rcases List.mem_map.mp isAdded with ⟨name, _, rfl⟩
      contradiction
  | declaration name description line declared =>
      cases declared with
      | classBlock head =>
          rw [owner?_of_mem_classAdditions isAdded] at owned
          contradiction
      | property interfaceOnly =>
          rcases List.mem_map.mp isAdded with ⟨last, isLast, rfl⟩
          rw [← owned]
          exact Option.mem_toList.mp isLast
      | method parameters interfaceOnly =>
          rcases List.mem_map.mp isAdded with ⟨last, isLast, rfl⟩
          rw [← owned]
          exact Option.mem_toList.mp isLast
      | _ =>
          rw [List.mem_singleton.mp isAdded] at owned
          contradiction

/-- A block is the last declaration that its entry adds. Otherwise the last block stays the same. A
class is added behind its production, so it is still the last one there. -/
theorem owner_add (state : Recording) (index : Nat) (shortName : String) (entry : Entry) :
    if entry.opensBlock then
      ∃ owner, (state.add index shortName entry).owner = some owner ∧
        state.graph.decls.size ≤ owner ∧
          owner + 1 = (state.add index shortName entry).graph.decls.size
    else (state.add index shortName entry).owner = state.owner := by
  cases entry with
  | fileDescription text => rfl
  | enumGroup description line names => rfl
  | declaration name description line declared =>
      cases declared with
      | classBlock head =>
          have size := (adds_recordClass state.graph index name description ⟨shortName, line⟩
            head).size
          have some := classAdditions_ne_nil state.graph name description ⟨shortName, line⟩ head
          rw [← List.length_pos_iff] at some
          refine ⟨_, rfl, ?_, ?_⟩
          · simp only [nextId]
            omega
          · apply Nat.sub_add_cancel
            simp only [nextId]
            omega
      | objectBlock head => exact ⟨_, rfl, Nat.le_refl _, (size_of_push rfl).symm⟩
      | modifyBlock => exact ⟨_, rfl, Nat.le_refl _, (size_of_push rfl).symm⟩
      | property interfaceOnly =>
          simp only [Entry.opensBlock, Bool.false_eq_true, if_false, add, declare]
          split <;> simp_all
      | method parameters interfaceOnly =>
          simp only [Entry.opensBlock, Bool.false_eq_true, if_false, add, declare]
          split <;> simp_all
      | _ => rfl

/-- All that has been recorded since the graph was so large is owned by blocks that have been
recorded since. -/
structure OwnedSince (start : Nat) (state : Recording) : Prop where
  large : start ≤ state.graph.decls.size
  last : ∀ owner, state.owner = some owner → start ≤ owner ∧ owner < state.graph.decls.size
  owners : ∀ member owner, start ≤ member → (state.graph.decl member).owner? = some owner →
    start ≤ owner ∧ owner < state.graph.decls.size

/-- Nothing has been recorded yet, and there is no block from another file that could take a
member. -/
theorem ownedSince_start (graph : Graph) : OwnedSince graph.decls.size ⟨graph, none⟩ where
  large := Nat.le_refl _
  last _ isOwner := nomatch isOwner
  owners member owner outside owned := by
    rw [decl_of_size_le outside] at owned
    contradiction

/-- An entry either opens a block, which is then the last declaration of all, or leaves the last
block as it was. A block that has been there before is still inside, since the graph only grows. -/
theorem OwnedSince.add {state : Recording} (since : OwnedSince start state) (index : Nat)
    (shortName : String) (entry : Entry) : OwnedSince start (state.add index shortName entry) := by
  have adds := adds_add state index shortName entry
  have size := adds.size
  have large := since.large
  have grow {owner : DeclId} (inside : start ≤ owner ∧ owner < state.graph.decls.size) :
      start ≤ owner ∧ owner < (state.add index shortName entry).graph.decls.size :=
    ⟨inside.1, Nat.lt_of_lt_of_le inside.2 (by omega)⟩
  constructor
  · omega
  · intro owner isOwner
    have last := owner_add state index shortName entry
    split at last
    · rcases last with ⟨newest, isNewest, isNew, isLast⟩
      obtain rfl : newest = owner := Option.some.inj (isNewest.symm.trans isOwner)
      exact ⟨Nat.le_trans large isNew, Nat.lt_of_succ_le (Nat.le_of_eq isLast)⟩
    · exact grow (since.last owner (last ▸ isOwner))
  · intro member owner isNew owned
    have written := adds.written_decl member
    split at written
    · rw [Decl.owner?_eq_of_written_eq written] at owned
      exact grow (since.owners member owner isNew owned)
    · rw [Decl.owner?_eq_of_written_eq written, List.getD_eq_getElem?_getD] at owned
      rcases isAdded : (state.entryAdditions shortName entry)[member - state.graph.decls.size]?
        with _ | decl
      · rw [isAdded] at owned
        contradiction
      · rw [isAdded] at owned
        exact grow (since.last owner
          (owner_of_mem_entryAdditions (List.mem_of_getElem? isAdded) owned))

end Recording

/-- The members that a file adds are owned by blocks that it adds. -/
theorem ownedSince_record (graph : Graph) (index : Nat) (entries : List Entry)
    {member owner : DeclId}
    (isNew : graph.decls.size ≤ member)
    (owned : ((graph.record index entries).decl member).owner? = some owner) :
    graph.decls.size ≤ owner := by
  have since : Recording.OwnedSince graph.decls.size (entries.foldl
      (Recording.add index (graph.file index).source.shortName) ⟨graph, none⟩) := by
    apply List.foldlRecOn entries _ (Recording.ownedSince_start graph)
    exact fun state since entry _ => since.add index _ entry
  exact (since.owners member owner isNew owned).1

/-! ### Members of a file, and members of a page -/

/-- How a member stands that a file has added to a graph of some size. Its owner is the last block
of the file before it; the list of that block holds it once, and no other list does. -/
structure Housed (start : Nat) (graph : Graph) (member : DeclId) (kind : MemberKind)
    (owner : DeclId) : Prop where
  owned : (graph.decl member).owner? = some owner
  ofFile : start ≤ owner
  before : owner < member
  takes : (graph.decl owner).takesMembers = true
  last : ∀ other, owner < other → other < member → (graph.decl other).takesMembers = false
  once : ((graph.decl owner).members kind).count member = 1
  only : ∀ holder other, member ∈ (graph.decl holder).members other → holder = owner ∧ other = kind

/-- All members stand so that have been added to a graph. -/
def AllHoused (before after : Graph) : Prop :=
  ∀ member kind, before.decls.size ≤ member → (after.decl member).memberKind? = some kind →
    ∃ owner, Housed before.decls.size after member kind owner

/-- Reading a file adds members to blocks of the same file only, since a reading starts without a
block that could take them. -/
theorem Sound.allHoused_read (sound : graph.Sound) (reading : FileReading) :
    AllHoused graph (graph.read reading) := by
  intro member kind isNew isMember
  have housed := (HousedSince.of_sound sound).of_steps (Nat.le_refl _) (steps_read graph reading)
  have hasOwner : ((graph.read reading).decl member).owner?.isSome := by
    simp [Decl.owner?, Decl.isSome_member?, isMember]
  rcases Option.isSome_iff_exists.mp hasOwner with ⟨owner, owned⟩
  rcases housed.owners member owner isNew owned with ⟨before, takes, last⟩
  have places := housed.places member isNew
  refine ⟨owner, owned, ownedSince_record _ _ _ isNew owned, before, takes, last, ?_, ?_⟩
  · rw [places, if_pos ⟨owned, isMember⟩]
  · intro holder other isListed
    have isCounted := List.count_pos_iff.mpr isListed
    rw [places] at isCounted
    split at isCounted
    · next isPlace =>
        rw [owned, isMember] at isPlace
        exact ⟨(Option.some.inj isPlace.1).symm, (Option.some.inj isPlace.2).symm⟩
    · contradiction

/-- How a member stands in a class or an object of a graph that has been linked. -/
structure Homed (graph : Graph) (home member : DeclId) : Prop where
  owner : ∃ owner, (graph.decl member).owner? = some owner ∧
    (owner = home ∨ (graph.decl owner).target? = some home)
  page : graph.page? member = graph.page? home

/-- All members of classes and objects stand so. -/
def AllHomed (graph : Graph) : Prop :=
  ∀ home, (graph.decl home).isBlock = true → ∀ kind,
    ∀ member ∈ (graph.decl home).members kind, Homed graph home member

/-- What stands in a class or an object after linking was declared there or was offered to it by a
block whose target it is. In both cases its page is that of the class or the object. -/
theorem Unlinked.allHomed_link (unlinked : graph.Unlinked) : graph.link.AllHomed := by
  intro home isBlock kind member isMember
  rw [(keeps_head_link graph).isBlock] at isBlock
  rw [members_link_of_isBlock unlinked isBlock, mem_sorted] at isMember
  refine ⟨?_, page?_link_of_mem_mergedMembers unlinked isBlock isMember⟩
  rw [keeps_owner?_link graph]
  rcases mem_mergedMembers_cases unlinked isMember
    with ⟨_, owned | ⟨modification, isListed, owned, denotes⟩⟩
  · exact ⟨home, owned, .inl rfl⟩
  · exact ⟨modification, owned, .inr ((target?_link_eq_some_iff unlinked isListed).mpr denotes)⟩

/-- Whatever has been read and linked before, the members that a file adds belong to the last block
of that file before them. And once files have been read and linked, a class or an object has no
other members than its own and those of the blocks that modify it, which are shown on its page.
Before the link only the steps of reading have to be followed, and behind it what merging says of
each member. -/
theorem housed_of_session (files : List SourceFile) :
    (∀ steps reading, AllHoused ((ofFiles files).run steps)
      (((ofFiles files).run steps).read reading)) ∧
    ∀ readings, ((ofFiles files).readAll readings).link.AllHomed :=
  ⟨fun steps reading => (sound_run files steps).allHoused_read reading,
    fun readings => (unlinked_readAll files readings).allHomed_link⟩

end Graph

end TadsReference
