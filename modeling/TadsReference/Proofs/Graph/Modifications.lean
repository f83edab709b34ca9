import Mathlib.Data.List.Basic
import TadsReference.Proofs.Graph.Notes

/-!
# What becomes of `modify` blocks

Linking a graph that has only been read resolves every `modify` block to the first class, or else
object, of its name and accounts for each of its members exactly once: the member joins the target,
or it is noted on the member of its name there. `link_mergesModifications` is the full statement.
-/

namespace TadsReference.Graph

variable {graph : Graph} {ids : List DeclId} {target member modification id : DeclId}
  {kind : MemberKind} {name : String}

/-! ### The members of the blocks that modify a declaration -/

/-- The `modify` blocks with a target, in the order in which they were read. -/
def modifiersOf (graph : Graph) (target : DeclId) : List DeclId :=
  graph.modifications.filter fun modification => (graph.decl modification).target? == some target

/-- The members of the `modify` blocks with a target, in the order in which they were read. -/
def modifierMembers (graph : Graph) (target : DeclId) (kind : MemberKind) : List DeclId :=
  (graph.modifiersOf target).flatMap fun modification => (graph.decl modification).members kind

theorem offered_offersOf (graph : Graph) (modification target : DeclId) (kind : MemberKind) :
    offered (graph.offersOf modification) target kind =
      if graph.findBlock? (graph.name modification) == some target then
        (graph.decl modification).members kind
      else [] := by
  rw [offersOf]
  cases graph.findBlock? (graph.name modification) with
  | none => rfl
  | some block =>
      by_cases here : block = target
      · cases kind <;> simp [offered, List.filter_map, Function.comp_def, here]
      · simp [offered, List.filter_map, Function.comp_def, here]

section Unlinked

variable (unlinked : graph.Unlinked)

include unlinked

/-- The blocks that have a target in the linked graph are those whose names have denoted it when
merging began. -/
theorem modifiersOf_link (target : DeclId) :
    graph.link.modifiersOf target =
      graph.sortCollections.aimedAt target graph.modifications := by
  rw [modifiersOf, modifications_link]
  apply List.filter_congr
  intro modification listed
  rw [target?_link unlinked listed]
  rfl

/-- The members of the blocks that modify a target are what is offered to it. Both sides go through
the `modify` blocks in the order in which they were read, so the lists agree in their order as
well. -/
theorem modifierMembers_link (target : DeclId) (kind : MemberKind) :
    graph.link.modifierMembers target kind = offered graph.allOffers target kind := by
  have offers : offered graph.allOffers target kind = graph.modifications.flatMap
      fun modification => offered (graph.sortCollections.offersOf modification) target kind := by
    simp only [offered, allOffers, List.filter_flatMap, List.map_flatMap]
  have members : graph.link.modifierMembers target kind =
      (graph.sortCollections.aimedAt target graph.modifications).flatMap
        fun modification => (graph.decl modification).members kind := by
    rw [modifierMembers, modifiersOf_link unlinked]
    apply List.flatMap_congr
    intro modification aimed
    have listed : modification ∈ graph.modifications := (List.mem_filter.mp aimed).1
    exact members_link_of_modify unlinked (unlinked.kindLabel_of_mem listed) kind
  rw [members, offers, aimedAt]
  simp only [offered_offersOf]
  generalize graph.modifications = modifications
  induction modifications with
  | nil => rfl
  | cons modification modifications ih =>
      rw [List.filter_cons, List.flatMap_cons]
      split
      · next aims =>
          rw [List.flatMap_cons, ih]
          rfl
      · exact ih

/-- The members of `modify` blocks are counted in the order in which they were read. Those of one
block are in the order of their declarations, and those of a later block were read later. -/
theorem pairwise_modifierMembers_link (target : DeclId) (kind : MemberKind) :
    (graph.link.modifierMembers target kind).Pairwise (· < ·) := by
  rw [modifierMembers, List.pairwise_flatMap]
  have isModification {modification : DeclId} (isModifier : modification ∈
      graph.link.modifiersOf target) : (graph.decl modification).kindLabel = "modify" := by
    have listed := (List.mem_filter.mp isModifier).1
    rw [modifications_link] at listed
    exact unlinked.kindLabel_of_mem listed
  constructor
  · intro modification isModifier
    rw [members_link_of_modify unlinked (isModification isModifier)]
    exact unlinked.pairwise_members modification kind
  · have increasing : (graph.link.modifiersOf target).Pairwise (· < ·) := by
      apply List.Pairwise.filter
      rw [modifications_link]
      exact unlinked.increasing .modifications
    apply increasing.imp_of_mem
    intro earlier later isEarlier isLater lt first isFirst second isSecond
    rw [members_link_of_modify unlinked (isModification isEarlier)] at isFirst
    rw [members_link_of_modify unlinked (isModification isLater)] at isSecond
    exact unlinked.lt_of_owner_lt (unlinked.mem_members.mp isFirst).1
      (unlinked.mem_members.mp isSecond).1 lt

end Unlinked

/-! ### Who has a name -/

/-- Of the declarations of a name in a list, the one that was read first. -/
structure FirstRead (graph : Graph) (ids : List DeclId) (name : String) (id : DeclId) : Prop where
  mem : id ∈ ids
  named : graph.name id = name
  first : ∀ other ∈ ids, graph.name other = name → id ≤ other

/-- In an increasing list the first one that is found under a name is the one that was read
first. -/
theorem findNamed?_eq_some_iff_firstRead (increasing : ids.Pairwise (· < ·)) :
    graph.findNamed? ids name = some id ↔ graph.FirstRead ids name id := by
  rw [findNamed?, List.find?_eq_some_iff_append, beq_iff_eq]
  constructor
  · rintro ⟨named, earlier, later, rfl, noneEarlier⟩
    refine ⟨by simp, named, ?_⟩
    intro other isOther otherNamed
    rcases List.mem_append.mp isOther with isEarlier | here
    · simpa [otherNamed] using noneEarlier other isEarlier
    rcases List.mem_cons.mp here with rfl | isLater
    · exact Nat.le_refl _
    · have ordered := (List.pairwise_append.mp increasing).2.1
      exact Nat.le_of_lt (List.rel_of_pairwise_cons ordered isLater)
  · intro isFirst
    rcases List.mem_iff_append.mp isFirst.mem with ⟨earlier, later, rfl⟩
    refine ⟨isFirst.named, earlier, later, rfl, ?_⟩
    intro other isEarlier
    have lt := (List.pairwise_append.mp increasing).2.2 other isEarlier id List.mem_cons_self
    have named : graph.name other ≠ name := by
      intro named
      have le := isFirst.first other (List.mem_append_left _ isEarlier) named
      exact Nat.lt_irrefl _ (Nat.lt_of_lt_of_le lt le)
    simpa using named

/-- The member that has a name in a class or an object: the first that was declared there, or else
the first read of those in the blocks that modify it. -/
inductive Holds (read linked : Graph) (target : DeclId) (kind : MemberKind) (name : String)
    (id : DeclId) : Prop where
  | own (first : read.FirstRead ((read.decl target).members kind) name id)
  | adopted (lacks : ∀ other ∈ (read.decl target).members kind, read.name other ≠ name)
      (first : read.FirstRead (linked.modifierMembers target kind) name id)

section Unlinked

variable (unlinked : graph.Unlinked)

include unlinked

/-- The keeper of a name after all offers is the member that holds it, as `Holds` says without
speaking of offers. -/
theorem keeper?_allOffers_eq_some_iff :
    graph.keeper? graph.allOffers target kind name = some id ↔
      graph.Holds graph.link target kind name id := by
  have own : graph.findNamed? ((graph.decl target).members kind) name = some id ↔
      graph.FirstRead ((graph.decl target).members kind) name id :=
    findNamed?_eq_some_iff_firstRead (unlinked.pairwise_members target kind)
  have lacks : graph.findNamed? ((graph.decl target).members kind) name = none ↔
      ∀ other ∈ (graph.decl target).members kind, graph.name other ≠ name := by
    simp [findNamed?]
  have adopted : graph.findNamed? (graph.link.modifierMembers target kind) name = some id ↔
      graph.FirstRead (graph.link.modifierMembers target kind) name id :=
    findNamed?_eq_some_iff_firstRead (pairwise_modifierMembers_link unlinked target kind)
  rw [keeper?, ← modifierMembers_link unlinked, Option.orElse_eq_orElse, Option.orElse_eq_or,
    Option.or_eq_some_iff, own, lacks, adopted]
  constructor
  · rintro (first | ⟨lacks, first⟩)
    · exact .own first
    · exact .adopted lacks first
  · rintro (first | ⟨lacks, first⟩)
    · exact .inl first
    · exact .inr ⟨lacks, first⟩

/-- The target of the block in which a member was declared is the only one that it is offered to. -/
theorem offered_unique {other : DeclId} {otherKind : MemberKind}
    (isOffered : member ∈ offered graph.allOffers target kind)
    (isOther : member ∈ offered graph.allOffers other otherKind) :
    other = target ∧ otherKind = kind := by
  rcases (mem_offered_allOffers unlinked).mp isOffered with ⟨modification, _, denotes, isMember⟩
  rcases (mem_offered_allOffers unlinked).mp isOther
    with ⟨otherModification, _, otherDenotes, otherMember⟩
  have facts := unlinked.mem_members.mp isMember
  have otherFacts := unlinked.mem_members.mp otherMember
  obtain rfl := Option.some.inj (facts.1.symm.trans otherFacts.1)
  exact ⟨otherDenotes.unique unlinked denotes,
    Option.some.inj (otherFacts.2.symm.trans facts.2)⟩

theorem Holds.mem_mergedMembers (holds : graph.Holds graph.link target kind name id) :
    id ∈ graph.mergedMembers target kind := by
  rw [← keeper?_allOffers_eq_some_iff unlinked] at holds
  exact mem_keptMembers_of_keeper? holds

/-- A note is left by an offer, so whatever is noted somewhere was offered to the target whose
member holds the name. -/
theorem exists_offered_of_noted {owner : DeclId}
    (ownedMember : (graph.decl member).owner? = some owner)
    (noted : member ∈ (graph.link.decl id).modifications) :
    ∃ target kind, member ∈ offered graph.allOffers target kind ∧ member ≠ id ∧
      graph.Holds graph.link target kind (graph.name member) id := by
  rcases notes_of_mem_modifications noted with isBlock | isOwned
  · rw [(keeps_head_link graph).isBlock] at isBlock
    rw [(notes_link_of_isBlock unlinked isBlock).1] at noted
    have listed : member ∈ graph.listed .modifications := (List.mem_filter.mp noted).1
    exact absurd ((unlinked.mem_listed .modifications).mp listed).2
      (Unlinked.label_ne_of_owner? ownedMember .modifications)
  · rw [keeps_owner?_link] at isOwned
    rcases Option.isSome_iff_exists.mp isOwned with ⟨keeperOwner, owned⟩
    rw [(notes_link_of_member unlinked owned).1] at noted
    rcases List.mem_map.mp noted with ⟨offer, isNoted, rfl⟩
    rcases List.mem_filter.mp isNoted with ⟨isOffer, facts⟩
    rw [decide_eq_true_eq] at facts
    exact ⟨offer.target, offer.kind, mem_offered.mpr isOffer, facts.1,
      (keeper?_allOffers_eq_some_iff unlinked).mp facts.2⟩

/-- A member of a `modify` block is noted on the one that has its name in the block's target, and
nowhere else. -/
theorem mem_modifications_link (isOffered : member ∈ graph.link.modifierMembers target kind) :
    member ∈ (graph.link.decl id).modifications ↔
      member ≠ id ∧ graph.Holds graph.link target kind (graph.name member) id := by
  rw [modifierMembers_link unlinked] at isOffered
  rcases (mem_offered_allOffers unlinked).mp isOffered with ⟨modification, _, _, isMember⟩
  have ownedMember := (unlinked.mem_members.mp isMember).1
  constructor
  · intro noted
    rcases exists_offered_of_noted unlinked ownedMember noted
      with ⟨other, otherKind, isOther, differs, holds⟩
    rcases offered_unique unlinked isOffered isOther with ⟨rfl, rfl⟩
    exact ⟨differs, holds⟩
  · rintro ⟨differs, holds⟩
    rcases exists_owner_of_mem_mergedMembers unlinked (holds.mem_mergedMembers unlinked)
      with ⟨owner, owned⟩
    rw [(notes_link_of_member unlinked owned).1]
    apply List.mem_map.mpr
    refine ⟨⟨target, kind, member⟩, ?_, rfl⟩
    apply List.mem_filter.mpr
    refine ⟨mem_offered.mp isOffered, decide_eq_true ?_⟩
    exact ⟨differs, (keeper?_allOffers_eq_some_iff unlinked).mpr holds⟩

theorem Holds.unique {left right : DeclId}
    (isLeft : graph.Holds graph.link target kind name left)
    (isRight : graph.Holds graph.link target kind name right) : left = right := by
  rw [← keeper?_allOffers_eq_some_iff unlinked] at isLeft isRight
  exact Option.some.inj (isLeft.symm.trans isRight)

theorem exists_holds (isOffered : member ∈ graph.link.modifierMembers target kind) :
    ∃ id, graph.Holds graph.link target kind (graph.name member) id := by
  rw [modifierMembers_link unlinked] at isOffered
  rcases exists_keeper? (mem_offered.mp isOffered) with ⟨id, kept⟩
  exact ⟨id, (keeper?_allOffers_eq_some_iff unlinked).mp kept⟩

/-! ### The members of a target -/

theorem mem_link_of_isBlock (isBlock : (graph.decl id).isBlock = true) :
    member ∈ (graph.link.decl id).members kind ↔ member ∈ graph.mergedMembers id kind := by
  rw [members_link_of_isBlock unlinked isBlock, mem_sorted]

theorem mem_mergedMembers_iff :
    member ∈ graph.mergedMembers id kind ↔
      member ∈ (graph.decl id).members kind ∨
        member ∈ graph.link.modifierMembers id kind ∧
          graph.Holds graph.link id kind (graph.name member) member := by
  rw [mergedMembers, keptMembers, List.mem_append, List.mem_filter, beq_iff_eq,
    ← keeper?_allOffers_eq_some_iff unlinked, modifierMembers_link unlinked]

/-- A class or an object has none of the members of `modify` blocks to begin with. -/
theorem not_mem_members_of_modifier (isBlock : (graph.decl id).isBlock = true)
    (isModifier : member ∈ graph.link.modifierMembers target kind) (otherKind : MemberKind) :
    member ∉ (graph.decl id).members otherKind := by
  intro own
  rw [modifierMembers_link unlinked] at isModifier
  rcases (mem_offered_allOffers unlinked).mp isModifier with ⟨modification, listed, _, isMember⟩
  have owned := (unlinked.mem_members.mp own).1
  have ownedByModification := (unlinked.mem_members.mp isMember).1
  exact isBlock_ne_modification unlinked isBlock listed
    (Option.some.inj (owned.symm.trans ownedByModification))

/-- A block has its own members and, of each name that none of those has, the offered member that
was read first. -/
theorem mem_members_link_iff (isBlock : (graph.decl id).isBlock = true) :
    member ∈ (graph.link.decl id).members kind ↔
      member ∈ (graph.decl id).members kind ∨
        (∀ other ∈ (graph.decl id).members kind, graph.name other ≠ graph.name member) ∧
          graph.FirstRead (graph.link.modifierMembers id kind) (graph.name member) member := by
  rw [mem_link_of_isBlock unlinked isBlock, mem_mergedMembers_iff unlinked]
  constructor
  · rintro (own | ⟨isModifier, first | ⟨lacks, first⟩⟩)
    · exact .inl own
    · exact .inl first.mem
    · exact .inr ⟨lacks, first⟩
  · rintro (own | ⟨lacks, first⟩)
    · exact .inl own
    · exact .inr ⟨first.mem, .adopted lacks first⟩

/-- No member stands in a block twice, for none is offered to a block twice or to the one that
declares it. -/
theorem nodup_members_link (isBlock : (graph.decl id).isBlock = true) (kind : MemberKind) :
    ((graph.link.decl id).members kind).Nodup := by
  rw [members_link_of_isBlock unlinked isBlock, (graph.perm_sorted _).nodup_iff]
  apply List.nodup_append.mpr
  rw [← modifierMembers_link unlinked]
  refine ⟨(unlinked.pairwise_members id kind).imp Nat.ne_of_lt, ?_, ?_⟩
  · exact ((pairwise_modifierMembers_link unlinked id kind).imp Nat.ne_of_lt).filter _
  · rintro member own _ adopted rfl
    exact not_mem_members_of_modifier unlinked isBlock (List.mem_filter.mp adopted).1 kind own

end Unlinked

/-! ### The full account -/

/-- A member of a `modify` block has its place in the block's target, or it is noted on one member
there, but not both, and no other class or object has it. -/
structure Settled (linked : Graph) (target : DeclId) (kind : MemberKind) (member : DeclId) :
    Prop where
  once :
    (member ∈ (linked.decl target).members kind ∧
      ∀ id, member ∉ (linked.decl id).modifications) ∨
    (member ∉ (linked.decl target).members kind ∧
      ∃ keeper ∈ (linked.decl target).members kind,
        ∀ id, member ∈ (linked.decl id).modifications ↔ id = keeper)
  nowhereElse : ∀ id otherKind, (linked.decl id).isBlock = true →
    member ∈ (linked.decl id).members otherKind → id = target ∧ otherKind = kind

/-- What linking makes of the `modify` blocks of a graph. The numbers of declarations are in the
order in which they were read. -/
structure ModificationsMerged (read linked : Graph) : Prop where
  head : Keeps Decl.head read linked
  modifications : linked.modifications = read.modifications
  readOrder : read.modifications.Pairwise (· < ·) ∧
    ∀ target kind, (linked.modifierMembers target kind).Pairwise (· < ·)
  target : ∀ modification ∈ read.modifications, ∀ target,
    (linked.decl modification).target? = some target ↔
      read.Denotes (read.name modification) target
  noTarget : ∀ modification ∈ read.modifications,
    (linked.decl modification).target? = none ↔
      ∀ id ∈ read.classes ++ read.objects, read.name id ≠ read.name modification
  bodies : ∀ modification ∈ read.modifications, ∀ kind,
    (linked.decl modification).members kind = (read.decl modification).members kind
  blockNotes : ∀ id, (read.decl id).isBlock = true →
    (linked.decl id).modifications = linked.modifiersOf id ∧
      (linked.decl id).modifiedAt =
        (linked.modifiersOf id).map fun note => (read.decl note).location
  members : ∀ id kind, (read.decl id).isBlock = true →
    ((linked.decl id).members kind).Nodup ∧
      ∀ member, member ∈ (linked.decl id).members kind ↔
        member ∈ (read.decl id).members kind ∨
          (∀ other ∈ (read.decl id).members kind, read.name other ≠ read.name member) ∧
            read.FirstRead (linked.modifierMembers id kind) (read.name member) member
  notes : ∀ id kind, (read.decl id).isBlock = true → ∀ keeper ∈ (linked.decl id).members kind,
    (linked.decl keeper).modifications.Sublist (linked.modifierMembers id kind) ∧
      (∀ member, member ∈ (linked.decl keeper).modifications ↔
        member ∈ linked.modifierMembers id kind ∧ member ≠ keeper ∧
          read.Holds linked id kind (read.name member) keeper) ∧
      (linked.decl keeper).modifiedAt =
        (linked.decl keeper).modifications.map fun note => (read.decl note).location
  settled : ∀ modification ∈ read.modifications, ∀ target,
    (linked.decl modification).target? = some target →
      ∀ kind, ∀ member ∈ (linked.decl modification).members kind,
        linked.Settled target kind member
  unresolved : ∀ modification ∈ read.modifications,
    (linked.decl modification).target? = none →
      ∀ kind, ∀ member ∈ (linked.decl modification).members kind,
        (∀ id otherKind, member ∈ (linked.decl id).members otherKind →
          id = modification ∧ otherKind = kind) ∧
        ∀ id, member ∉ (linked.decl id).modifications

section Unlinked

variable (unlinked : graph.Unlinked)

include unlinked

theorem target?_link_eq_some_iff (listed : modification ∈ graph.modifications) :
    (graph.link.decl modification).target? = some target ↔
      graph.Denotes (graph.name modification) target := by
  rw [target?_link unlinked listed, findBlock?_sortCollections_eq_some_iff unlinked]

/-- All that is noted on a member of a target was offered to the target. A member that stands in the
target stands in no other block, so all that is noted on it was offered to this one, and in the same
order. -/
theorem notedOn_sublist (isBlock : (graph.decl target).isBlock = true)
    (isKeeper : id ∈ graph.mergedMembers target kind) :
    (graph.sortCollections.notedOn graph.allOffers id).Sublist
      (graph.link.modifierMembers target kind) := by
  have placed : ∀ offer ∈ graph.allOffers,
      graph.sortCollections.keeper? graph.allOffers offer.target offer.kind
        (graph.sortCollections.name offer.member) = some id →
      offer.target = target ∧ offer.kind = kind := by
    intro offer isOffer kept
    have isThere : id ∈ graph.mergedMembers offer.target offer.kind :=
      mem_keptMembers_of_keeper? kept
    rcases (mem_offered_allOffers unlinked).mp (mem_offered.mpr isOffer)
      with ⟨modification, _, denotes, _⟩
    exact home_unique unlinked (denotes.isBlock unlinked) isBlock isThere isKeeper
  rw [modifierMembers_link unlinked, offered, notedOn]
  apply List.Sublist.map
  have both : graph.allOffers.filter (fun offer => offer.member ≠ id ∧
      graph.sortCollections.keeper? graph.allOffers offer.target offer.kind
        (graph.sortCollections.name offer.member) = some id) =
      (graph.allOffers.filter fun offer => offer.target = target ∧ offer.kind = kind).filter
        (fun offer => offer.member ≠ id ∧
          graph.sortCollections.keeper? graph.allOffers offer.target offer.kind
            (graph.sortCollections.name offer.member) = some id) := by
    rw [List.filter_filter]
    apply List.filter_congr
    intro offer isOffer
    rw [Bool.eq_iff_iff, Bool.and_eq_true, decide_eq_true_eq, decide_eq_true_eq]
    exact ⟨fun noted => ⟨noted, placed offer isOffer noted.2⟩, And.left⟩
  rw [both]
  exact List.filter_sublist

/-- A member of a target notes those that were offered under its name, in the order in which they
were read and with the place of each. -/
theorem notes_link_of_keeper (isBlock : (graph.decl target).isBlock = true)
    (isKeeper : id ∈ (graph.link.decl target).members kind) :
    (graph.link.decl id).modifications.Sublist (graph.link.modifierMembers target kind) ∧
      (∀ member, member ∈ (graph.link.decl id).modifications ↔
        member ∈ graph.link.modifierMembers target kind ∧ member ≠ id ∧
          graph.Holds graph.link target kind (graph.name member) id) ∧
      (graph.link.decl id).modifiedAt =
        (graph.link.decl id).modifications.map fun note => (graph.decl note).location := by
  rw [mem_link_of_isBlock unlinked isBlock] at isKeeper
  rcases exists_owner_of_mem_mergedMembers unlinked isKeeper with ⟨owner, owned⟩
  have notes := notes_link_of_member unlinked owned
  have sublist : (graph.link.decl id).modifications.Sublist
      (graph.link.modifierMembers target kind) :=
    notes.1 ▸ notedOn_sublist unlinked isBlock isKeeper
  refine ⟨sublist, fun member => ⟨fun noted => ?_, fun facts => ?_⟩, notes.2⟩
  · have isOffered := sublist.subset noted
    exact ⟨isOffered, (mem_modifications_link unlinked isOffered).mp noted⟩
  · exact (mem_modifications_link unlinked facts.1).mpr facts.2

/-- Whoever has a member's name in the target, the member is settled there. The member is its own
keeper and stays, or another one keeps its name and is given the note. -/
theorem settled_link (listed : modification ∈ graph.modifications)
    (aimed : (graph.link.decl modification).target? = some target)
    (isMember : member ∈ (graph.link.decl modification).members kind) :
    graph.link.Settled target kind member := by
  have isModifier : member ∈ graph.link.modifierMembers target kind := by
    apply List.mem_flatMap.mpr
    refine ⟨modification, List.mem_filter.mpr ⟨?_, by simp [aimed]⟩, isMember⟩
    rwa [modifications_link]
  rw [target?_link_eq_some_iff unlinked listed] at aimed
  rw [members_link_of_modify unlinked (unlinked.kindLabel_of_mem listed)] at isMember
  have isBlock := aimed.isBlock unlinked
  have owned := (unlinked.mem_members.mp isMember).1
  rcases exists_holds unlinked isModifier with ⟨keeper, holds⟩
  have isKeeper := (mem_link_of_isBlock unlinked isBlock).mpr (holds.mem_mergedMembers unlinked)
  have noted (id : DeclId) : member ∈ (graph.link.decl id).modifications ↔
      member ≠ id ∧ graph.Holds graph.link target kind (graph.name member) id :=
    mem_modifications_link unlinked isModifier
  constructor
  · by_cases same : member = keeper
    · subst same
      refine .inl ⟨isKeeper, ?_⟩
      intro id isNoted
      rcases (noted id).mp isNoted with ⟨differs, other⟩
      exact differs (holds.unique unlinked other)
    · refine .inr ⟨?_, keeper, isKeeper, ?_⟩
      · rw [mem_link_of_isBlock unlinked isBlock, mem_mergedMembers_iff unlinked]
        rintro (own | ⟨_, holdsItself⟩)
        · exact not_mem_members_of_modifier unlinked isBlock isModifier kind own
        · exact same (holdsItself.unique unlinked holds)
      · intro id
        rw [noted]
        constructor
        · rintro ⟨_, other⟩
          exact other.unique unlinked holds
        · rintro rfl
          exact ⟨same, holds⟩
  · intro other otherKind otherBlock isThere
    rw [(keeps_head_link graph).isBlock] at otherBlock
    rw [mem_link_of_isBlock unlinked otherBlock] at isThere
    rcases mem_mergedMembers_cases unlinked isThere
      with ⟨kindOf, ownedThere | ⟨otherModification, otherListed, ownedThere, denotes⟩⟩
    · exact absurd (Option.some.inj (ownedThere.symm.trans owned))
        (isBlock_ne_modification unlinked otherBlock listed)
    · obtain rfl := Option.some.inj (ownedThere.symm.trans owned)
      exact ⟨denotes.unique unlinked aimed,
        Option.some.inj (kindOf.symm.trans (unlinked.mem_members.mp isMember).2)⟩

/-- The members of a block without a target stay where they are. Only the name of the block decides
where they are offered, so without a target they are offered nowhere. -/
theorem unresolved_link (listed : modification ∈ graph.modifications)
    (aimless : (graph.link.decl modification).target? = none)
    (isMember : member ∈ (graph.link.decl modification).members kind) :
    (∀ id otherKind, member ∈ (graph.link.decl id).members otherKind →
      id = modification ∧ otherKind = kind) ∧
    ∀ id, member ∉ (graph.link.decl id).modifications := by
  rw [members_link_of_modify unlinked (unlinked.kindLabel_of_mem listed)] at isMember
  have facts := unlinked.mem_members.mp isMember
  have noTarget (target : DeclId) : ¬graph.Denotes (graph.name modification) target := by
    rw [← target?_link_eq_some_iff unlinked listed, aimless]
    simp
  constructor
  · intro id otherKind isThere
    rcases mem_members_link unlinked isThere with ⟨home, isHome, place⟩
    rcases mem_mergedMembers_cases unlinked isHome
      with ⟨kindOf, owned | ⟨otherModification, _, owned, denotes⟩⟩
    · obtain rfl := Option.some.inj (owned.symm.trans facts.1)
      refine ⟨?_, Option.some.inj (kindOf.symm.trans facts.2)⟩
      rcases place with here | isClass
      · exact here.symm
      · rw [Decl.isClass_iff, unlinked.kindLabel_of_mem listed] at isClass
        simp at isClass
    · obtain rfl := Option.some.inj (owned.symm.trans facts.1)
      exact absurd denotes (noTarget home)
  · intro id noted
    rcases exists_offered_of_noted unlinked facts.1 noted with ⟨target, otherKind, isOffered, _⟩
    rcases (mem_offered_allOffers unlinked).mp isOffered
      with ⟨otherModification, _, denotes, otherMember⟩
    obtain rfl := Option.some.inj ((unlinked.mem_members.mp otherMember).1.symm.trans facts.1)
    exact noTarget target denotes

/-- The fields are those of the account of merging, read off the linked graph, where nothing behind
the merging has moved a member of a block. -/
theorem Unlinked.modificationsMerged : graph.ModificationsMerged graph.link where
  head := keeps_head_link graph
  modifications := modifications_link graph
  readOrder := ⟨unlinked.increasing .modifications, pairwise_modifierMembers_link unlinked⟩
  target _ listed _ := target?_link_eq_some_iff unlinked listed
  noTarget _ listed := by
    rw [target?_link unlinked listed, findBlock?_sortCollections_eq_none_iff]
  bodies _ listed := members_link_of_modify unlinked (unlinked.kindLabel_of_mem listed)
  blockNotes id isBlock := by
    have notes := notes_link_of_isBlock unlinked isBlock
    rw [notes.2, notes.1, modifiersOf_link unlinked]
    exact ⟨rfl, rfl⟩
  members id kind isBlock := ⟨nodup_members_link unlinked isBlock kind, fun _ =>
    mem_members_link_iff unlinked isBlock⟩
  notes _ _ isBlock _ isKeeper := notes_link_of_keeper unlinked isBlock isKeeper
  settled _ listed _ aimed _ _ isMember := settled_link unlinked listed aimed isMember
  unresolved _ listed aimless _ _ isMember := unresolved_link unlinked listed aimless isMember

end Unlinked

/-- Whatever files are read, linking merges their `modify` blocks and loses none of the members. A
graph that is read from files has not been linked, which is all that is needed of it. -/
theorem link_mergesModifications (files : List SourceFile) (readings : List FileReading) :
    ((ofFiles files).readAll readings).ModificationsMerged
      ((ofFiles files).readAll readings).link :=
  (unlinked_readAll files readings).modificationsMerged

end TadsReference.Graph
