import TadsReference.Proofs.Graph.Catalogue
import TadsReference.Proofs.Graph.Coherence
import TadsReference.Proofs.Graph.Roles

/-!
# References

Whatever is read and linked, every number that is stored in a graph denotes a declaration that fits
the role in which it is stored: `referencesFit_of_session`. So the way from a member to its page,
over its owner and over what a `modify` block modifies, always comes to an end.
-/

namespace TadsReference

open Relation

namespace Graph

variable {graph before middle after : Graph} {index : Nat} {id target member : DeclId}
  {kind : MemberKind} {role : Role}

/-- There is a declaration of a number that fits a role. -/
structure Fits (graph : Graph) (role : Role) (id : DeclId) : Prop where
  inside : id < graph.decls.size
  fits : role.fits (graph.decl id) = true

/-- What declarations refer to fits. -/
def Sound (graph : Graph) : Prop :=
  ∀ id, ∀ reference ∈ (graph.decl id).references, graph.Fits reference.1 reference.2

/-- Declarations have been changed, but not their skeletons, and nothing else. -/
structure Retouched (before after : Graph) : Prop where
  lists : SameLists before after
  skeleton : Keeps Decl.skeleton before after

namespace Retouched

theorem refl (graph : Graph) : Retouched graph graph :=
  ⟨.refl graph, .refl _ graph⟩

theorem trans (first : Retouched before middle) (second : Retouched middle after) :
    Retouched before after :=
  ⟨first.lists.trans second.lists, first.skeleton.trans second.skeleton⟩

theorem head (retouched : Retouched before after) : Keeps Decl.head before after :=
  fun id => Decl.head_eq_of_skeleton_eq (retouched.skeleton id)

theorem complete (retouched : Retouched before after) (complete : before.Complete) :
    after.Complete := by
  apply complete.of_keeps retouched.head retouched.lists.size
  intro listing
  rw [retouched.lists.listed]

end Retouched

theorem Fits.grow (fits : before.Fits role id) (grows : GrowsAt index before after) :
    after.Fits role id where
  inside := Nat.lt_of_lt_of_le fits.inside grows.size
  fits := by
    rw [Role.fits_eq_of_skeleton_eq (grows.skeleton id fits.inside)]
    exact fits.fits

theorem Fits.of_keeps (fits : before.Fits role id) (size : after.decls.size = before.decls.size)
    (skeleton : Keeps Decl.skeleton before after) : after.Fits role id where
  inside := by
    rw [size]
    exact fits.inside
  fits := by
    rw [Role.fits_eq_of_skeleton_eq (skeleton id)]
    exact fits.fits

theorem Fits.retouch (fits : before.Fits role id) (retouched : Retouched before after) :
    after.Fits role id :=
  fits.of_keeps retouched.lists.size retouched.skeleton

namespace Sound

theorem of_mem_members (sound : graph.Sound) (isMember : member ∈ (graph.decl id).members kind) :
    graph.Fits (.member kind) member :=
  sound id _ (Decl.mem_references_of_mem_members isMember)

/-- Where every reference is an old one, or fits. -/
theorem of_keeps (sound : before.Sound) (size : after.decls.size = before.decls.size)
    (skeleton : Keeps Decl.skeleton before after)
    (old : ∀ id, ∀ reference ∈ (after.decl id).references,
      reference ∈ (before.decl id).references ∨ before.Fits reference.1 reference.2) :
    after.Sound := by
  intro id reference isStored
  rcases old id reference isStored with isOld | fits
  · exact (sound id reference isOld).of_keeps size skeleton
  · exact fits.of_keeps size skeleton

/-- A change of one declaration keeps references sound if what it adds fits. The other declarations
refer to what they did, and that fits as before. -/
theorem modifyDecl (sound : graph.Sound) {change : Decl → Decl}
    (skeleton : ∀ decl, (change decl).skeleton = decl.skeleton) (id : DeclId)
    (adds : ∀ reference ∈ (change (graph.decl id)).references,
      reference ∈ (graph.decl id).references ∨ graph.Fits reference.1 reference.2) :
    (graph.modifyDecl id change).Sound := by
  apply sound.of_keeps (by simp [Graph.modifyDecl]) (Keeps.modifyDecl skeleton graph id)
  intro other reference isStored
  by_cases here : other = id
  · subst here
    by_cases inside : other < graph.decls.size
    · have changed : (graph.modifyDecl other change).decl other = change (graph.decl other) := by
        simp only [Graph.decl, Graph.modifyDecl, Array.getD_eq_getD_getElem?,
          Array.getElem?_modify]
        simp [inside]
      rw [changed] at isStored
      exact adds reference isStored
    · rw [decl_of_size_le] at isStored
      · exact absurd isStored List.not_mem_nil
      · simpa [Graph.modifyDecl] using inside
  · have same : (graph.modifyDecl id change).decl other = graph.decl other := by
      simp [Graph.decl, Graph.modifyDecl, Array.getElem?_modify, Ne.symm here]
    rw [same] at isStored
    exact .inl isStored

/-- Where every reference that a change adds is one and the same, and fits. -/
theorem modifyDecl_of_fits (sound : graph.Sound) {change : Decl → Decl}
    (skeleton : ∀ decl, (change decl).skeleton = decl.skeleton) (id : DeclId)
    (fits : graph.Fits role target)
    (adds : ∀ reference ∈ (change (graph.decl id)).references,
      reference ∈ (graph.decl id).references ∨ reference = (role, target)) :
    (graph.modifyDecl id change).Sound := by
  apply sound.modifyDecl skeleton
  intro reference isStored
  rcases adds reference isStored with isOld | rfl
  · exact .inl isOld
  · exact .inr fits

theorem push (sound : before.Sound) {decl : Decl} (decls : after.decls = before.decls.push decl)
    (grows : GrowsAt index before after)
    (fits : ∀ reference ∈ decl.references, before.Fits reference.1 reference.2) :
    after.Sound := by
  intro id reference isStored
  rw [decl_of_push decls] at isStored
  split at isStored
  · exact (fits reference isStored).grow grows
  · exact (sound id reference isStored).grow grows

theorem of_decls_eq (sound : before.Sound) (decls : after.decls = before.decls) : after.Sound := by
  apply sound.of_keeps (by rw [decls])
  · intro id
    rw [decl_of_decls_eq decls]
  · intro id reference isStored
    rw [decl_of_decls_eq decls] at isStored
    exact .inl isStored

/-! ### Recording -/

/-- A member refers to its owner, and the owner to the member in the list of its kind, so both have
to fit. -/
theorem addMember (sound : graph.Sound) {owner : DeclId} {decl : Decl} (unlinked : decl.Unlinked)
    (owned : decl.owner? = some owner) (kindOf : decl.memberKind? = some kind)
    (takes : (graph.decl owner).takesMembers = true) : (graph.addMember owner kind decl).Sound := by
  have ownerLt : owner < graph.decls.size := lt_size_of_view rfl takes
  have grows : GrowsAt 0 graph (graph.addDecl decl) := .push rfl rfl rfl rfl fun _ _ => rfl
  have added : (graph.addDecl decl).Sound := by
    apply sound.push rfl grows
    intro reference isStored
    rw [unlinked.mem_references owned isStored]
    exact ⟨ownerLt, takes⟩
  have newest : (graph.addDecl decl).Fits (.member kind) graph.nextId := by
    constructor
    · simp [Graph.addDecl, nextId]
    · rw [decl_newest_of_push rfl]
      simp [Role.fits, kindOf]
  exact added.modifyDecl_of_fits (fun holder => Decl.skeleton_mapBody holder _) owner newest
    fun _ => Decl.mem_references_addMember

/-- Each kind of step adds references only to what is there by then. A class and its production
refer to each other, and the class is added when the production is there. -/
theorem of_step (sound : before.Sound) (step : FilingStep index before after) : after.Sound := by
  have grows := GrowsAt.of_step step
  cases step with
  | aside decls files groups enumGroups enums => exact sound.of_decls_eq decls
  | loose decl bare unlisted noConstant decls files groups enumGroups enums =>
      apply sound.push decls grows
      intro reference isStored
      rcases bare.mem_references isStored with ⟨production, isProduction, _⟩
      exact absurd (Decl.kindLabel_of_production? isProduction) (unlisted .classes)
  | enlist listing decl bare label located rule decls files groups enumGroups enums =>
      apply sound.push decls grows
      intro reference isStored
      rcases bare.mem_references isStored with ⟨production, isProduction, rfl⟩
      have isGrammar := rule production isProduction
      refine ⟨?_, by simp [Role.fits, isGrammar]⟩
      apply lt_size_of_decl_ne
      intro blank
      rw [blank] at isGrammar
      contradiction
  | member owner kind decl unlinked owned kindOf takes =>
      exact sound.addMember unlinked owned kindOf takes
  | join production rule isRule =>
      have isClass : before.Fits .rule rule := by
        refine ⟨?_, by simp [Role.fits, isRule]⟩
        apply lt_size_of_decl_ne
        intro blank
        rw [blank] at isRule
        contradiction
      exact sound.modifyDecl_of_fits (Decl.skeleton_withRule · rule) production isClass
        fun _ => Decl.mem_references_withRule
  | describe text => exact sound.of_decls_eq rfl
  | group description location names located =>
      intro id reference isStored
      by_cases inside : id < before.decls.size
      · rw [decl_recordEnum_of_lt _ _ _ _ _ inside] at isStored
        exact (sound id reference isStored).grow grows
      · exfalso
        by_cases isNew : id < (before.recordEnum index description location names).decls.size
        · rcases exists_decl_recordEnum before index description location names
            (Nat.le_of_not_lt inside) isNew with ⟨name, shape⟩
          rw [shape] at isStored
          exact List.not_mem_nil isStored
        · rw [decl_of_size_le (Nat.le_of_not_lt isNew)] at isStored
          exact List.not_mem_nil isStored

theorem of_steps (sound : before.Sound) (steps : ReflTransGen (FilingStep index) before after) :
    after.Sound := by
  induction steps with
  | refl => exact sound
  | tail _ step ih => exact ih.of_step step

/-! ### Linking -/

/-- A pass over some declarations that changes nothing but declarations. -/
theorem foldl {step : Graph → DeclId → Graph} (sound : graph.Sound)
    (retouches : ∀ graph id, Retouched graph (step graph id)) (ids : List DeclId)
    (each : ∀ middle, Retouched graph middle → middle.Sound → ∀ id ∈ ids, (step middle id).Sound) :
    (ids.foldl step graph).Sound ∧ Retouched graph (ids.foldl step graph) := by
  apply List.foldlRecOn (motive := fun middle : Graph => middle.Sound ∧ Retouched graph middle)
    ids step ⟨sound, .refl graph⟩
  rintro middle ⟨ih, retouched⟩ id isItem
  exact ⟨each middle retouched ih id isItem, retouched.trans (retouches middle id)⟩

end Sound

theorem retouched_mergeMember (graph : Graph) (target : DeclId) (kind : MemberKind)
    (member : DeclId) : Retouched graph (graph.mergeMember target kind member) where
  lists := sameLists_mergeMember graph target kind member
  skeleton :=
    keeps_mergeMember (fun _ isOffer decl => Decl.MergeChange.skeleton decl (.offer isOffer)) graph
      target kind member

theorem retouched_mergeModification (graph : Graph) (modification : DeclId) :
    Retouched graph (graph.mergeModification modification) where
  lists := sameLists_mergeModification graph modification
  skeleton := keeps_mergeModification (fun _ isChange decl => isChange.skeleton decl) graph _

theorem retouched_linkBases (graph : Graph) (id : DeclId) :
    Retouched graph (graph.linkBases id) where
  lists := sameLists_linkBases graph id
  skeleton := keeps_linkBases (fun _ isChange decl => isChange.skeleton decl) graph id

theorem retouched_noteHeir (graph : Graph) (heir : DeclId) (heirIsClass : Bool) (base : DeclId) :
    Retouched graph (graph.noteHeir heir heirIsClass base) where
  lists := .modifyDecl ..
  skeleton := Keeps.modifyDecl (fun decl => Decl.BaseChange.skeleton decl (.heir _ _)) graph base

theorem retouched_gatherProduction (graph : Graph) (id : DeclId) :
    Retouched graph (graph.gatherProduction id) where
  lists := .modifyDecl ..
  skeleton := keeps_gatherProduction
    (fun change decl => Decl.skeleton_mapProduction decl change) graph id

/-- What is found under a name is a class or an object, because the lists of both hold nothing
else. -/
theorem fits_of_findBlock? {name : String} (complete : graph.Complete)
    (found : graph.findBlock? name = some target) : graph.Fits .block target := by
  have label : target < graph.decls.size ∧ ((graph.decl target).kindLabel = "class" ∨
      (graph.decl target).kindLabel = "object") := by
    rcases List.mem_append.mp (mem_of_findBlock? found) with isClass | isObject
    · exact ((complete.mem_iff .classes target).mp isClass).imp_right .inl
    · exact ((complete.mem_iff .objects target).mp isObject).imp_right .inr
  exact ⟨label.1, (Decl.isBlock_iff _).mpr label.2⟩

namespace Sound

/-- A member that joins a block is in the list of its own kind, and one that is noted is noted on a
member of its kind, since names are looked up among such members only. -/
theorem mergeMember (sound : graph.Sound) (isMember : graph.Fits (.member kind) member)
    (target : DeclId) : (graph.mergeMember target kind member).Sound := by
  rw [Graph.mergeMember]
  split
  · next existing found =>
      have sameKind := (sound.of_mem_members (List.mem_of_find?_eq_some found)).fits
      simp only [Role.fits, beq_iff_eq] at sameKind
      exact sound.modifyDecl_of_fits
        (fun decl => Decl.MergeChange.skeleton decl (.offer (.note _ _))) existing isMember
        fun _ => Decl.mem_references_noted sameKind
  · exact sound.modifyDecl_of_fits (fun holder => Decl.skeleton_mapBody holder _) target isMember
      fun _ => Decl.mem_references_addMember

/-- The members that are merged have been members of the `modify` block, in the lists of their
kinds. -/
theorem mergeMembers (sound : graph.Sound) (modification target : DeclId) :
    (graph.mergeMembers modification target).Sound := by
  have methods := sound.foldl (retouched_mergeMember · target .method ·)
    ((graph.decl modification).members .method) fun middle retouched ih member isMember =>
      ih.mergeMember ((sound.of_mem_members isMember).retouch retouched) target
  have properties := methods.1.foldl (retouched_mergeMember · target .property ·)
    ((graph.decl modification).members .property) fun middle retouched ih member isMember =>
      ih.mergeMember
        (((sound.of_mem_members isMember).retouch methods.2).retouch retouched) target
  exact properties.1

end Sound

theorem retouched_mergeMembers (graph : Graph) (modification target : DeclId) :
    Retouched graph (graph.mergeMembers modification target) where
  lists := sameLists_mergeMembers graph modification target
  skeleton :=
    keeps_mergeMembers (fun _ isOffer decl => Decl.MergeChange.skeleton decl (.offer isOffer)) graph
      modification target

namespace Sound

/-- The target of a `modify` block is a class or an object, and the note on the target is that of a
`modify` block. -/
theorem mergeModification (sound : graph.Sound) (complete : graph.Complete)
    {modification : DeclId} (isModification : graph.Fits (.kind "modify") modification) :
    (graph.mergeModification modification).Sound := by
  rw [Graph.mergeModification]
  split
  · exact sound
  · next target found =>
      have isTarget := fits_of_findBlock? complete found
      have members := retouched_mergeMembers graph modification target
      have noted : Retouched (graph.mergeMembers modification target)
          ((graph.mergeMembers modification target).modifyDecl target (Decl.withModification
            (graph.decl modification).location modification)) :=
        ⟨.modifyDecl .., Keeps.modifyDecl
          (fun decl => Decl.MergeChange.skeleton decl (.blockNote _ _)) _ target⟩
      apply Sound.modifyDecl_of_fits _
        (fun decl => Decl.MergeChange.skeleton decl (.target target _)) modification
        ((isTarget.retouch members).retouch noted) fun _ => Decl.mem_references_withTarget
      exact (sound.mergeMembers modification target).modifyDecl_of_fits
        (fun decl => Decl.MergeChange.skeleton decl (.blockNote _ _)) target
        (isModification.retouch members) fun _ => Decl.mem_references_withModification

theorem mergeModifications (sound : graph.Sound) (complete : graph.Complete) :
    graph.mergeModifications.Sound ∧ Retouched graph graph.mergeModifications := by
  apply sound.foldl retouched_mergeModification
  intro middle retouched ih modification isListed
  rcases (complete.mem_iff .modifications modification).mp isListed with ⟨inside, label⟩
  apply ih.mergeModification (retouched.complete complete)
  have isModification : graph.Fits (.kind "modify") modification :=
    ⟨inside, by simp [Role.fits, label, Listing.label]⟩
  exact isModification.retouch retouched

/-- A base that is resolved is a class or an object. The classes among the bases note an heir of its
own kind, be it a subclass or an object. -/
theorem linkBases (sound : graph.Sound) (complete : graph.Complete)
    (isListed : id ∈ graph.classes ++ graph.objects) : (graph.linkBases id).Sound := by
  have heirKind : graph.Fits
      (.kind (if (graph.decl id).isClass then "class" else "object")) id := by
    rcases List.mem_append.mp isListed with isClass | isObject
    · rcases (complete.mem_iff .classes id).mp isClass with ⟨inside, label⟩
      have isClass := (Decl.isClass_iff _).mpr label
      exact ⟨inside, by simp [Role.fits, isClass, label, Listing.label]⟩
    · rcases (complete.mem_iff .objects id).mp isObject with ⟨inside, label⟩
      have notClass : (graph.decl id).isClass = false := by
        rw [Bool.eq_false_iff, Ne, Decl.isClass_iff, label]
        decide
      exact ⟨inside, by simp [Role.fits, notClass, label, Listing.label]⟩
  have heirs := sound.foldl (retouched_noteHeir · id (graph.decl id).isClass ·)
    (graph.newBases (graph.decl id).bases) fun middle retouched ih base _ =>
      ih.modifyDecl_of_fits (fun decl => Decl.BaseChange.skeleton decl (.heir _ _)) base
        (heirKind.retouch retouched) fun _ => Decl.mem_references_withHeir
  apply heirs.1.modifyDecl (fun decl => Decl.BaseChange.skeleton decl (.resolve _)) id
  intro reference isStored
  rcases Decl.mem_references_resolved isStored with isOld | ⟨target, isBase, rfl⟩
  · exact .inl isOld
  · rcases mem_map_resolveBase.mp isBase with isResolved | isNew
    · exact .inl (Decl.mem_references_of_mem_bases isResolved)
    · rcases List.mem_filterMap.mp isNew with ⟨base, _, found⟩
      cases base with
      | decl other => contradiction
      | name name => exact .inr ((fits_of_findBlock? complete found).retouch heirs.2)

/-- The lists of classes and objects are complete meanwhile, since resolving bases declares
nothing. -/
theorem linkAllBases (sound : graph.Sound) (complete : graph.Complete) :
    graph.linkAllBases.Sound ∧ Retouched graph graph.linkAllBases := by
  apply sound.foldl retouched_linkBases
  intro middle retouched ih id isListed
  apply ih.linkBases (retouched.complete complete)
  rcases retouched.lists with ⟨decls, _, rfl⟩
  exact isListed

/-- What a production gathers has been a member of a rule in a list of the same kind. -/
theorem gatherProduction (sound : graph.Sound) (id : DeclId) :
    (graph.gatherProduction id).Sound := by
  apply sound.modifyDecl (fun decl => Decl.skeleton_mapProduction decl _) id
  intro reference isStored
  rcases Decl.mem_references_gathered isStored with
    isOld | ⟨details, kind, member, shape, isGathered, rfl⟩
  · exact .inl isOld
  · rcases mem_foldl_insertOnce.mp isGathered with isOwn | isInherited
    · have isMember : member ∈ (graph.decl id).members kind := by
        simpa [Decl.members, Decl.body?, shape] using isOwn
      exact .inl (Decl.mem_references_of_mem_members isMember)
    · rcases List.mem_flatMap.mp isInherited with ⟨rule, _, isMember⟩
      exact .inr (sound.of_mem_members isMember)

theorem gatherProductions (sound : graph.Sound) : graph.gatherProductions.Sound :=
  (sound.foldl retouched_gatherProduction graph.productions
    fun _ _ ih id _ => ih.gatherProduction id).1

/-- Sorting a list adds no reference to it. -/
theorem sortHolders (sound : graph.Sound) : graph.sortHolders.Sound := by
  apply sound.of_keeps (sameLists_sortHolders graph).size
    (keeps_sortHolders (fun sort decl => Decl.skeleton_sortLists decl sort) graph)
  intro id reference isStored
  rw [decl_sortHolders] at isStored
  split at isStored
  · rw [Decl.mem_references_sortLists graph.perm_sorted] at isStored
    exact .inl isStored
  · exact .inl isStored

/-- A mark is no reference. -/
theorem markOverrides (sound : graph.Sound) : graph.markOverrides.Sound := by
  apply sound.of_keeps (sameLists_markOverrides graph).size
    (keeps_markOverrides Decl.skeleton_marked graph)
  intro id reference isStored
  rw [decl_markOverrides] at isStored
  split at isStored
  · rw [Decl.references_marked] at isStored
    exact .inl isStored
  · exact .inl isStored

/-- Each step of linking retouches the graph, so what is needed of the lists is true before each of
them. -/
theorem link (sound : graph.Sound) (complete : graph.Complete) : graph.link.Sound := by
  have sorted : graph.sortCollections.Sound := sound.of_decls_eq rfl
  have completeSorted := complete.sortCollections
  rcases sorted.mergeModifications completeSorted with ⟨merged, retouched⟩
  rcases merged.linkAllBases (retouched.complete completeSorted) with ⟨linked, _⟩
  rw [Graph.link]
  apply Sound.of_decls_eq _ (decls_finishEnums _)
  apply Sound.markOverrides
  apply Sound.of_decls_eq _ (decls_finishFiles _).1
  exact linked.gatherProductions.sortHolders

end Sound

/-! ### Sessions -/

theorem sound_ofFiles (files : List SourceFile) : (ofFiles files).Sound := by
  intro id reference isStored
  rw [decl_of_size_le (Nat.zero_le _)] at isStored
  exact absurd isStored List.not_mem_nil

/-- Both kinds of steps of a session keep references sound. -/
theorem sound_run (files : List SourceFile) (steps : List SessionStep) :
    ((ofFiles files).run steps).Sound := by
  have start : (ofFiles files).Complete ∧ (ofFiles files).Sound :=
    ⟨complete_ofFiles files, sound_ofFiles files⟩
  refine (List.foldlRecOn (motive := fun graph : Graph => graph.Complete ∧ graph.Sound) steps
    perform start ?_).2
  rintro graph ⟨complete, sound⟩ step _
  cases step with
  | read reading =>
      exact ⟨complete.read reading, sound.of_steps (filing_read complete reading)⟩
  | link => exact ⟨complete.link, sound.link complete⟩

/-- Every number that a graph stores is in range, and denotes a declaration that fits its role. -/
structure ReferencesFit (graph : Graph) : Prop where
  decls : ∀ id, ∀ reference ∈ (graph.decl id).references, graph.Fits reference.1 reference.2
  constants : ∀ id group, (graph.decl id).enumGroup? = some group → group < graph.groups.size
  groups : ∀ group, ∀ id ∈ (graph.group group).members, graph.Fits (.kind "enum") id
  lists : ∀ listing, ∀ id ∈ graph.listed listing, graph.Fits (.kind listing.label) id
  enums : ∀ id ∈ graph.enums, graph.Fits (.kind "enum") id
  enumGroups : ∀ group ∈ graph.enumGroups, group < graph.groups.size
  fileLists : ∀ file ∈ graph.files, ∀ listing, ∀ id ∈ file.list listing,
    graph.Fits (.kind listing.listing.label) id
  fileEnums : ∀ file ∈ graph.files, ∀ id ∈ file.enums, graph.Fits (.kind "enum") id
  fileGroups : ∀ file ∈ graph.files, ∀ group ∈ file.enumGroups, group < graph.groups.size

theorem fits_of_isEnum (isEnum : (graph.decl id).kindLabel = "enum") :
    graph.Fits (.kind "enum") id :=
  ⟨inside_of_isEnum isEnum, by simp [Role.fits, isEnum]⟩

theorem Grouped.isEnum_of_mem_members {group : GroupId} (grouped : graph.Grouped)
    (isMember : id ∈ (graph.group group).members) : (graph.decl id).kindLabel = "enum" := by
  rw [← Decl.isSome_enumGroup?, (grouped.members group id).mp isMember]
  rfl

/-- The numbers that files, groups and the graph itself store are covered by what is kept in a
session, and those of declarations by soundness. -/
theorem referencesFit_of_holdings (holdings : graph.Holdings) (sound : graph.Sound) :
    graph.ReferencesFit where
  decls := sound
  constants id group := holdings.grouped.lt_size
  groups group id isMember := fits_of_isEnum (holdings.grouped.isEnum_of_mem_members isMember)
  lists listing id isListed := by
    rcases (holdings.complete.mem_iff listing id).mp isListed with ⟨inside, label⟩
    exact ⟨inside, by simp [Role.fits, label]⟩
  enums id isListed := fits_of_isEnum (holdings.constants id isListed)
  enumGroups group isListed := List.mem_range.mp (holdings.grouped.groups.mem_iff.mp isListed)
  fileLists file isFile listing id isListed := by
    rcases (holdings.located file isFile).decls listing id isListed with ⟨inside, label, _⟩
    exact ⟨inside, by simp [Role.fits, label]⟩
  fileEnums file isFile id isListed :=
    fits_of_isEnum ((holdings.located file isFile).constants id isListed).1
  fileGroups file isFile group isListed := ((holdings.located file isFile).groups group isListed).1

/-! ### The way to a page -/

/-- The way from a declaration to the page that shows it, over the owner of a member and over what a
`modify` block modifies. -/
inductive ShownOn (graph : Graph) : DeclId → Option String → Prop where
  | own {id : DeclId} {page : String} (has : (graph.decl id).ownPage? = some page) :
      ShownOn graph id (some page)
  | owner {id owner : DeclId} {page : Option String}
      (owned : (graph.decl id).owner? = some owner) (shown : ShownOn graph owner page) :
      ShownOn graph id page
  | target {id target : DeclId} {page : Option String}
      (aims : (graph.decl id).target? = some target) (shown : ShownOn graph target page) :
      ShownOn graph id page
  | untargeted {id : DeclId} (isModify : (graph.decl id).kindLabel = "modify")
      (aimless : (graph.decl id).target? = none) : ShownOn graph id none
  | file {id : DeclId} (pageless : (graph.decl id).ownPage? = none)
      (notModify : (graph.decl id).kindLabel ≠ "modify")
      (ownerless : (graph.decl id).owner? = none) :
      ShownOn graph id (some (Page.ofFile (graph.decl id).location.file))

theorem ownPage?_of_isBlock {decl : Decl} (isBlock : decl.isBlock = true) :
    ∃ page, decl.ownPage? = some page := by
  rcases decl with ⟨_, _, _, kind⟩
  cases kind <;> simp_all [Decl.isBlock, Decl.block?, Decl.ownPage?]

theorem page?_of_takesMembers (takes : (graph.decl id).takesMembers = true) :
    graph.page? id = graph.blockPage? id := by
  rcases shown : graph.decl id with ⟨_, _, _, kind⟩
  rw [shown] at takes
  cases kind <;> simp_all [Decl.takesMembers, Decl.isBlock, Decl.block?, Decl.kindLabel, page?]

theorem page?_of_ownPage? {page : String} (has : (graph.decl id).ownPage? = some page) :
    graph.page? id = some page := by
  rcases shown : graph.decl id with ⟨_, _, _, kind⟩
  rw [shown] at has
  cases kind <;> simp_all [Decl.ownPage?, page?, blockPage?]

theorem kindLabel_of_target? (aims : (graph.decl id).target? = some target) :
    (graph.decl id).kindLabel = "modify" := by
  rcases shown : graph.decl id with ⟨_, _, _, kind⟩
  rw [shown] at aims
  cases kind <;> simp_all [Decl.target?, Decl.kindLabel]

theorem page?_of_target? (aims : (graph.decl id).target? = some target) :
    graph.page? id = (graph.decl target).ownPage? := by
  rw [page?_of_takesMembers, blockPage?_of_target? aims]
  simp [Decl.takesMembers, kindLabel_of_target? aims]

theorem page?_of_untargeted (isModify : (graph.decl id).kindLabel = "modify")
    (aimless : (graph.decl id).target? = none) : graph.page? id = none := by
  rcases shown : graph.decl id with ⟨_, _, _, kind⟩
  rw [shown] at isModify aimless
  cases kind <;> simp_all [Decl.target?, Decl.kindLabel, page?, blockPage?]

theorem page?_of_file (pageless : (graph.decl id).ownPage? = none)
    (notModify : (graph.decl id).kindLabel ≠ "modify")
    (ownerless : (graph.decl id).owner? = none) :
    graph.page? id = some (Page.ofFile (graph.decl id).location.file) := by
  rcases shown : graph.decl id with ⟨_, _, _, kind⟩
  rw [shown] at pageless notModify ownerless
  cases kind <;>
    simp_all [Decl.ownPage?, Decl.kindLabel, Decl.owner?, Decl.member?, page?]

section Shown

variable (sound : graph.Sound)

include sound

theorem Sound.isBlock_of_target? (aims : (graph.decl id).target? = some target) :
    (graph.decl target).isBlock = true :=
  (sound id _ (Decl.mem_references_of_target? aims)).fits

theorem Sound.takesMembers_of_owner? {owner : DeclId}
    (owned : (graph.decl id).owner? = some owner) : (graph.decl owner).takesMembers = true :=
  (sound id _ (Decl.mem_references_of_owner? owned)).fits

/-- From a class, an object or a `modify` block it is one step at most. A `modify` block that has
been resolved is shown with its target, which has a page of its own. -/
theorem shownOn_of_takesMembers (takes : (graph.decl id).takesMembers = true) :
    graph.ShownOn id (graph.page? id) := by
  have ofBlock {block : DeclId} (isBlock : (graph.decl block).isBlock = true) :
      graph.ShownOn block (graph.decl block).ownPage? := by
    rcases ownPage?_of_isBlock isBlock with ⟨page, has⟩
    rw [has]
    exact .own has
  simp only [Decl.takesMembers, Bool.or_eq_true, beq_iff_eq] at takes
  rcases takes with isBlock | isModify
  · rw [(page?_of_isBlock isBlock).1]
    exact ofBlock isBlock
  · cases aims : (graph.decl id).target? with
    | none =>
        rw [page?_of_untargeted isModify aims]
        exact .untargeted isModify aims
    | some target =>
        rw [page?_of_target? aims]
        exact .target aims (ofBlock (sound.isBlock_of_target? aims))

/-- The page that is computed for a declaration is where the way from it ends. The way is at most
two steps long, since an owner is a block and a target is a class or an object. -/
theorem shownOn_page (id : DeclId) : graph.ShownOn id (graph.page? id) := by
  cases owned : (graph.decl id).owner? with
  | some owner =>
      have takes := sound.takesMembers_of_owner? owned
      rw [page?_of_owner? owned, ← page?_of_takesMembers takes]
      exact .owner owned (shownOn_of_takesMembers sound takes)
  | none =>
      by_cases isModify : (graph.decl id).kindLabel = "modify"
      · apply shownOn_of_takesMembers sound
        simp [Decl.takesMembers, isModify]
      · cases has : (graph.decl id).ownPage? with
        | some page =>
            rw [page?_of_ownPage? has]
            exact .own has
        | none =>
            rw [page?_of_file has isModify owned]
            exact .file has isModify owned

/-- The way has one end only. -/
theorem eq_page_of_shownOn {page : Option String} (shown : graph.ShownOn id page) :
    page = graph.page? id := by
  induction shown with
  | own has => exact (page?_of_ownPage? has).symm
  | owner owned _ ih =>
      rw [ih, page?_of_owner? owned, page?_of_takesMembers (sound.takesMembers_of_owner? owned)]
  | target aims _ ih =>
      rw [ih, page?_of_target? aims, (page?_of_isBlock (sound.isBlock_of_target? aims)).1]
  | untargeted isModify aimless => exact (page?_of_untargeted isModify aimless).symm
  | file pageless notModify ownerless => exact (page?_of_file pageless notModify ownerless).symm

end Shown

/-- Whatever is read and linked, in whatever order, every number that is stored denotes a
declaration that fits, and the way from any declaration to its page comes to an end. -/
theorem referencesFit_of_session (files : List SourceFile) (steps : List SessionStep) :
    ((ofFiles files).run steps).ReferencesFit ∧
      ∀ id page, ((ofFiles files).run steps).ShownOn id page ↔
        page = ((ofFiles files).run steps).page? id := by
  have sound := sound_run files steps
  refine ⟨referencesFit_of_holdings (holdings_run files steps) sound, fun id page => ?_⟩
  constructor
  · exact eq_page_of_shownOn sound
  · rintro rfl
    exact shownOn_page sound id

end Graph

end TadsReference
