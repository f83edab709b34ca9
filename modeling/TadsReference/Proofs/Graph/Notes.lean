import TadsReference.Proofs.Graph.Skeletons

/-!
# What linking notes

Merging resolves the target of each `modify` block and notes the block on it. The members of a block
are noted on those that have their names in the target. What a class, an object or a member notes
is given here in terms of the offers that merging makes.
-/

namespace TadsReference.Graph

variable {graph : Graph} {ids : List DeclId} {target member modification id : DeclId}
  {kind : MemberKind} {name : String}

/-! ### Notes on blocks and targets -/

/-- The notes on a class or an object. -/
def blockNotes? (decl : Decl) : Option (List Location × List DeclId) :=
  decl.block?.map fun block => (block.modifiedAt, block.modifications)

theorem blockNotes?_of_offer {change : Decl → Decl} (isOffer : Decl.OfferChange change)
    (decl : Decl) : blockNotes? (change decl) = blockNotes? decl := by
  rcases decl with ⟨_, _, _, kind⟩
  cases isOffer <;> cases kind <;> rfl

theorem target?_of_offer {change : Decl → Decl} (isOffer : Decl.OfferChange change)
    (decl : Decl) : (change decl).target? = decl.target? := by
  rcases decl with ⟨_, _, _, kind⟩
  cases isOffer <;> cases kind <;> rfl

/-- Merging a `modify` block notes it on its target, and on nothing else. Neither resolving the
target nor offering the members touches the notes of any class or object. -/
theorem blockNotes?_mergeModification (graph : Graph) (modification id : DeclId) :
    blockNotes? ((graph.mergeModification modification).decl id) =
      (blockNotes? (graph.decl id)).map fun notes =>
        if graph.findBlock? (graph.name modification) = some id then
          (notes.1 ++ [(graph.decl modification).location], notes.2 ++ [modification])
        else notes := by
  cases found : graph.findBlock? (graph.name modification) with
  | none => simp [mergeModification, found]
  | some target =>
      have merged := keeps_mergeMembers (fun _ => blockNotes?_of_offer) graph modification target id
      rcases decl_mergeModification found with ⟨fileName, shape⟩
      have targeted (decl : Decl) : blockNotes? (decl.withTarget target fileName) =
          blockNotes? decl := by
        rcases decl with ⟨_, _, _, kind⟩
        cases kind <;> rfl
      simp only [shape, apply_ite blockNotes?, targeted, ite_self, ← merged]
      generalize (graph.mergeMembers modification target).decl id = decl
      rcases decl with ⟨_, _, _, kind⟩
      by_cases isTarget : id = target
      · cases kind <;>
          simp [blockNotes?, Decl.block?, Decl.withModification, Decl.mapBlock, isTarget]
      · simp [isTarget, Ne.symm isTarget]

theorem target?_withTarget {decl : Decl} (isModification : decl.kindLabel = "modify")
    (target : DeclId) (fileName : String) :
    (decl.withTarget target fileName).target? = some target := by
  rcases decl with ⟨_, _, _, kind⟩
  cases kind <;> simp_all [Decl.kindLabel, Decl.withTarget, Decl.mapModify, Decl.target?]

theorem kindLabel_withModification (decl : Decl) (location : Location) (id : DeclId) :
    (decl.withModification location id).kindLabel = decl.kindLabel :=
  congrArg (·.2.2.2) ((Decl.MergeChange.blockNote location id).head decl)

/-- Merging a block resolves the target of this block. The offers that follow leave it there, since
they only change members. -/
theorem target?_mergeModification {modification : DeclId}
    (isModification : (graph.decl modification).kindLabel = "modify") (id : DeclId) :
    ((graph.mergeModification modification).decl id).target? =
      if id = modification then
        graph.findBlock? (graph.name modification) <|> (graph.decl id).target?
      else (graph.decl id).target? := by
  cases found : graph.findBlock? (graph.name modification) with
  | none => simp [mergeModification, found]
  | some target =>
      have merged := keeps_mergeMembers (fun _ => target?_of_offer) graph modification target id
      have heads := keeps_mergeMembers (fun _ isOffer => isOffer.head) graph modification target
      rcases decl_mergeModification found with ⟨fileName, shape⟩
      have noted (decl : Decl) : (decl.withModification (graph.decl modification).location
          modification).target? = decl.target? := by
        rcases decl with ⟨_, _, _, kind⟩
        cases kind <;> rfl
      by_cases here : id = modification
      · subst here
        have label : ((graph.mergeMembers id target).decl id).kindLabel = "modify" :=
          (heads.kindLabel id).trans isModification
        simp only [shape, if_true]
        apply target?_withTarget
        split
        · rwa [kindLabel_withModification]
        · exact label
      · simp only [shape, if_neg here, apply_ite Decl.target?, noted, ite_self, merged]

/-- The `modify` blocks of a list whose name refers to a target. -/
def aimedAt (graph : Graph) (target : DeclId) (modifications : List DeclId) : List DeclId :=
  modifications.filter fun modification =>
    graph.findBlock? (graph.name modification) == some target

/-- Only a block that aims at this declaration leaves a note on it, behind the notes of the earlier
ones. So the notes come in the order in which the blocks are merged. -/
theorem blockNotes?_foldl (graph : Graph) (modifications : List DeclId) (id : DeclId) :
    blockNotes? ((modifications.foldl mergeModification graph).decl id) =
      (blockNotes? (graph.decl id)).map fun notes =>
        (notes.1 ++ (graph.aimedAt id modifications).map fun note => (graph.decl note).location,
          notes.2 ++ graph.aimedAt id modifications) := by
  induction modifications generalizing graph with
  | nil => simp [aimedAt]
  | cons modification modifications ih =>
      have lists := sameLists_mergeModification graph modification
      have heads := keeps_mergeModification (fun _ isChange => isChange.head) graph modification
      have aimed : (graph.mergeModification modification).aimedAt id modifications =
          graph.aimedAt id modifications := by
        simp only [aimedAt, heads.name, lists.findBlock? heads]
      rw [List.foldl_cons, ih, blockNotes?_mergeModification, aimed, Option.map_map]
      congr 1
      funext notes
      by_cases aims : graph.findBlock? (graph.name modification) = some id <;>
        simp [aims, aimedAt, heads.location]

/-- Each of the blocks has its target resolved. What is found under its name does not depend on the
blocks merged before, since merging changes no name. -/
theorem target?_foldl (graph : Graph) (modifications : List DeclId)
    (labels : ∀ id ∈ modifications, (graph.decl id).kindLabel = "modify") (id : DeclId) :
    ((modifications.foldl mergeModification graph).decl id).target? =
      if id ∈ modifications then graph.findBlock? (graph.name id) <|> (graph.decl id).target?
      else (graph.decl id).target? := by
  induction modifications generalizing graph with
  | nil => simp
  | cons modification modifications ih =>
      have lists := sameLists_mergeModification graph modification
      have heads := keeps_mergeModification (fun _ isChange => isChange.head) graph modification
      have rest := ih (graph.mergeModification modification) (by
        intro later isLater
        rw [heads.kindLabel]
        exact labels later (List.mem_cons_of_mem _ isLater))
      rw [List.foldl_cons, rest, target?_mergeModification (labels _ List.mem_cons_self),
        lists.findBlock? heads, heads.name]
      by_cases here : id = modification
      · subst here
        cases graph.findBlock? (graph.name id) <;> simp
      · simp [here]

/-! ### What linking notes -/

theorem modifications_of_blockNotes? {decl : Decl} {notes : List Location × List DeclId}
    (shown : blockNotes? decl = some notes) :
    decl.modifiedAt = notes.1 ∧ decl.modifications = notes.2 := by
  rcases Option.map_eq_some_iff.mp shown with ⟨block, isBlock, rfl⟩
  simp [Decl.modifiedAt, Decl.modifications, isBlock]

theorem modifications_of_member? {decl : Decl} {details : MemberDecl}
    (shown : decl.member? = some details) :
    decl.modifiedAt = details.modifiedAt ∧ decl.modifications = details.modifications := by
  rcases decl with ⟨_, _, _, shape⟩
  cases shape <;> simp_all [Decl.member?, Decl.modifiedAt, Decl.modifications, Decl.block?]

theorem notes_of_mem_modifications {decl : Decl} {note : DeclId}
    (noted : note ∈ decl.modifications) : decl.isBlock = true ∨ decl.owner?.isSome = true := by
  rcases decl with ⟨_, _, _, shape⟩
  cases shape <;>
    simp_all [Decl.modifications, Decl.isBlock, Decl.block?, Decl.owner?, Decl.member?]

theorem notes_of_mem_modifiedAt {decl : Decl} {location : Location}
    (noted : location ∈ decl.modifiedAt) : decl.isBlock = true ∨ decl.owner?.isSome = true := by
  rcases decl with ⟨_, _, _, shape⟩
  cases shape <;>
    simp_all [Decl.modifiedAt, Decl.isBlock, Decl.block?, Decl.owner?, Decl.member?]

/-- No step of linking behind the merging touches a note. -/
theorem keeps_modifications_link (graph : Graph) :
    Keeps (fun decl => (decl.modifiedAt, decl.modifications))
      graph.sortCollections.mergeModifications graph.link := by
  apply keeps_link_of_merged
  · rintro change isChange ⟨_, _, _, shape⟩
    cases isChange with
    | heir heir heirIsClass => cases heirIsClass <;> cases shape <;> rfl
    | resolve resolve => cases shape <;> rfl
  · rintro _ ⟨_, _, _, shape⟩
    cases shape <;> rfl
  · rintro _ ⟨_, _, _, shape⟩
    cases shape <;> rfl
  · rintro ⟨_, _, _, shape⟩
    cases shape <;> rfl

theorem keeps_owner?_link (graph : Graph) : Keeps Decl.owner? graph graph.link :=
  fun id => Decl.owner?_eq_of_skeleton_eq (keeps_skeleton_link graph id)

/-- No step of linking behind the merging touches the target of a block. -/
theorem keeps_target?_link (graph : Graph) :
    Keeps Decl.target? graph.sortCollections.mergeModifications graph.link := by
  apply keeps_link_of_merged
  · rintro change isChange ⟨_, _, _, shape⟩
    cases isChange <;> cases shape <;> rfl
  · rintro _ ⟨_, _, _, shape⟩
    cases shape <;> rfl
  · rintro _ ⟨_, _, _, shape⟩
    cases shape <;> rfl
  · rintro ⟨_, _, _, shape⟩
    cases shape <;> rfl

section Unlinked

variable (unlinked : graph.Unlinked)

include unlinked

/-- Linking gives a `modify` block the target that its name has when the collections have been
sorted. -/
theorem target?_link (listed : modification ∈ graph.modifications) :
    (graph.link.decl modification).target? =
      graph.sortCollections.findBlock? (graph.name modification) := by
  refine (keeps_target?_link graph modification).trans ?_
  refine (target?_foldl _ _ unlinked.mergeable.modifications modification).trans ?_
  have noTarget := (unlinked.decls modification).target
  simp only [modifications_sortCollections, listed, if_true, decl_sortCollections, noTarget,
    name_sortCollections]
  cases graph.sortCollections.findBlock? (graph.name modification) <;> rfl

/-- A class or an object notes the `modify` blocks that are aimed at it. It has no notes before
linking, so these are all that it notes, with the places of the blocks beside them. -/
theorem notes_link_of_isBlock (isBlock : (graph.decl id).isBlock = true) :
    (graph.link.decl id).modifications =
        graph.sortCollections.aimedAt id graph.modifications ∧
      (graph.link.decl id).modifiedAt =
        (graph.link.decl id).modifications.map fun note => (graph.decl note).location := by
  have kept := keeps_modifications_link graph id
  have merged := blockNotes?_foldl graph.sortCollections graph.modifications id
  rcases Option.isSome_iff_exists.mp isBlock with ⟨block, shown⟩
  have blank : blockNotes? (graph.sortCollections.decl id) =
      some (block.modifiedAt, block.modifications) := by
    rw [decl_sortCollections, blockNotes?, shown]
    rfl
  have noNotes := modifications_of_blockNotes? blank
  have noPlaces : block.modifiedAt = [] := noNotes.1.symm.trans (unlinked.decls id).modifiedAt
  have noBlocks : block.modifications = [] := noNotes.2.symm.trans (unlinked.decls id).modifications
  rw [blank] at merged
  have notes := modifications_of_blockNotes? merged
  simp only [noPlaces, noBlocks, List.nil_append] at notes
  rw [Prod.mk.injEq] at kept
  have ids := kept.2.trans notes.2
  exact ⟨ids, by rw [kept.1, ids]; exact notes.1⟩

/-- A member notes the members that were offered under its name. It has no notes before linking, so
these are all, with the places of the members beside them. -/
theorem notes_link_of_member {owner : DeclId} (owned : (graph.decl id).owner? = some owner) :
    (graph.link.decl id).modifications = graph.sortCollections.notedOn graph.allOffers id ∧
      (graph.link.decl id).modifiedAt =
        (graph.link.decl id).modifications.map fun note => (graph.decl note).location := by
  have kept := keeps_modifications_link graph id
  rw [Prod.mk.injEq] at kept
  rcases Option.map_eq_some_iff.mp owned with ⟨details, shown, _⟩
  have noNotes := modifications_of_member? shown
  have noPlaces : details.modifiedAt = [] := noNotes.1.symm.trans (unlinked.decls id).modifiedAt
  have noMembers : details.modifications = [] :=
    noNotes.2.symm.trans (unlinked.decls id).modifications
  have merged := (merging_sortCollections unlinked).notes id
  rw [decl_sortCollections, shown] at merged
  have notes := modifications_of_member? merged
  simp only [noPlaces, noMembers, List.nil_append] at notes
  have ids := kept.2.trans notes.2
  exact ⟨ids, by rw [kept.1, ids]; exact notes.1⟩

end Unlinked

end TadsReference.Graph
