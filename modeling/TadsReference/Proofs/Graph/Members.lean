import TadsReference.Proofs.Graph.Merging
import TadsReference.Proofs.Graph.Unlinked

/-!
# The members of linked declarations

Linking a graph that has only been read leaves each class and object with the members that merging
gave it, and each `modify` block with its own. Whatever a production shows belongs to a class.
-/

namespace TadsReference.Graph

variable {graph before after : Graph} {offers : List Offer} {id member : DeclId}
  {kind : MemberKind} {name : String}

/-! ### Linking starts from a graph that can be merged -/

theorem decl_sortCollections (graph : Graph) (id : DeclId) :
    graph.sortCollections.decl id = graph.decl id :=
  rfl

theorem name_sortCollections (graph : Graph) (id : DeclId) :
    graph.sortCollections.name id = graph.name id :=
  rfl

theorem modifications_sortCollections (graph : Graph) :
    graph.sortCollections.modifications = graph.modifications :=
  rfl

theorem classes_sortCollections (graph : Graph) :
    graph.sortCollections.classes = graph.sorted graph.classes :=
  rfl

theorem objects_sortCollections (graph : Graph) :
    graph.sortCollections.objects = graph.sorted graph.objects :=
  rfl

namespace Unlinked

variable (unlinked : graph.Unlinked)

include unlinked

theorem mem_listed (listing : Listing) :
    id ∈ graph.listed listing ↔
      id < graph.decls.size ∧ (graph.decl id).kindLabel = listing.label := by
  rw [unlinked.listed, labelled, mem_idsWhere, beq_iff_eq]

theorem increasing (listing : Listing) : (graph.listed listing).Pairwise (· < ·) := by
  rw [unlinked.listed]
  exact pairwise_lt_idsWhere _ _

/-- The lists of classes and objects hold the declarations that are one or the other. -/
theorem mem_blocks :
    id ∈ graph.classes ++ graph.objects ↔ (graph.decl id).isBlock = true := by
  have classes : id ∈ graph.classes ↔
      id < graph.decls.size ∧ (graph.decl id).kindLabel = "class" := unlinked.mem_listed .classes
  have objects : id ∈ graph.objects ↔
      id < graph.decls.size ∧ (graph.decl id).kindLabel = "object" := unlinked.mem_listed .objects
  rw [List.mem_append, classes, objects, Decl.isBlock_iff]
  constructor
  · rintro (⟨_, label⟩ | ⟨_, label⟩)
    · exact .inl label
    · exact .inr label
  · intro label
    have inside : id < graph.decls.size :=
      lt_size_of_view rfl ((Decl.isBlock_iff (graph.decl id)).mpr label)
    exact label.imp (⟨inside, ·⟩) (⟨inside, ·⟩)

theorem kindLabel_of_mem (listed : id ∈ graph.modifications) :
    (graph.decl id).kindLabel = "modify" :=
  ((unlinked.mem_listed .modifications).mp listed).2

theorem mem_members :
    member ∈ (graph.decl id).members kind ↔
      (graph.decl member).owner? = some id ∧ (graph.decl member).memberKind? = some kind := by
  rw [unlinked.members, owned, mem_idsWhere]
  simp only [Bool.and_eq_true, beq_iff_eq]
  constructor
  · exact And.right
  · intro facts
    exact ⟨lt_nextId_of_owner? facts.1, facts⟩

/-- What takes no members has none, so productions have none before linking. -/
theorem members_eq_nil (takesNone : (graph.decl id).takesMembers = false) (kind : MemberKind) :
    (graph.decl id).members kind = [] := by
  apply List.eq_nil_iff_forall_not_mem.mpr
  intro member isMember
  have takes := (unlinked.owners member id (unlinked.mem_members.mp isMember).1).2.1
  rw [takesNone] at takes
  contradiction

theorem pairwise_members (id : DeclId) (kind : MemberKind) :
    ((graph.decl id).members kind).Pairwise (· < ·) := by
  rw [unlinked.members]
  exact pairwise_lt_idsWhere _ _

/-- A graph that has only been read can be merged: every member stands in one block, and the lists
hold nothing that is of another kind. -/
theorem mergeable : graph.sortCollections.Mergeable where
  owner _ _ _ isMember := (unlinked.mem_members.mp isMember).1
  memberKind _ _ _ isMember := (unlinked.mem_members.mp isMember).2
  members id kind := (unlinked.pairwise_members id kind).imp Nat.ne_of_lt
  blocks id listed := by
    rw [classes_sortCollections, objects_sortCollections, List.mem_append, mem_sorted, mem_sorted,
      ← List.mem_append, unlinked.mem_blocks] at listed
    exact listed
  modifications id listed := unlinked.kindLabel_of_mem listed
  distinct := (unlinked.increasing .modifications).imp Nat.ne_of_lt

/-- The members of an earlier `modify` block were read before those of a later one. -/
theorem lt_of_owner_lt {earlier later first second : DeclId}
    (firstOwner : (graph.decl first).owner? = some earlier)
    (secondOwner : (graph.decl second).owner? = some later) (lt : earlier < later) :
    first < second := by
  rcases unlinked.owners first earlier firstOwner with ⟨_, _, none⟩
  rcases unlinked.owners second later secondOwner with ⟨laterLt, takes, _⟩
  apply Nat.lt_of_le_of_lt _ laterLt
  apply Nat.le_of_not_lt
  intro front
  have takesNone := none later lt front
  simp [takes] at takesNone

end Unlinked

/-! ### What names refer to -/

/-- What a name refers to: the first class of the name in display order, or the first object if no
class has the name. -/
inductive Denotes (graph : Graph) (name : String) (target : DeclId) : Prop where
  | firstClass (first : graph.FirstNamed graph.classes name target)
  | firstObject (noClass : ∀ id ∈ graph.classes, graph.name id ≠ name)
      (first : graph.FirstNamed graph.objects name target)

theorem findBlock?_sortCollections (graph : Graph) (name : String) :
    graph.sortCollections.findBlock? name =
      (graph.findNamed? (graph.sorted graph.classes) name <|>
        graph.findNamed? (graph.sorted graph.objects) name) :=
  rfl

/-- When merging looks a name up, the lists of classes and objects have been sorted. So the first
one that is found is the first one in display order. -/
theorem findBlock?_sortCollections_eq_some_iff (unlinked : graph.Unlinked) {target : DeclId} :
    graph.sortCollections.findBlock? name = some target ↔ graph.Denotes name target := by
  have classes : graph.classes.Pairwise (· < ·) := unlinked.increasing .classes
  have objects : graph.objects.Pairwise (· < ·) := unlinked.increasing .objects
  simp only [findBlock?_sortCollections, Option.orElse_eq_orElse, Option.orElse_eq_or,
    Option.or_eq_some_iff, find?_sorted_eq_some_iff classes, find?_sorted_eq_some_iff objects,
    find?_sorted_eq_none_iff]
  constructor
  · rintro (first | ⟨none, first⟩)
    · exact .firstClass first
    · exact .firstObject none first
  · rintro (first | ⟨none, first⟩)
    · exact .inl first
    · exact .inr ⟨none, first⟩

/-- A name that nothing of the graph has is looked up in vain, sorted or not. -/
theorem findBlock?_sortCollections_eq_none_iff :
    graph.sortCollections.findBlock? name = none ↔
      ∀ id ∈ graph.classes ++ graph.objects, graph.name id ≠ name := by
  simp only [findBlock?_sortCollections, Option.orElse_eq_orElse, Option.orElse_eq_or,
    Option.or_eq_none_iff, find?_sorted_eq_none_iff, List.mem_append]
  constructor
  · rintro ⟨classes, objects⟩ id (isClass | isObject)
    · exact classes id isClass
    · exact objects id isObject
  · intro none
    exact ⟨fun id isClass => none id (.inl isClass), fun id isObject => none id (.inr isObject)⟩

/-! ### Gathering the members of rules -/

/-- Inserting once adds at most the item itself. -/
theorem mem_insertOnce {ids : List DeclId} {added : DeclId} :
    id ∈ insertOnce ids added ↔ id ∈ ids ∨ id = added := by
  rw [insertOnce]
  split
  · next present =>
      rw [List.contains_iff_mem] at present
      constructor
      · exact .inl
      · rintro (old | rfl)
        · exact old
        · exact present
  · simp

theorem mem_foldl_insertOnce {ids more : List DeclId} :
    id ∈ more.foldl insertOnce ids ↔ id ∈ ids ∨ id ∈ more := by
  induction more generalizing ids with
  | nil => simp
  | cons first more ih => rw [List.foldl_cons, ih, mem_insertOnce, List.mem_cons, or_assoc]

/-- A production shows its own members and those of classes. -/
structure Gathered (before after : Graph) : Prop where
  head : Keeps Decl.head before after
  rules : Keeps Decl.matchClasses before after
  others : ∀ id kind, (before.decl id).kindLabel ≠ "grammar" →
    (after.decl id).members kind = (before.decl id).members kind
  members : ∀ id kind, ∀ member ∈ (after.decl id).members kind,
    member ∈ (before.decl id).members kind ∨
      ∃ rule, (before.decl rule).isClass = true ∧ member ∈ (before.decl rule).members kind

theorem kindLabel_ne_of_isClass {decl : Decl} (isClass : decl.isClass = true) :
    decl.kindLabel ≠ "grammar" := by
  rw [Decl.isClass_iff] at isClass
  simp [isClass]

/-- What a production comes by is a member of one of its rules. The rules are classes, and no class
gathers anything, so they have what they had when the gathering began. -/
theorem Gathered.step (gathered : Gathered before after)
    (classes : ∀ production rule, rule ∈ (before.decl production).matchClasses →
      (before.decl rule).isClass = true) (production : DeclId) :
    Gathered before (after.gatherProduction production) := by
  have changed (other : DeclId) :
      (after.gatherProduction production).decl other =
        if other = production then (after.decl other).mapProduction fun details =>
          { details with
            body :=
              { details.body with
                methods := after.gatheredMembers details .method
                properties := after.gatheredMembers details .property } }
        else after.decl other := decl_modifyDecl rfl after production other
  refine ⟨gathered.head.trans ?_, gathered.rules.trans ?_, ?_, ?_⟩
  · apply keeps_gatherProduction
    rintro _ ⟨_, _, _, shape⟩
    cases shape <;> rfl
  · apply Keeps.modifyDecl
    rintro ⟨_, _, _, shape⟩
    cases shape <;> rfl
  · intro other kind isOther
    rw [changed, ← gathered.others other kind isOther]
    rw [← gathered.head.kindLabel other] at isOther
    split
    · generalize after.decl other = shown at isOther ⊢
      rcases shown with ⟨_, _, _, shape⟩
      cases shape with
      | production details => exact absurd rfl isOther
      | _ => rfl
    · rfl
  · intro other kind member isMember
    have sameRules := gathered.rules other
    have old := gathered.members other kind member
    rw [changed] at isMember
    split at isMember
    · rcases shown : after.decl other with ⟨_, _, _, shape⟩
      rw [shown] at isMember sameRules old
      cases shape with
      | production details =>
          have isGathered : member ∈ after.gatheredMembers details kind := by
            cases kind <;> exact isMember
          rcases mem_foldl_insertOnce.mp isGathered with own | ofRule
          · exact old own
          · rcases List.mem_flatMap.mp ofRule with ⟨rule, isRule, isMember⟩
            have isClass := classes other rule (sameRules ▸ isRule)
            rw [gathered.others rule kind (kindLabel_ne_of_isClass isClass)] at isMember
            exact .inr ⟨rule, isClass, isMember⟩
      | _ => exact old isMember
    · exact old isMember

theorem gathered_gatherProductions
    (classes : ∀ production rule, rule ∈ (graph.decl production).matchClasses →
      (graph.decl rule).isClass = true) : Gathered graph graph.gatherProductions := by
  apply List.foldlRecOn graph.productions gatherProduction
  · exact ⟨Keeps.refl _ graph, Keeps.refl _ graph, fun _ _ _ => rfl, fun _ _ _ => .inl⟩
  · intro after gathered production _
    exact gathered.step classes production

/-! ### Linking as a whole -/

/-- All that `modify` blocks offer when a graph is linked. -/
def allOffers (graph : Graph) : List Offer :=
  graph.modifications.flatMap graph.sortCollections.offersOf

/-- The members of a declaration once all `modify` blocks have been merged. -/
def mergedMembers (graph : Graph) (id : DeclId) (kind : MemberKind) : List DeclId :=
  graph.keptMembers graph.allOffers id kind

theorem merging_sortCollections (unlinked : graph.Unlinked) :
    Merging graph.sortCollections graph.sortCollections.mergeModifications graph.allOffers :=
  merging_mergeModifications unlinked.mergeable

theorem members_sortLists {sort : List DeclId → List DeclId} (nil : sort [] = [])
    (decl : Decl) (kind : MemberKind) :
    (decl.sortLists sort).members kind = sort (decl.members kind) := by
  rcases decl with ⟨_, _, _, shape⟩
  cases shape <;> cases kind <;> first | rfl | exact nil.symm

theorem globalObjects_sortLists {sort : List DeclId → List DeclId} (nil : sort [] = [])
    (decl : Decl) : (decl.sortLists sort).globalObjects = sort decl.globalObjects := by
  rcases decl with ⟨_, _, _, shape⟩
  cases shape with
  | classDecl details => rfl
  | _ => exact nil.symm

theorem matchClasses_sortLists {sort : List DeclId → List DeclId} (nil : sort [] = [])
    (decl : Decl) : (decl.sortLists sort).matchClasses = sort decl.matchClasses := by
  rcases decl with ⟨_, _, _, shape⟩
  cases shape with
  | production details => rfl
  | _ => exact nil.symm

theorem keeps_members_linkAllBases (graph : Graph) (kind : MemberKind) :
    Keeps (Decl.members · kind) graph graph.linkAllBases := by
  apply keeps_linkAllBases
  rintro change isChange ⟨_, _, _, shape⟩
  cases isChange with
  | heir heir heirIsClass => cases heirIsClass <;> cases shape <;> rfl
  | resolve resolve => cases shape <;> rfl

/-- Rules are noted while files are read, so neither merging nor the resolving of bases adds one. -/
theorem keeps_matchClasses_linkAllBases (graph : Graph) :
    Keeps Decl.matchClasses graph graph.sortCollections.mergeModifications.linkAllBases := by
  have sorted : Keeps Decl.matchClasses graph graph.sortCollections := Keeps.refl _ graph
  apply sorted.trans
  apply (keeps_mergeModifications _ _).trans (keeps_linkAllBases _ _)
  · rintro change isChange ⟨_, _, _, shape⟩
    cases isChange with
    | offer isOffer => cases isOffer <;> cases shape <;> rfl
    | blockNote location id => cases shape <;> rfl
    | target target fileName => cases shape <;> rfl
  · rintro change isChange ⟨_, _, _, shape⟩
    cases isChange <;> cases shape <;> rfl

/-- The graph that is sorted when it is linked. -/
def gathered (graph : Graph) : Graph :=
  graph.sortCollections.mergeModifications.linkAllBases.gatherProductions

theorem listed_gathered (graph : Graph) (listing : Listing) :
    graph.gathered.listed listing = graph.sortCollections.listed listing := by
  rw [gathered, (sameLists_gatherProductions _).listed, (sameLists_linkAllBases _).listed,
    (sameLists_mergeModifications _).listed]

/-- No step of linking changes the head of a declaration, be it the name, the kind or the
location. -/
theorem keeps_head_link (graph : Graph) : Keeps Decl.head graph graph.link := by
  apply keeps_link (fun _ isChange => isChange.head) (fun _ isChange => isChange.head)
  · rintro _ ⟨_, _, _, shape⟩
    cases shape <;> rfl
  · rintro _ ⟨_, _, _, shape⟩
    cases shape <;> rfl
  · rintro ⟨_, _, _, shape⟩
    cases shape <;> rfl

/-- Linking sorts the members of classes, objects and productions, and of nothing else. -/
theorem members_link (graph : Graph) (id : DeclId) (kind : MemberKind) :
    (graph.link.decl id).members kind =
      if id ∈ graph.gathered.classes ++ graph.gathered.objects ++ graph.gathered.productions then
        graph.gathered.sorted ((graph.gathered.decl id).members kind)
      else (graph.gathered.decl id).members kind := by
  have finished : Keeps (Decl.members · kind) graph.gathered.sortHolders graph.link := by
    apply (keeps_finishFiles _).trans
    apply (keeps_markOverrides _ _).trans
    · exact keeps_finishEnums _
    · intro decl
      exact Decl.members_mapMember decl _ kind
  refine (finished id).trans ?_
  rw [decl_sortHolders]
  split
  · exact members_sortLists (List.mergeSort_nil) _ kind
  · rfl

section Unlinked

variable (unlinked : graph.Unlinked)

include unlinked

/-- All rules are classes, so a production only shows what has been a member of its own or of a
class. -/
theorem gathered_linkAllBases :
    Gathered graph.sortCollections.mergeModifications.linkAllBases graph.gathered := by
  apply gathered_gatherProductions
  have heads := (keeps_mergeModifications (fun _ isChange => isChange.head)
    graph.sortCollections).trans (keeps_linkAllBases (fun _ isChange => isChange.head) _)
  intro production rule isRule
  rw [heads.isClass]
  rw [keeps_matchClasses_linkAllBases] at isRule
  exact unlinked.rules production rule isRule

theorem members_linkAllBases (id : DeclId) (kind : MemberKind) :
    (graph.sortCollections.mergeModifications.linkAllBases.decl id).members kind =
      graph.mergedMembers id kind :=
  (keeps_members_linkAllBases _ kind id).trans ((merging_sortCollections unlinked).members id kind)

theorem kindLabel_linkAllBases (id : DeclId) :
    (graph.sortCollections.mergeModifications.linkAllBases.decl id).kindLabel =
      (graph.decl id).kindLabel :=
  ((merging_sortCollections unlinked).head.trans
    (keeps_linkAllBases (fun _ isChange => isChange.head) _)).kindLabel id

theorem members_gathered (notProduction : (graph.decl id).kindLabel ≠ "grammar")
    (kind : MemberKind) :
    (graph.gathered.decl id).members kind = graph.mergedMembers id kind := by
  rw [← kindLabel_linkAllBases unlinked] at notProduction
  rw [(gathered_linkAllBases unlinked).others id kind notProduction,
    members_linkAllBases unlinked]

theorem keeps_head_gathered : Keeps Decl.head graph graph.gathered :=
  ((merging_sortCollections unlinked).head.trans
    (keeps_linkAllBases (fun _ isChange => isChange.head) _)).trans
      (gathered_linkAllBases unlinked).head

/-- Classes and objects hold the members that merging gave them, in display order. -/
theorem members_link_of_isBlock (isBlock : (graph.decl id).isBlock = true) (kind : MemberKind) :
    (graph.link.decl id).members kind = graph.sorted (graph.mergedMembers id kind) := by
  have notProduction : (graph.decl id).kindLabel ≠ "grammar" := by
    rw [Decl.isBlock_iff] at isBlock
    rcases isBlock with label | label <;> simp [label]
  have classes := listed_gathered graph .classes
  have objects := listed_gathered graph .objects
  have listed : id ∈ graph.gathered.classes ++ graph.gathered.objects := by
    simp only [Graph.listed] at classes objects
    rw [classes, objects, classes_sortCollections, objects_sortCollections, List.mem_append,
      mem_sorted, mem_sorted, ← List.mem_append, unlinked.mem_blocks]
    exact isBlock
  rw [members_link, if_pos (List.mem_append_left _ listed), members_gathered unlinked notProduction,
    (keeps_head_gathered unlinked).sorted]

/-- A `modify` block holds the members that were declared in it, in the order of their
declarations. -/
theorem members_link_of_modify (isModification : (graph.decl id).kindLabel = "modify")
    (kind : MemberKind) : (graph.link.decl id).members kind = (graph.decl id).members kind := by
  have notProduction : (graph.decl id).kindLabel ≠ "grammar" := by simp [isModification]
  have merged : graph.mergedMembers id kind = (graph.decl id).members kind :=
    keptMembers_modification unlinked.mergeable isModification graph.modifications kind
  have notListed (listing : Listing) (sorted : graph.gathered.listed listing =
      graph.sorted (graph.listed listing)) (other : listing.label ≠ "modify") :
      id ∉ graph.gathered.listed listing := by
    rw [sorted, mem_sorted, unlinked.mem_listed, isModification]
    rintro ⟨_, label⟩
    exact other label.symm
  have classes := notListed .classes (listed_gathered graph .classes) (by decide)
  have objects := notListed .objects (listed_gathered graph .objects) (by decide)
  have productions := notListed .productions (listed_gathered graph .productions) (by decide)
  simp only [Graph.listed] at classes objects productions
  rw [members_link, if_neg (by simp [classes, objects, productions]),
    members_gathered unlinked notProduction, merged]

/-- Whatever a declaration shows has its place there or in a class. -/
theorem mem_members_link (isMember : member ∈ (graph.link.decl id).members kind) :
    ∃ home, member ∈ graph.mergedMembers home kind ∧
      (home = id ∨ (graph.decl home).isClass = true) := by
  have isGathered : member ∈ (graph.gathered.decl id).members kind := by
    rw [members_link] at isMember
    split at isMember
    · exact graph.gathered.mem_sorted.mp isMember
    · exact isMember
  have gathering := gathered_linkAllBases unlinked
  rcases gathering.members id kind member isGathered with own | ⟨rule, isClass, ofRule⟩
  · rw [members_linkAllBases unlinked] at own
    exact ⟨id, own, .inl rfl⟩
  · rw [members_linkAllBases unlinked] at ofRule
    rw [Decl.isClass_iff, kindLabel_linkAllBases unlinked, ← Decl.isClass_iff] at isClass
    exact ⟨rule, ofRule, .inr isClass⟩

theorem matchClasses_gathered (id : DeclId) :
    (graph.gathered.decl id).matchClasses = (graph.decl id).matchClasses := by
  rw [(gathered_linkAllBases unlinked).rules, keeps_matchClasses_linkAllBases]

theorem mem_productions_gathered (isProduction : (graph.decl id).kindLabel = "grammar") :
    id ∈ graph.gathered.productions := by
  have sorted : graph.gathered.productions = graph.sorted graph.productions :=
    listed_gathered graph .productions
  have listed : id ∈ graph.productions ↔
      id < graph.decls.size ∧ (graph.decl id).kindLabel = "grammar" :=
    unlinked.mem_listed .productions
  rw [sorted, mem_sorted, listed]
  exact ⟨inside_of_isProduction isProduction, isProduction⟩

/-- Linking sorts the rules of productions. -/
theorem matchClasses_link (id : DeclId) :
    (graph.link.decl id).matchClasses = graph.sorted (graph.decl id).matchClasses := by
  have finished : Keeps Decl.matchClasses graph.gathered.sortHolders graph.link := by
    apply (keeps_finishFiles _).trans
    apply (keeps_markOverrides _ _).trans (keeps_finishEnums _)
    rintro ⟨_, _, _, shape⟩
    cases shape <;> rfl
  rw [finished, decl_sortHolders]
  split
  · rw [matchClasses_sortLists List.mergeSort_nil, (keeps_head_gathered unlinked).sorted,
      matchClasses_gathered unlinked]
  · next notListed =>
      have notProduction : (graph.decl id).kindLabel ≠ "grammar" := fun isProduction =>
        notListed (List.mem_append_right _ (mem_productions_gathered unlinked isProduction))
      have noRules : (graph.decl id).matchClasses = [] :=
        Decl.matchClasses_of_not_production notProduction
      rw [matchClasses_gathered unlinked, noRules]
      exact List.mergeSort_nil.symm

/-- Linking adds no rule to a production. -/
theorem mem_matchClasses_link {production rule : DeclId}
    (isRule : rule ∈ (graph.link.decl production).matchClasses) :
    rule ∈ (graph.decl production).matchClasses := by
  rwa [matchClasses_link unlinked, mem_sorted] at isRule

/-! ### Where a member has its place -/

theorem mem_offered_allOffers {target : DeclId} :
    member ∈ offered graph.allOffers target kind ↔
      ∃ modification ∈ graph.modifications, graph.Denotes (graph.name modification) target ∧
        member ∈ (graph.decl modification).members kind := by
  simp only [mem_offered, allOffers, List.mem_flatMap, mem_offersOf,
    findBlock?_sortCollections_eq_some_iff unlinked]
  rfl

theorem Denotes.unique {left right : DeclId} (isLeft : graph.Denotes name left)
    (isRight : graph.Denotes name right) : left = right := by
  rw [← findBlock?_sortCollections_eq_some_iff unlinked] at isLeft isRight
  exact Option.some.inj (isLeft.symm.trans isRight)

theorem Denotes.isBlock {target : DeclId} (denotes : graph.Denotes name target) :
    (graph.decl target).isBlock = true := by
  rw [← unlinked.mem_blocks, List.mem_append]
  cases denotes with
  | firstClass first => exact .inl first.mem
  | firstObject noClass first => exact .inr first.mem

/-- A member has its place where it was declared, or in the target of the `modify` block where it
was declared. -/
theorem mem_mergedMembers_cases (isMember : member ∈ graph.mergedMembers id kind) :
    (graph.decl member).memberKind? = some kind ∧
      ((graph.decl member).owner? = some id ∨
        ∃ modification ∈ graph.modifications,
          (graph.decl member).owner? = some modification ∧
            graph.Denotes (graph.name modification) id) := by
  rcases List.mem_append.mp isMember with own | adopted
  · have facts := unlinked.mem_members.mp own
    exact ⟨facts.2, .inl facts.1⟩
  · rcases (mem_offered_allOffers unlinked).mp (List.mem_filter.mp adopted).1
      with ⟨modification, listed, denotes, isMember⟩
    have facts := unlinked.mem_members.mp isMember
    exact ⟨facts.2, .inr ⟨modification, listed, facts.1, denotes⟩⟩

theorem isBlock_ne_modification {modification : DeclId}
    (isBlock : (graph.decl id).isBlock = true) (listed : modification ∈ graph.modifications) :
    id ≠ modification := by
  rintro rfl
  rw [Decl.isBlock_iff, unlinked.kindLabel_of_mem listed] at isBlock
  simp at isBlock

theorem exists_owner_of_mem_mergedMembers (isMember : member ∈ graph.mergedMembers id kind) :
    ∃ owner, (graph.decl member).owner? = some owner := by
  rcases mem_mergedMembers_cases unlinked isMember with ⟨_, owned | ⟨owner, _, owned, _⟩⟩
  · exact ⟨id, owned⟩
  · exact ⟨owner, owned⟩

/-- No member has a place in two classes or objects. -/
theorem home_unique {left right : DeclId} {leftKind rightKind : MemberKind}
    (leftBlock : (graph.decl left).isBlock = true)
    (rightBlock : (graph.decl right).isBlock = true)
    (isLeft : member ∈ graph.mergedMembers left leftKind)
    (isRight : member ∈ graph.mergedMembers right rightKind) :
    left = right ∧ leftKind = rightKind := by
  rcases mem_mergedMembers_cases unlinked isLeft with ⟨leftKindOf, leftHome⟩
  rcases mem_mergedMembers_cases unlinked isRight with ⟨rightKindOf, rightHome⟩
  refine ⟨?_, Option.some.inj (leftKindOf.symm.trans rightKindOf)⟩
  rcases leftHome with leftOwner | ⟨leftModification, leftListed, leftOwner, leftDenotes⟩
  · rcases rightHome with rightOwner | ⟨rightModification, rightListed, rightOwner, _⟩
    · exact Option.some.inj (leftOwner.symm.trans rightOwner)
    · have same := Option.some.inj (leftOwner.symm.trans rightOwner)
      exact absurd same (isBlock_ne_modification unlinked leftBlock rightListed)
  · rcases rightHome with rightOwner | ⟨rightModification, _, rightOwner, rightDenotes⟩
    · have same := Option.some.inj (rightOwner.symm.trans leftOwner)
      exact absurd same (isBlock_ne_modification unlinked rightBlock leftListed)
    · obtain rfl := Option.some.inj (leftOwner.symm.trans rightOwner)
      exact leftDenotes.unique unlinked rightDenotes

end Unlinked

end TadsReference.Graph
