import TadsReference.Proofs.Graph.Productions

/-!
# Members of productions

Linking gives every production the members of its rules, each of them once. Those that `modify`
blocks add to the rules are among them: `productions_of_session`.
-/

namespace TadsReference

namespace Decl

/-! ### Changes that do not matter to rules -/

theorem ruling_noted (location : Location) (id : DeclId) (decl : Decl) :
    (decl.mapMember fun details =>
      { details with
        modifiedAt := details.modifiedAt ++ [location]
        modifications := details.modifications ++ [id] }).ruling = decl.ruling := by
  rcases decl with ⟨_, _, _, kind⟩
  cases kind <;> rfl

theorem ruling_withModification (location : Location) (id : DeclId) (decl : Decl) :
    (decl.withModification location id).ruling = decl.ruling := by
  rcases decl with ⟨_, _, _, kind⟩
  cases kind <;> rfl

theorem ruling_withTarget (target : DeclId) (fileName : String) (decl : Decl) :
    (decl.withTarget target fileName).ruling = decl.ruling := by
  rcases decl with ⟨_, _, _, kind⟩
  cases kind <;> rfl

theorem BaseChange.ruling {change : Decl → Decl} (isChange : BaseChange change) (decl : Decl) :
    (change decl).ruling = decl.ruling := by
  rcases decl with ⟨_, _, _, kind⟩
  cases isChange with
  | heir heir heirIsClass => cases heirIsClass <;> cases kind <;> rfl
  | resolve resolve => cases kind <;> rfl

theorem ruling_marked (decl : Decl) : decl.marked.ruling = decl.ruling := by
  rcases decl with ⟨_, _, _, kind⟩
  cases kind <;> rfl

theorem perm_matchClasses_sortLists {sort : List DeclId → List DeclId}
    (sorts : ∀ ids, (sort ids).Perm ids) (decl : Decl) :
    (decl.sortLists sort).matchClasses.Perm decl.matchClasses := by
  rcases decl with ⟨_, _, _, kind⟩
  cases kind with
  | production details => exact sorts details.matchClasses
  | _ => exact .refl _

end Decl

namespace Graph

variable {graph before middle after : Graph} {id production rule target member : DeclId}
  {kind : MemberKind}

/-! ### Merging and resolving -/

/-- A member that is merged into a block is added to its members, or noted on the member that it
modifies. -/
theorem widens_mergeMember (graph : Graph) (kind : MemberKind) (member : DeclId)
    (isBlock : (graph.decl target).isBlock = true) :
    Widens graph (graph.mergeMember target kind member) := by
  rw [mergeMember]
  split
  · exact .modifyDecl (Decl.ruling_noted _ member) graph _
  · apply Widens.adopt
    rw [Decl.isBlock_iff] at isBlock
    rcases isBlock with label | label <;> simp [label]

namespace Widens

/-- A pass over some declarations, none of which changes what the pass needs to know. -/
theorem foldl {step : Graph → DeclId → Graph} (holds : Graph → Prop) (ids : List DeclId)
    (each : ∀ graph, ∀ id ∈ ids, holds graph → Widens graph (step graph id) ∧
      SameLists graph (step graph id) ∧ holds (step graph id)) (start : holds graph) :
    Widens graph (ids.foldl step graph) := by
  suffices kept : Widens graph (ids.foldl step graph) ∧ SameLists graph (ids.foldl step graph) ∧
      holds (ids.foldl step graph) from kept.1
  apply List.foldlRecOn (motive := fun after => Widens graph after ∧ SameLists graph after ∧
    holds after) ids step ⟨.of_decls_eq rfl, .refl graph, start⟩
  rintro middle ⟨widens, lists, holdsNow⟩ id isItem
  rcases each middle id isItem holdsNow with ⟨next, sameNext, holdsNext⟩
  exact ⟨widens.trans next (Nat.le_of_eq lists.size.symm), lists.trans sameNext, holdsNext⟩

/-- A block takes the members of a `modify` block one by one, and no rule is moved by that. -/
theorem mergeMembers (graph : Graph) (modification : DeclId)
    (isBlock : (graph.decl target).isBlock = true) :
    Widens graph (graph.mergeMembers modification target) := by
  have merges (kind : MemberKind) (merged : Graph) (ids : List DeclId)
      (isBlock : (merged.decl target).isBlock = true) :
      Widens merged (ids.foldl (·.mergeMember target kind ·) merged) := by
    apply foldl (fun graph => (graph.decl target).isBlock = true) ids _ isBlock
    intro graph member _ isBlock
    have head := keeps_mergeMember (fun _ isOffer => isOffer.head) graph target kind member
    exact ⟨widens_mergeMember graph kind member isBlock,
      sameLists_mergeMember graph target kind member, (head.isBlock target).trans isBlock⟩
  have methods := merges .method graph ((graph.decl modification).members .method) isBlock
  have lists := SameLists.foldl (sameLists_mergeMember · target .method ·) graph
    ((graph.decl modification).members .method)
  have head := Keeps.foldl (fun merged member => keeps_mergeMember (fun _ isOffer => isOffer.head)
    merged target .method member) graph ((graph.decl modification).members .method)
  rw [← head.isBlock] at isBlock
  exact methods.trans (merges .property _ _ isBlock) (Nat.le_of_eq lists.size.symm)

/-- Merging a `modify` block widens the members of its target, and notes of the block itself which
target that is. -/
theorem mergeModification (complete : graph.Complete) (modification : DeclId) :
    Widens graph (graph.mergeModification modification) := by
  rw [Graph.mergeModification]
  split
  · exact .of_decls_eq rfl
  · next target found =>
      have members := mergeMembers graph modification (fits_of_findBlock? complete found).fits
      have lists := sameLists_mergeMembers graph modification target
      have noted : Widens (graph.mergeMembers modification target) _ :=
        .modifyDecl (Decl.ruling_withModification (graph.decl modification).location modification)
          _ target
      have notedLists := lists.trans (SameLists.modifyDecl _ target (Decl.withModification
        (graph.decl modification).location modification))
      exact (members.trans noted (Nat.le_of_eq lists.size.symm)).trans
        (.modifyDecl (Decl.ruling_withTarget target _) _ modification)
          (Nat.le_of_eq notedLists.size.symm)

theorem mergeModifications (complete : graph.Complete) :
    Widens graph graph.mergeModifications := by
  apply foldl Complete graph.modifications _ complete
  intro middle modification _ complete
  exact ⟨mergeModification complete modification, sameLists_mergeModification middle modification,
    (retouched_mergeModification middle modification).complete complete⟩

theorem linkAllBases (graph : Graph) : Widens graph graph.linkAllBases :=
  of_keeps (keeps_linkAllBases (fun _ isChange => isChange.ruling) graph)

end Widens

/-! ### Gathering -/

/-- A production shows all members of its rules. -/
def Collects (graph : Graph) (production : DeclId) : Prop :=
  ∀ kind, ∀ rule ∈ (graph.decl production).matchClasses,
    ∀ member ∈ (graph.decl rule).members kind, member ∈ (graph.decl production).members kind

theorem nodup_foldl_insertOnce {ids more : List DeclId} (nodup : ids.Nodup) :
    (more.foldl insertOnce ids).Nodup := by
  induction more generalizing ids with
  | nil => exact nodup
  | cons id more ih => exact ih (nodup_insertOnce nodup id)

/-- What a production shows once it has gathered the members of its rules. -/
theorem members_gatherProduction (graph : Graph) (production id : DeclId) (kind : MemberKind) :
    ((graph.gatherProduction production).decl id).members kind =
      if id = production ∧ (graph.decl id).kindLabel = "grammar" then
        ((graph.decl id).matchClasses.flatMap fun rule => (graph.decl rule).members kind).foldl
          insertOnce ((graph.decl id).members kind)
      else (graph.decl id).members kind := by
  rw [gatherProduction, decl_modifyDecl rfl]
  by_cases here : id = production
  · rw [if_pos here]
    rcases graph.decl id with ⟨_, _, _, shape⟩
    cases shape <;> cases kind <;>
      simp [here, Decl.kindLabel, Decl.mapProduction, Decl.members, Decl.body?, Body.members,
        Decl.matchClasses, gatheredMembers]
  · simp [here]

theorem keeps_skeleton_gatherProduction (graph : Graph) (production : DeclId) :
    Keeps Decl.skeleton graph (graph.gatherProduction production) :=
  keeps_gatherProduction (fun change decl => Decl.skeleton_mapProduction decl change) graph _

theorem keeps_matchClasses_gatherProduction (graph : Graph) (production : DeclId) :
    Keeps Decl.matchClasses graph (graph.gatherProduction production) := by
  apply Keeps.modifyDecl
  rintro ⟨_, _, _, shape⟩
  cases shape <;> rfl

namespace Ruled

/-- Rules are no productions, so that they keep their members. -/
theorem members_of_rule (ruled : graph.Ruled) (isRule : rule ∈ (graph.decl id).matchClasses)
    (production : DeclId) (kind : MemberKind) :
    ((graph.gatherProduction production).decl rule).members kind =
      (graph.decl rule).members kind := by
  have isClass := Decl.kindLabel_of_production? (ruled.mem_matchClasses.mp isRule)
  simp [members_gatherProduction, isClass]

/-- A production that gathers the members of its rules keeps every rule where it is. Each member is
inserted once, so none is listed twice, and it still belongs to one of the rules. -/
theorem gatherProduction (ruled : graph.Ruled) (production : DeclId) :
    (graph.gatherProduction production).Ruled := by
  have skeleton := keeps_skeleton_gatherProduction graph production
  have matchClasses := keeps_matchClasses_gatherProduction graph production
  have head : Keeps Decl.head graph (graph.gatherProduction production) :=
    fun id => Decl.head_eq_of_skeleton_eq (skeleton id)
  have rules (id : DeclId) : ((graph.gatherProduction production).decl id).production? =
      (graph.decl id).production? :=
    Decl.production?_eq_of_skeleton_eq (skeleton id)
  constructor
  · simpa only [head.kindLabel, head.name] using ruled.distinct
  · simpa only [rules, head.kindLabel, head.name] using ruled.production
  · intro rule production
    rw [matchClasses, rules]
    exact ruled.count rule production
  · intro id kind isProduction
    rw [head.kindLabel] at isProduction
    have nodup := ruled.nodup id kind isProduction
    rw [members_gatherProduction]
    split
    · exact nodup_foldl_insertOnce nodup
    · exact nodup
  · intro id kind isProduction member isMember
    rw [head.kindLabel] at isProduction
    rw [matchClasses]
    have old : member ∈ (graph.decl id).members kind ∨ ∃ rule ∈ (graph.decl id).matchClasses,
        member ∈ (graph.decl rule).members kind := by
      rw [members_gatherProduction] at isMember
      split at isMember
      · simpa only [mem_foldl_insertOnce, List.mem_flatMap] using isMember
      · exact .inl isMember
    have ofRule : ∃ rule ∈ (graph.decl id).matchClasses,
        member ∈ (graph.decl rule).members kind :=
      old.elim (ruled.shared id kind isProduction member) (·)
    rcases ofRule with ⟨rule, isRule, isMember⟩
    refine ⟨rule, isRule, ?_⟩
    rwa [ruled.members_of_rule isRule]

/-- What a production has gathered are all members of its rules, since a rule is no production and
keeps its members meanwhile. -/
theorem collects_gatherProduction (ruled : graph.Ruled)
    (isProduction : (graph.decl production).kindLabel = "grammar") :
    (graph.gatherProduction production).Collects production := by
  intro kind rule isRule member isMember
  rw [keeps_matchClasses_gatherProduction] at isRule
  rw [ruled.members_of_rule isRule] at isMember
  rw [members_gatherProduction, if_pos ⟨rfl, isProduction⟩, mem_foldl_insertOnce]
  exact .inr (List.mem_flatMap.mpr ⟨rule, isRule, isMember⟩)

/-- What a production shows stays when another one gathers members. -/
theorem still_collects (ruled : graph.Ruled) (collects : graph.Collects id)
    (production : DeclId) : (graph.gatherProduction production).Collects id := by
  intro kind rule isRule member isMember
  rw [keeps_matchClasses_gatherProduction] at isRule
  rw [ruled.members_of_rule isRule] at isMember
  have old := collects kind rule isRule member isMember
  rw [members_gatherProduction]
  split
  · exact mem_foldl_insertOnce.mpr (.inl old)
  · exact old

/-- All productions of a list gather the members of their rules. -/
theorem foldl_gatherProduction (ruled : graph.Ruled) (ids : List DeclId)
    (labels : ∀ id ∈ ids, (graph.decl id).kindLabel = "grammar") :
    (ids.foldl Graph.gatherProduction graph).Ruled ∧
      ∀ id, id ∈ ids ∨ graph.Collects id →
        (ids.foldl Graph.gatherProduction graph).Collects id := by
  induction ids generalizing graph with
  | nil => exact ⟨ruled, fun id given => given.resolve_left List.not_mem_nil⟩
  | cons production ids ih =>
      have head : Keeps Decl.head graph (graph.gatherProduction production) :=
        fun id => Decl.head_eq_of_skeleton_eq (keeps_skeleton_gatherProduction graph production id)
      have isProduction := labels production List.mem_cons_self
      rcases ih (ruled.gatherProduction production) fun id isItem => by
          rw [head.kindLabel]
          exact labels id (List.mem_cons_of_mem _ isItem)
        with ⟨ruledLater, collects⟩
      refine ⟨ruledLater, fun id given => collects id ?_⟩
      rcases given with isItem | already
      · rcases List.mem_cons.mp isItem with rfl | isLater
        · exact .inr (ruled.collects_gatherProduction isProduction)
        · exact .inl isLater
      · exact .inr (ruled.still_collects already production)

end Ruled

/-! ### Sorting -/

/-- The rules and the members of declarations are put into another order. -/
structure Resorted (before after : Graph) : Prop where
  skeleton : Keeps Decl.skeleton before after
  matchClasses : ∀ id, (after.decl id).matchClasses.Perm (before.decl id).matchClasses
  members : ∀ id kind, ((after.decl id).members kind).Perm ((before.decl id).members kind)

/-- A step that leaves rules and members alone may follow one that puts them in another order. -/
theorem Resorted.trans_ruling (resorted : Resorted before middle)
    (kept : Keeps Decl.ruling middle after) : Resorted before after where
  skeleton := resorted.skeleton.trans (kept.comp (·.1))
  matchClasses id := by
    have same : (after.decl id).matchClasses = (middle.decl id).matchClasses :=
      kept.comp (·.2.1) id
    rw [same]
    exact resorted.matchClasses id
  members id kind := by
    have same : (after.decl id).members kind = (middle.decl id).members kind :=
      kept.comp (fun ruling => ruling.2.2 kind) id
    rw [same]
    exact resorted.members id kind

/-- Sorting what blocks and productions hold only puts it in another order. -/
theorem resorted_sortHolders (graph : Graph) : Resorted graph graph.sortHolders where
  skeleton := keeps_sortHolders (fun sort decl => Decl.skeleton_sortLists decl sort) graph
  matchClasses id := by
    rw [decl_sortHolders]
    split
    · exact Decl.perm_matchClasses_sortLists graph.perm_sorted _
    · exact .refl _
  members id kind := by
    rw [decl_sortHolders]
    split
    · rw [members_sortLists List.mergeSort_nil]
      exact graph.perm_sorted _
    · exact .refl _

theorem resorted_link (graph : Graph) : Resorted graph.gathered graph.link := by
  have finished : Keeps Decl.ruling graph.gathered.sortHolders graph.link := by
    apply (keeps_finishFiles _).trans
    exact (keeps_markOverrides Decl.ruling_marked _).trans (keeps_finishEnums _)
  exact (resorted_sortHolders graph.gathered).trans_ruling finished

/-- Where rules stand does not depend on the order in which a production lists them. -/
theorem Ruled.resort (ruled : before.Ruled) (resorted : Resorted before after) : after.Ruled := by
  have head : Keeps Decl.head before after :=
    fun id => Decl.head_eq_of_skeleton_eq (resorted.skeleton id)
  have rules (id : DeclId) : (after.decl id).production? = (before.decl id).production? :=
    Decl.production?_eq_of_skeleton_eq (resorted.skeleton id)
  constructor
  · simpa only [head.kindLabel, head.name] using ruled.distinct
  · simpa only [rules, head.kindLabel, head.name] using ruled.production
  · intro rule production
    rw [(resorted.matchClasses production).count_eq, rules]
    exact ruled.count rule production
  · intro production kind isProduction
    rw [head.kindLabel] at isProduction
    rw [(resorted.members production kind).nodup_iff]
    exact ruled.nodup production kind isProduction
  · intro production kind isProduction
    rw [head.kindLabel] at isProduction
    simpa only [(resorted.matchClasses production).mem_iff,
      (resorted.members _ kind).mem_iff] using ruled.shared production kind isProduction

theorem Collects.resort (collects : before.Collects production)
    (resorted : Resorted before after) : after.Collects production := by
  simpa only [Collects, (resorted.matchClasses _).mem_iff,
    (resorted.members _ _).mem_iff] using collects

/-- Linking keeps rules where they are, and every production gathers the members of its rules.
Merging is over when productions gather, so members of `modify` blocks have become members of the
rules by then. -/
theorem Ruled.link (ruled : graph.Ruled) (complete : graph.Complete) :
    graph.link.Ruled ∧ ∀ production, (graph.link.decl production).kindLabel = "grammar" →
      graph.link.Collects production := by
  have sorted : Widens graph graph.sortCollections := .of_decls_eq rfl
  have merged := (ruled.widen sorted).widen (.mergeModifications complete.sortCollections)
  have resolved := merged.widen (.linkAllBases _)
  have head : Keeps Decl.head graph graph.sortCollections.mergeModifications.linkAllBases :=
    (keeps_mergeModifications (fun _ isChange => isChange.head) graph.sortCollections).trans
      (keeps_linkAllBases (fun _ isChange => isChange.head) _)
  have lists := (sameLists_mergeModifications graph.sortCollections).trans
    (sameLists_linkAllBases _)
  have mem_productions (production : DeclId) :
      production ∈ graph.sortCollections.mergeModifications.linkAllBases.productions ↔
        production < graph.decls.size ∧ (graph.decl production).kindLabel = "grammar" := by
    have same := lists.listed .productions
    simp only [listed] at same
    rw [same]
    exact complete.sortCollections.mem_iff .productions production
  rcases resolved.foldl_gatherProduction _ fun production isListed => by
      rw [head.kindLabel]
      exact ((mem_productions production).mp isListed).2
    with ⟨gathered, collects⟩
  refine ⟨gathered.resort (resorted_link graph), fun production isProduction => ?_⟩
  rw [(keeps_head_link graph).kindLabel] at isProduction
  apply Collects.resort _ (resorted_link graph)
  exact collects production (.inl ((mem_productions production).mpr
    ⟨inside_of_isProduction isProduction, isProduction⟩))

/-! ### Sessions -/

/-- Each step of a session keeps rules where they are, by induction on the session. -/
theorem ruled_run (files : List SourceFile) (steps : List SessionStep) :
    ((ofFiles files).run steps).Ruled := by
  have start : (ofFiles files).Complete ∧ (ofFiles files).Ruled :=
    ⟨complete_ofFiles files, .of_ofFiles files⟩
  refine (List.foldlRecOn (motive := fun graph : Graph => graph.Complete ∧ graph.Ruled) steps
    perform start ?_).2
  rintro graph ⟨complete, ruled⟩ step _
  cases step with
  | read reading => exact ⟨complete.read reading, ruled.read complete reading⟩
  | link => exact ⟨complete.link, (ruled.link complete).1⟩

/-- Every production shows the members of its rules, each of them once. -/
def Gathers (graph : Graph) : Prop :=
  ∀ production, (graph.decl production).kindLabel = "grammar" → ∀ kind,
    ((graph.decl production).members kind).Nodup ∧
      ∀ member, member ∈ (graph.decl production).members kind ↔
        ∃ rule ∈ (graph.decl production).matchClasses, member ∈ (graph.decl rule).members kind

/-- Whatever is read and linked, in whatever order, there is one production of each name, and a rule
stands once in the list of its production. After a session that ends with linking, every production
shows the members of its rules. -/
theorem productions_of_session (files : List SourceFile) (steps : List SessionStep) :
    ((ofFiles files).run steps).Ruled ∧ ((ofFiles files).run steps).link.Gathers := by
  have ruled := ruled_run files steps
  refine ⟨ruled, ?_⟩
  rcases ruled.link (complete_run files steps) with ⟨linked, collects⟩
  intro production isProduction kind
  refine ⟨linked.nodup production kind isProduction, fun member => ⟨?_, ?_⟩⟩
  · exact linked.shared production kind isProduction member
  · rintro ⟨rule, isRule, isMember⟩
    exact collects production isProduction kind rule isRule member isMember

end Graph

end TadsReference
