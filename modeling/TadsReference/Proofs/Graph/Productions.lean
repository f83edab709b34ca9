import TadsReference.Proofs.Graph.References

/-!
# Productions and their rules

There is one production of each name. A class that is a grammar rule stands once in the list of the
production that its name calls for, and such lists hold nothing else. Reading keeps it so:
`Ruled.read`.
-/

namespace TadsReference

namespace Decl

/-- What matters of a declaration to the rules of productions: what is written of it, its rules and
its members. -/
def ruling (decl : Decl) : Decl × List DeclId × (MemberKind → List DeclId) :=
  (decl.skeleton, decl.matchClasses, decl.members)

theorem matchClasses_withRule {decl : Decl} (isProduction : decl.kindLabel = "grammar")
    (rule : DeclId) : (decl.withRule rule).matchClasses = decl.matchClasses ++ [rule] := by
  rcases decl with ⟨_, _, _, kind⟩
  cases kind <;> simp_all [kindLabel, withRule, mapProduction, matchClasses]

/-- The members that a declaration has stay when one is added. -/
theorem mem_members_addMember {decl : Decl} {kind other : MemberKind} {id member : DeclId}
    (isMember : member ∈ decl.members other) :
    member ∈ (decl.mapBody (·.addMember kind id)).members other := by
  rcases decl with ⟨_, _, _, shape⟩
  cases shape <;> cases kind <;> cases other <;>
    simp_all [members, body?, mapBody, mapBlock, Body.addMember, Body.setMembers, Body.members]

end Decl

namespace Graph

variable {graph before middle after : Graph} {id production rule target member : DeclId}
  {kind : MemberKind} {name : String} {location : Location}

/-- How productions and grammar rules stand, whatever has been read and linked. -/
structure Ruled (graph : Graph) : Prop where
  distinct : ∀ left right, (graph.decl left).kindLabel = "grammar" →
    (graph.decl right).kindLabel = "grammar" → graph.name left = graph.name right → left = right
  production : ∀ rule production, (graph.decl rule).production? = some production →
    (graph.decl production).kindLabel = "grammar" ∧
      graph.name production = productionName (graph.name rule)
  count : ∀ rule production, (graph.decl production).matchClasses.count rule =
    if (graph.decl rule).production? = some production then 1 else 0
  nodup : ∀ production kind, (graph.decl production).kindLabel = "grammar" →
    ((graph.decl production).members kind).Nodup
  shared : ∀ production kind, (graph.decl production).kindLabel = "grammar" →
    ∀ member ∈ (graph.decl production).members kind,
      ∃ rule ∈ (graph.decl production).matchClasses, member ∈ (graph.decl rule).members kind

theorem Ruled.mem_matchClasses (ruled : graph.Ruled) :
    rule ∈ (graph.decl production).matchClasses ↔
      (graph.decl rule).production? = some production := by
  rw [← List.count_pos_iff, ruled.count]
  split <;> simp_all

/-! ### Changes that leave rules alone -/

/-- A graph grows by declarations that are neither productions nor rules, and by members of blocks
that are no productions. -/
structure Widens (before after : Graph) : Prop where
  head : ∀ id < before.decls.size, (after.decl id).head = (before.decl id).head
  fresh : ∀ id, before.decls.size ≤ id → (after.decl id).kindLabel ≠ "grammar"
  rules : Keeps Decl.production? before after
  matchClasses : Keeps Decl.matchClasses before after
  productions : ∀ id kind, (before.decl id).kindLabel = "grammar" →
    (after.decl id).members kind = (before.decl id).members kind
  members : ∀ id kind, ∀ member ∈ (before.decl id).members kind,
    member ∈ (after.decl id).members kind

namespace Widens

/-- A change that leaves alone what matters to rules does not widen anything. -/
theorem of_keeps (kept : Keeps Decl.ruling before after) : Widens before after := by
  have skeleton : Keeps Decl.skeleton before after := kept.comp (·.1)
  have head : Keeps Decl.head before after := fun id => Decl.head_eq_of_skeleton_eq (skeleton id)
  have members (id : DeclId) (kind : MemberKind) :
      (after.decl id).members kind = (before.decl id).members kind :=
    kept.comp (fun ruling => ruling.2.2 kind) id
  constructor
  · exact fun id _ => head id
  · intro id outside
    rw [head.kindLabel, decl_of_size_le outside]
    decide
  · exact fun id => Decl.production?_eq_of_skeleton_eq (skeleton id)
  · exact kept.comp (·.2.1)
  · exact fun id kind _ => members id kind
  · intro id kind member isMember
    rwa [members]

theorem of_decls_eq (decls : after.decls = before.decls) : Widens before after := by
  apply of_keeps
  intro id
  rw [decl_of_decls_eq decls]

theorem modifyDecl {change : Decl → Decl} (unchanged : ∀ decl, (change decl).ruling = decl.ruling)
    (graph : Graph) (id : DeclId) : Widens graph (graph.modifyDecl id change) :=
  of_keeps (Keeps.modifyDecl unchanged graph id)

/-- What is new has nothing to do with productions, and what is old stays as it is. What is asked of
a declaration is asked of an old number and of a new one apart, since behind the old ones there was
only the default before. -/
theorem of_fresh (old : ∀ id < before.decls.size, after.decl id = before.decl id)
    (fresh : ∀ id, before.decls.size ≤ id → (after.decl id).kindLabel ≠ "grammar" ∧
      (after.decl id).production? = none ∧ (after.decl id).matchClasses = []) :
    Widens before after where
  head id inside := by rw [old id inside]
  fresh id outside := (fresh id outside).1
  rules id := by
    rcases Nat.lt_or_ge id before.decls.size with inside | outside
    · rw [old id inside]
    · rw [(fresh id outside).2.1, decl_of_size_le outside]
      rfl
  matchClasses id := by
    rcases Nat.lt_or_ge id before.decls.size with inside | outside
    · rw [old id inside]
    · rw [(fresh id outside).2.2, decl_of_size_le outside]
      rfl
  productions id kind isProduction := by
    rw [old id (inside_of_isProduction isProduction)]
  members id kind member isMember := by
    rcases Nat.lt_or_ge id before.decls.size with inside | outside
    · rwa [old id inside]
    · rw [decl_of_size_le outside] at isMember
      cases kind <;> exact absurd isMember List.not_mem_nil

/-- A declaration that is neither a production nor a rule may be added behind the others. -/
theorem push {decl : Decl} (decls : after.decls = before.decls.push decl)
    (notProduction : decl.kindLabel ≠ "grammar") (notRule : decl.production? = none)
    (matchClasses : decl.matchClasses = []) : Widens before after := by
  apply of_fresh
  · intro id inside
    have other : id ≠ before.nextId := Nat.ne_of_lt inside
    rw [decl_of_push decls, if_neg other]
  · intro id outside
    rw [decl_of_push decls]
    split
    · exact ⟨notProduction, notRule, matchClasses⟩
    · rw [decl_of_size_le outside]
      exact ⟨by decide, rfl, rfl⟩

/-- The constants of a group are neither productions nor rules, and nobody has them as members. -/
theorem recordEnum (graph : Graph) (index : Nat) (description : String) (location : Location)
    (names : List String) :
    Widens graph (graph.recordEnum index description location names) := by
  apply of_fresh
  · intro id inside
    exact decl_recordEnum_of_lt graph index description location names inside
  · intro id outside
    rcases Nat.lt_or_ge id (graph.recordEnum index description location names).decls.size
      with isNew | beyond
    · rcases exists_decl_recordEnum graph index description location names outside isNew
        with ⟨name, shape⟩
      rw [shape]
      exact ⟨by simp [Decl.kindLabel], rfl, rfl⟩
    · rw [decl_of_size_le beyond]
      exact ⟨by decide, rfl, rfl⟩

/-- What is added first may come by members in the second step, so it has to be a declaration that
both know. -/
theorem trans (first : Widens before middle) (second : Widens middle after)
    (size : before.decls.size ≤ middle.decls.size) : Widens before after where
  head id inside :=
    (second.head id (Nat.lt_of_lt_of_le inside size)).trans (first.head id inside)
  fresh id outside := by
    by_cases inside : id < middle.decls.size
    · have label : (after.decl id).kindLabel = (middle.decl id).kindLabel :=
        congrArg (·.2.2.2) (second.head id inside)
      rw [label]
      exact first.fresh id outside
    · exact second.fresh id (Nat.le_of_not_lt inside)
  rules := first.rules.trans second.rules
  matchClasses := first.matchClasses.trans second.matchClasses
  productions id kind isProduction := by
    have label : (middle.decl id).kindLabel = (before.decl id).kindLabel :=
      congrArg (·.2.2.2) (first.head id (inside_of_isProduction isProduction))
    rw [second.productions id kind (label.trans isProduction),
      first.productions id kind isProduction]
  members id kind member isMember :=
    second.members id kind member (first.members id kind member isMember)

/-- A member is added to a declaration that is no production. The lists of all others are as they
were, and its own has one more member at the end. -/
theorem adopt (graph : Graph) (kind : MemberKind) (member : DeclId)
    (notProduction : (graph.decl target).kindLabel ≠ "grammar") :
    Widens graph
      (graph.modifyDecl target fun holder => holder.mapBody (·.addMember kind member)) := by
  have head := Keeps.modifyDecl (fun holder => Decl.head_mapBody holder (·.addMember kind member))
    graph target
  constructor
  · exact fun id _ => head id
  · intro id outside
    rw [head.kindLabel, decl_of_size_le outside]
    decide
  · apply Keeps.modifyDecl
    rintro ⟨_, _, _, shape⟩
    cases shape <;> rfl
  · exact Keeps.modifyDecl (fun holder => Decl.matchClasses_mapBody holder _) graph target
  · intro id other isProduction
    rw [decl_modifyDecl rfl, if_neg]
    rintro rfl
    exact notProduction isProduction
  · intro id other old isMember
    rw [decl_modifyDecl rfl]
    split
    · exact Decl.mem_members_addMember isMember
    · exact isMember

/-- A member is added, and the block that takes it, which is no production. -/
theorem addMember {owner : DeclId} {decl : Decl} (owned : decl.owner? = some owner)
    (takes : (graph.decl owner).takesMembers = true) :
    Widens graph (graph.addMember owner kind decl) := by
  have ownerLt : owner < graph.nextId := lt_size_of_view rfl takes
  have pushed : Widens graph (graph.addDecl decl) := by
    apply Widens.push rfl
    · exact Unlinked.label_ne_of_owner? owned .productions
    · rcases decl with ⟨_, _, _, shape⟩
      cases shape <;> first | rfl | contradiction
    · exact Unlinked.matchClasses_of_owner? owned
  refine pushed.trans (.adopt _ kind _ ?_) (by simp [addDecl])
  rw [decl_of_push rfl, if_neg (Nat.ne_of_lt ownerLt)]
  rintro isProduction
  rw [Decl.takesMembers, Bool.or_eq_true, Decl.isBlock_iff, isProduction] at takes
  simp at takes

end Widens

/-- A class is added that joins a production. -/
structure RuleAdded (decl : Decl) (production : DeclId) (before after : Graph) : Prop where
  head : ∀ id, (after.decl id).head =
    if id = before.nextId then decl.head else (before.decl id).head
  rules : ∀ id, (after.decl id).production? =
    if id = before.nextId then some production else (before.decl id).production?
  matchClasses : ∀ id, (after.decl id).matchClasses =
    (before.decl id).matchClasses ++ if id = production then [before.nextId] else []
  members : ∀ id kind, (after.decl id).members kind = (before.decl id).members kind

/-- A class that is a rule is added and noted on its production at once, so the two agree at any
time between two steps. -/
theorem ruleAdded_of_push {decl : Decl} (bare : decl.Bare)
    (isRule : decl.production? = some production)
    (isProduction : (before.decl production).kindLabel = "grammar")
    (decls : middle.decls = before.decls.push decl) :
    RuleAdded decl production before
      (middle.modifyDecl production (Decl.withRule before.nextId)) where
  head id := by
    rw [Keeps.modifyDecl (Decl.head_withRule _) middle production id, decl_of_push decls]
    split <;> rfl
  rules id := by
    have kept : Keeps Decl.production? middle
        (middle.modifyDecl production (Decl.withRule before.nextId)) :=
      Keeps.modifyDecl (fun decl => Decl.production?_eq_of_skeleton_eq
        (Decl.skeleton_withRule decl _)) middle production
    rw [kept, decl_of_push decls, ← isRule]
    split <;> rfl
  matchClasses id := by
    rw [decl_modifyDecl rfl, decl_of_push decls]
    by_cases here : id = production
    · have inside : production ≠ before.nextId := Nat.ne_of_lt (inside_of_isProduction isProduction)
      rw [if_pos here, here, if_neg inside, Decl.matchClasses_withRule isProduction]
      simp
    · rw [if_neg here, if_neg here, List.append_nil]
      split
      · next isNew =>
          rw [bare.matchClasses, isNew, decl_nextId]
          rfl
      · rfl
  members id kind := by
    have kept : Keeps (Decl.members · kind) middle
        (middle.modifyDecl production (Decl.withRule before.nextId)) :=
      Keeps.modifyDecl (fun decl => Decl.members_withRule _ decl kind) middle production
    refine (kept id).trans ?_
    simp only [decl_of_push decls]
    split
    · next isNew =>
        rw [bare.members, isNew, decl_nextId]
        cases kind <;> rfl
    · rfl

namespace Ruled

/-- Growing by what has nothing to do with rules keeps productions and rules as they stand. What is
new is not listed as a rule anywhere, and it lists no rules itself. -/
theorem widen (ruled : before.Ruled) (widens : Widens before after) : after.Ruled := by
  have inside {id : DeclId} (isProduction : (after.decl id).kindLabel = "grammar") :
      id < before.decls.size :=
    Nat.lt_of_not_le fun outside => widens.fresh id outside isProduction
  have insideRule {rule production : DeclId}
      (isRule : (before.decl rule).production? = some production) : rule < before.decls.size := by
    apply lt_size_of_decl_ne
    intro blank
    rw [blank] at isRule
    contradiction
  have label {id : DeclId} (isProduction : (after.decl id).kindLabel = "grammar") :
      (before.decl id).kindLabel = "grammar" :=
    (congrArg (·.2.2.2) (widens.head id (inside isProduction))).symm.trans isProduction
  have named {id : DeclId} (isOld : id < before.decls.size) : after.name id = before.name id :=
    congrArg (·.1) (widens.head id isOld)
  constructor
  · intro left right isLeft isRight same
    rw [named (inside isLeft), named (inside isRight)] at same
    exact ruled.distinct left right (label isLeft) (label isRight) same
  · intro rule production isRule
    rw [widens.rules] at isRule
    rcases ruled.production rule production isRule with ⟨isProduction, name⟩
    have isOld := inside_of_isProduction isProduction
    rw [named isOld, named (insideRule isRule)]
    exact ⟨(congrArg (·.2.2.2) (widens.head production isOld)).trans isProduction, name⟩
  · intro rule production
    rw [widens.rules, widens.matchClasses]
    exact ruled.count rule production
  · intro production kind isProduction
    rw [widens.productions production kind (label isProduction)]
    exact ruled.nodup production kind (label isProduction)
  · intro production kind isProduction member isMember
    rw [widens.productions production kind (label isProduction)] at isMember
    rw [widens.matchClasses]
    rcases ruled.shared production kind (label isProduction) member isMember
      with ⟨rule, isRule, isMember⟩
    exact ⟨rule, isRule, widens.members rule kind member isMember⟩

/-- A production of a new name. No rule names it yet, so only the names of the productions have to
be told apart again. -/
theorem addProduction (ruled : before.Ruled) {decl : Decl} (bare : decl.Bare)
    (isProduction : decl.kindLabel = "grammar") (decls : after.decls = before.decls.push decl)
    (fresh : ∀ id, (before.decl id).kindLabel = "grammar" → before.name id ≠ decl.name) :
    after.Ruled := by
  have newest := decl_newest_of_push decls
  have old {id : DeclId} (other : id ≠ before.nextId) : after.decl id = before.decl id := by
    rw [decl_of_push decls, if_neg other]
  have notRule : decl.production? = none := by
    rcases decl with ⟨_, _, _, shape⟩
    cases shape <;> simp_all [Decl.kindLabel, Decl.production?, Decl.class?]
  have rules : Keeps Decl.production? before after := by
    intro id
    by_cases isNew : id = before.nextId
    · rw [isNew, newest, notRule, decl_nextId]
      rfl
    · rw [old isNew]
  have label {id : DeclId} (isNamed : (after.decl id).kindLabel = "grammar")
      (isOld : id ≠ before.nextId) : (before.decl id).kindLabel = "grammar" := by
    rwa [old isOld] at isNamed
  constructor
  · intro left right isLeft isRight same
    by_cases newLeft : left = before.nextId <;> by_cases newRight : right = before.nextId
    · rw [newLeft, newRight]
    · simp only [name, newLeft, newest, old newRight] at same
      exact absurd same.symm (fresh right (label isRight newRight))
    · simp only [name, newRight, newest, old newLeft] at same
      exact absurd same (fresh left (label isLeft newLeft))
    · simp only [name, old newLeft, old newRight] at same
      exact ruled.distinct left right (label isLeft newLeft) (label isRight newRight) same
  · intro rule production isRule
    rw [rules] at isRule
    have isOld : rule ≠ before.nextId := by
      rintro rfl
      rw [decl_nextId] at isRule
      contradiction
    rcases ruled.production rule production isRule with ⟨isProduction, named⟩
    have isInside := Nat.ne_of_lt (inside_of_isProduction isProduction)
    simp only [name, old isOld, old isInside]
    exact ⟨isProduction, named⟩
  · intro rule production
    rw [rules, ← ruled.count]
    by_cases isNew : production = before.nextId
    · simp only [isNew, newest, bare.matchClasses, decl_nextId]
      rfl
    · rw [old isNew]
  · intro production kind isProduction
    by_cases isNew : production = before.nextId
    · simp only [isNew, newest, bare.members, List.nodup_nil]
    · rw [old isNew]
      exact ruled.nodup production kind (label isProduction isNew)
  · intro production kind isProduction member isMember
    by_cases isNew : production = before.nextId
    · simp only [isNew, newest, bare.members, List.not_mem_nil] at isMember
    · rw [old isNew] at isMember ⊢
      rcases ruled.shared production kind (label isProduction isNew) member isMember
        with ⟨rule, isRule, isMember⟩
      refine ⟨rule, isRule, ?_⟩
      rw [old]
      · exact isMember
      · rintro rfl
        rw [ruled.mem_matchClasses, decl_nextId] at isRule
        contradiction

/-- A rule is added that joins its production. The rule is the newest declaration and has no members
so far, so what the production has gathered is still right. -/
theorem addRule (ruled : before.Ruled) {decl : Decl}
    (added : RuleAdded decl production before after)
    (isClass : decl.kindLabel = "class")
    (isProduction : (before.decl production).kindLabel = "grammar")
    (named : before.name production = productionName decl.name) : after.Ruled := by
  have label {id : DeclId} (isProduction : (after.decl id).kindLabel = "grammar") :
      id ≠ before.nextId ∧ (before.decl id).kindLabel = "grammar" := by
    have same := congrArg (·.2.2.2) (added.head id)
    split at same
    · exact absurd (isClass.symm.trans (same.symm.trans isProduction)) (by decide)
    · next isOld => exact ⟨isOld, same.symm.trans isProduction⟩
  have old {id : DeclId} (isOld : id ≠ before.nextId) :
      (after.decl id).head = (before.decl id).head := by
    rw [added.head, if_neg isOld]
  constructor
  · intro left right isLeft isRight same
    have sameName : before.name left = before.name right := by
      have leftName : after.name left = before.name left := congrArg (·.1) (old (label isLeft).1)
      have rightName : after.name right = before.name right :=
        congrArg (·.1) (old (label isRight).1)
      rw [← leftName, ← rightName, same]
    exact ruled.distinct left right (label isLeft).2 (label isRight).2 sameName
  · intro rule other isRule
    rw [added.rules] at isRule
    split at isRule
    · next isNew =>
        obtain rfl : production = other := Option.some.inj isRule
        have isOld := old (Nat.ne_of_lt (inside_of_isProduction isProduction))
        have newName : after.name rule = decl.name := by
          have head := added.head rule
          rw [if_pos isNew] at head
          exact congrArg (·.1) head
        refine ⟨(congrArg (·.2.2.2) isOld).trans isProduction, ?_⟩
        rw [newName]
        exact (congrArg (·.1) isOld).trans named
    · next isOldRule =>
        rcases ruled.production rule other isRule with ⟨isProduction, named⟩
        have isOld := old (Nat.ne_of_lt (inside_of_isProduction isProduction))
        have sameName : after.name rule = before.name rule := congrArg (·.1) (old isOldRule)
        refine ⟨(congrArg (·.2.2.2) isOld).trans isProduction, ?_⟩
        rw [sameName]
        exact (congrArg (·.1) isOld).trans named
  · intro rule other
    rw [added.rules, added.matchClasses, List.count_append, ruled.count]
    by_cases isNew : rule = before.nextId
    · have blank : (before.decl before.nextId).production? = none := by
        rw [decl_nextId]
        rfl
      by_cases here : other = production
      · simp [isNew, blank, here]
      · simp [isNew, blank, here, Ne.symm here]
    · by_cases here : other = production <;> simp [isNew, Ne.symm isNew, here]
  · intro other kind isOther
    rw [added.members]
    exact ruled.nodup other kind (label isOther).2
  · intro other kind isOther member isMember
    rw [added.members] at isMember
    rcases ruled.shared other kind (label isOther).2 member isMember with ⟨rule, isRule, ofRule⟩
    refine ⟨rule, ?_, ?_⟩
    · rw [added.matchClasses]
      exact List.mem_append_left _ isRule
    · rwa [added.members]

end Ruled

/-! ### Recording -/

namespace Ruled

/-- A graph without declarations has neither productions nor rules. All numbers stand for the
default declaration, which is neither. -/
theorem of_ofFiles (files : List SourceFile) : (ofFiles files).Ruled := by
  have blank (id : DeclId) : (ofFiles files).decl id = default := decl_of_size_le (Nat.zero_le id)
  constructor
  · intro left right isLeft
    rw [blank] at isLeft
    contradiction
  · intro rule production isRule
    rw [blank] at isRule
    contradiction
  · intro rule production
    simp only [blank]
    rfl
  · intro production kind isProduction
    rw [blank] at isProduction
    contradiction
  · intro production kind isProduction
    rw [blank] at isProduction
    contradiction

/-- A production that is required is found under its name or added under it, so there is still one
of each name. -/
theorem requireProduction (ruled : graph.Ruled) (complete : graph.Complete) (name : String)
    (location : Location) :
    (graph.requireProduction name location).2.Ruled ∧
      ((graph.requireProduction name location).2.decl
        (graph.requireProduction name location).1).kindLabel = "grammar" ∧
      (graph.requireProduction name location).2.name
        (graph.requireProduction name location).1 = name := by
  rw [Graph.requireProduction]
  split
  · next id found =>
      have listed := List.mem_of_find?_eq_some found
      exact ⟨ruled, ((complete.mem_iff .productions id).mp listed).2, by
        simpa using List.find?_some found⟩
  · next missing =>
      have bare : Decl.Bare ⟨name, "", location, .production
          { body := { fileName := (graph.takeName name).1 } }⟩ := by
        apply Decl.bare_of_block?_eq_none rfl rfl rfl _ rfl
        rintro (_ | _) <;> rfl
      refine ⟨?_, ?_, ?_⟩
      · apply ruled.addProduction bare rfl rfl
        intro id isProduction same
        have listed := (complete.mem_iff .productions id).mpr
          ⟨inside_of_isProduction isProduction, isProduction⟩
        have isOther := List.find?_eq_none.mp missing id listed
        simp [same] at isOther
      · rw [decl_newest_of_push rfl]
        rfl
      · rw [Graph.name, decl_newest_of_push rfl]

/-- A class that is a rule joins the production that its name calls for, and that one is there when
the class is added. -/
theorem recordClass (ruled : graph.Ruled) (complete : graph.Complete) (index : Nat)
    (name description : String) (location : Location) (head : ClassHead) :
    (graph.recordClass index name description location head).Ruled := by
  have taken : Widens graph (graph.takeName name).2 := .of_decls_eq rfl
  have completeNamed := complete.of_step (RecordStep.takeName graph name)
  rcases takes : graph.takeName name with ⟨fileName, named⟩
  rw [takes] at taken completeNamed
  simp only [Graph.recordClass, takes]
  split
  · exact (ruled.widen taken).widen (.push rfl (by simp [Decl.kindLabel]) rfl rfl)
  · next rule _ =>
      rcases (ruled.widen taken).requireProduction completeNamed (productionName name) location
        with ⟨joinedRuled, isProduction, sameName⟩
      rcases requires : named.requireProduction (productionName name) location
        with ⟨production, joined⟩
      rw [requires] at joinedRuled isProduction sameName
      refine joinedRuled.addRule (ruleAdded_of_push (Decl.bare_class ..) rfl isProduction rfl) rfl
        isProduction sameName

/-- Only classes can be rules. Members go to the last block, which is no production. So it is only
the case of a class that needs more than a graph that has been widened. -/
theorem declare {state : Recording} (ruled : state.graph.Ruled) (last : state.OwnerIsLast)
    (complete : state.graph.Complete) (index : Nat) (name description : String)
    (location : Location) (declared : Declared) :
    (state.declare index name description location declared).graph.Ruled := by
  cases declared with
  | classBlock head => exact ruled.recordClass complete ..
  | property interfaceOnly =>
      simp only [Recording.declare]
      split
      · exact ruled
      · next owner isOwner => exact ruled.widen (.addMember rfl (last owner isOwner).1)
  | method parameters interfaceOnly =>
      simp only [Recording.declare]
      split
      · exact ruled
      · next owner isOwner => exact ruled.widen (.addMember rfl (last owner isOwner).1)
  | objectBlock head => exact ruled.widen (.push rfl (by simp [Decl.kindLabel]) rfl rfl)
  | modifyBlock => exact ruled.widen (.push rfl (by simp [Decl.kindLabel]) rfl rfl)
  | function parameters => exact ruled.widen (.push rfl (by simp [Decl.kindLabel]) rfl rfl)
  | macroDefinition parameters body =>
      exact ruled.widen (.push rfl (by simp [Decl.kindLabel]) rfl rfl)
  | template body => exact ruled.widen (.push rfl (by simp [Decl.kindLabel]) rfl rfl)
  | message kind text => exact ruled.widen (.push rfl (by simp [Decl.kindLabel]) rfl rfl)

/-- An entry keeps productions and rules as they stand, for it declares something, adds constants,
or says something of the file. -/
theorem add {state : Recording} (ruled : state.graph.Ruled) (last : state.OwnerIsLast)
    (complete : state.graph.Complete) (index : Nat) (shortName : String) (entry : Entry) :
    (state.add index shortName entry).graph.Ruled := by
  cases entry with
  | fileDescription text => exact ruled.widen (.of_decls_eq rfl)
  | declaration name description line declared => exact ruled.declare last complete ..
  | enumGroup description line members => exact ruled.widen (.recordEnum ..)

/-- The entries of a file keep productions and rules as they stand. Along the entries the last block
takes the members, and the lists stay complete, which is needed to find productions by their
names. -/
theorem record (ruled : graph.Ruled) (complete : graph.Complete) (index : Nat)
    (entries : List Entry) : (graph.record index entries).Ruled := by
  have start : Recording.OwnerIsLast ⟨graph, none⟩ := by
    rintro _ ⟨⟩
  suffices kept : ∀ (shortName : String) (state : Recording), state.graph.Ruled →
      state.OwnerIsLast → state.graph.Complete →
        (entries.foldl (Recording.add index shortName) state).graph.Ruled from
    kept _ _ ruled start complete
  intro shortName
  induction entries with
  | nil => exact fun _ ruled _ _ => ruled
  | cons entry entries ih =>
      intro state ruled last complete
      rcases Recording.goesOn_add last index shortName entry with ⟨steps, lastNext⟩
      exact ih _ (ruled.add last complete ..) lastNext (complete.of_steps steps)

theorem read (ruled : graph.Ruled) (complete : graph.Complete) (reading : FileReading) :
    (graph.read reading).Ruled :=
  ruled.record complete ..

end Ruled

end Graph

end TadsReference
