import TadsReference.Proofs.Graph.Passes

/-!
# An account of merging

Merging offers the members of `modify` blocks to their targets one after the other. The state that
it leads to is determined by the offers made so far: the first member of a name that a target lacks
joins the target, and every other member is noted on the one that has its name there. `Merging`
holds this account, and `Merging.offer` extends it by one more offer.
-/

namespace TadsReference.Graph

/-- A member of a `modify` block that is offered to the block's target. -/
structure Offer where
  target : DeclId
  kind : MemberKind
  member : DeclId

/-- The members that were offered to a target, in the order of the offers. -/
def offered (offers : List Offer) (target : DeclId) (kind : MemberKind) : List DeclId :=
  (offers.filter fun offer => offer.target = target ∧ offer.kind = kind).map (·.member)

variable (graph : Graph)

/-- The member that has a name in a target: the first of its own, or else the first offered. -/
def keeper? (offers : List Offer) (target : DeclId) (kind : MemberKind) (name : String) :
    Option DeclId :=
  graph.findNamed? ((graph.decl target).members kind) name <|>
    graph.findNamed? (offered offers target kind) name

/-- The members of a target after the offers: its own, and those offered that it keeps. -/
def keptMembers (offers : List Offer) (target : DeclId) (kind : MemberKind) : List DeclId :=
  (graph.decl target).members kind ++
    (offered offers target kind).filter fun member =>
      graph.keeper? offers target kind (graph.name member) == some member

/-- The members that the offers note on a member. -/
def notedOn (offers : List Offer) (id : DeclId) : List DeclId :=
  (offers.filter fun offer => offer.member ≠ id ∧
    graph.keeper? offers offer.target offer.kind (graph.name offer.member) = some id).map
      (·.member)

variable {graph} {offers : List Offer} {target member : DeclId} {kind : MemberKind}
  {name : String}

theorem offered_append (left right : List Offer) (target : DeclId) (kind : MemberKind) :
    offered (left ++ right) target kind =
      offered left target kind ++ offered right target kind := by
  simp [offered]

theorem offered_single (target other : DeclId) (kind otherKind : MemberKind) (member : DeclId) :
    offered [⟨target, kind, member⟩] other otherKind =
      if target = other ∧ kind = otherKind then [member] else [] := by
  simp only [offered, List.filter_cons, List.filter_nil, decide_eq_true_eq]
  split <;> rfl

theorem mem_offered {member : DeclId} :
    member ∈ offered offers target kind ↔ ⟨target, kind, member⟩ ∈ offers := by
  simp only [offered, List.mem_map, List.mem_filter, decide_eq_true_eq]
  constructor
  · rintro ⟨offer, ⟨isOffer, rfl, rfl⟩, rfl⟩
    exact isOffer
  · intro isOffer
    exact ⟨_, ⟨isOffer, rfl, rfl⟩, rfl⟩

theorem findNamed?_append (left right : List DeclId) (name : String) :
    graph.findNamed? (left ++ right) name =
      (graph.findNamed? left name <|> graph.findNamed? right name) := by
  simp [findNamed?, List.find?_append]

/-- Offers that are made later are only searched where those before them have given no keeper to the
name. -/
theorem keeper?_append (left right : List Offer) :
    graph.keeper? (left ++ right) target kind name =
      (graph.keeper? left target kind name <|>
        graph.findNamed? (offered right target kind) name) := by
  simp only [keeper?, offered_append, findNamed?_append]
  cases graph.findNamed? ((graph.decl target).members kind) name <;> simp

/-- Whoever has a name in a target keeps it whatever is offered later. -/
theorem keeper?_append_of_some {left : List Offer} {id : DeclId}
    (kept : graph.keeper? left target kind name = some id) (right : List Offer) :
    graph.keeper? (left ++ right) target kind name = some id := by
  simp [keeper?_append, kept]

/-- Someone in the target has the name of each member that was offered. -/
theorem exists_keeper? {offer : Offer} (isOffer : offer ∈ offers) :
    ∃ id, graph.keeper? offers offer.target offer.kind (graph.name offer.member) = some id := by
  have isOffered : offer.member ∈ offered offers offer.target offer.kind := mem_offered.mpr isOffer
  cases own : graph.findNamed? ((graph.decl offer.target).members offer.kind)
      (graph.name offer.member) with
  | some id => exact ⟨id, by simp [keeper?, own]⟩
  | none =>
      cases first : graph.findNamed? (offered offers offer.target offer.kind)
          (graph.name offer.member) with
      | some id => exact ⟨id, by simp [keeper?, own, first]⟩
      | none =>
          have differs := List.find?_eq_none.mp first offer.member isOffered
          simp at differs

/-- Leaving out members of a list does not matter to a search whose result is not left out. -/
theorem find?_filter_of_passes {ids : List DeclId} {search keep : DeclId → Bool}
    (passes : ∀ id, ids.find? search = some id → keep id = true) :
    (ids.filter keep).find? search = ids.find? search := by
  rw [List.find?_filter]
  cases found : ids.find? search with
  | none =>
      simp only [List.find?_eq_none] at found ⊢
      intro id isMember
      simp [found id isMember]
  | some id =>
      rcases List.find?_eq_some_iff_append.mp found with ⟨hit, before, after, shape, noneBefore⟩
      apply List.find?_eq_some_iff_append.mpr
      refine ⟨by simp [hit, passes id found], before, after, shape, ?_⟩
      intro earlier isBefore
      have missed := noneBefore earlier isBefore
      simp_all

/-- Looking a name up in a target after the offers finds the member that has it there. -/
theorem findNamed?_keptMembers (offers : List Offer) (target : DeclId) (kind : MemberKind)
    (name : String) :
    graph.findNamed? (graph.keptMembers offers target kind) name =
      graph.keeper? offers target kind name := by
  rw [keptMembers, findNamed?_append]
  cases own : graph.findNamed? ((graph.decl target).members kind) name with
  | some id => simp [keeper?, own]
  | none =>
      have offeredFirst : graph.keeper? offers target kind name =
          graph.findNamed? (offered offers target kind) name := by
        simp [keeper?, own]
      rw [offeredFirst]
      simp only [Option.orElse_eq_orElse, Option.orElse_eq_or, Option.none_or]
      apply find?_filter_of_passes
      intro id found
      have named : graph.name id = name := by simpa using List.find?_some found
      rw [named, offeredFirst, findNamed?, found, beq_self_eq_true]

/-- One more offer adds to the members of its target just when nobody has the name yet, and changes
nothing for any other target or kind. The offered member must not be the keeper already, which it
would be if it were offered twice. -/
theorem keptMembers_offer (fresh : graph.keeper? offers target kind
      (graph.name member) ≠ some member) (other : DeclId) (otherKind : MemberKind) :
    graph.keptMembers (offers ++ [⟨target, kind, member⟩]) other otherKind =
      graph.keptMembers offers other otherKind ++
        if target = other ∧ kind = otherKind ∧
          graph.keeper? offers target kind (graph.name member) = none then [member] else [] := by
  have old : ∀ earlier ∈ offered offers other otherKind,
      graph.keeper? (offers ++ [⟨target, kind, member⟩]) other otherKind (graph.name earlier) =
        graph.keeper? offers other otherKind (graph.name earlier) := by
    intro earlier isOffered
    rcases exists_keeper? (mem_offered.mp isOffered) with ⟨id, kept⟩
    rw [kept]
    exact keeper?_append_of_some kept _
  simp only [keptMembers, offered_append, List.filter_append, List.append_assoc]
  congr 1
  congr 1
  · apply List.filter_congr
    intro earlier isOffered
    rw [old earlier isOffered]
  · rw [offered_single]
    by_cases here : target = other ∧ kind = otherKind
    · rcases here with ⟨rfl, rfl⟩
      have last : graph.keeper? (offers ++ [⟨target, kind, member⟩]) target kind
          (graph.name member) =
            (graph.keeper? offers target kind (graph.name member) <|> some member) := by
        simp [keeper?_append, offered_single, findNamed?]
      cases kept : graph.keeper? offers target kind (graph.name member) with
      | none => simp [last, kept]
      | some id =>
          have other : id ≠ member := by
            rintro rfl
            exact fresh kept
          simp [last, kept, other]
    · have elsewhere : ¬(target = other ∧ kind = otherKind ∧
          graph.keeper? offers target kind (graph.name member) = none) :=
        fun both => here ⟨both.1, both.2.1⟩
      simp [here, elsewhere]

/-- One more offer leaves a note on the keeper of its name, if the keeper is another member. No note
that has been left before is lost, since a keeper stays one. -/
theorem notedOn_offer (offers : List Offer) (target : DeclId) (kind : MemberKind)
    (member id : DeclId) :
    graph.notedOn (offers ++ [⟨target, kind, member⟩]) id =
      graph.notedOn offers id ++
        if member ≠ id ∧ graph.keeper? offers target kind (graph.name member) = some id then
          [member]
        else [] := by
  have old : ∀ offer ∈ offers,
      graph.keeper? (offers ++ [⟨target, kind, member⟩]) offer.target offer.kind
          (graph.name offer.member) =
        graph.keeper? offers offer.target offer.kind (graph.name offer.member) := by
    intro offer isOffer
    rcases exists_keeper? isOffer with ⟨keeper, kept⟩
    rw [kept]
    exact keeper?_append_of_some kept _
  have new : graph.keeper? (offers ++ [⟨target, kind, member⟩]) target kind
      (graph.name member) =
        (graph.keeper? offers target kind (graph.name member) <|> some member) := by
    simp [keeper?_append, offered_single, findNamed?]
  simp only [notedOn, List.filter_append, List.map_append]
  congr 1
  · congr 1
    apply List.filter_congr
    intro offer isOffer
    rw [old offer isOffer]
  · simp only [List.filter_cons, List.filter_nil, new]
    cases kept : graph.keeper? offers target kind (graph.name member) with
    | none => by_cases same : member = id <;> simp [same]
    | some keeper => by_cases same : member = id <;> by_cases keeps : keeper = id <;>
        simp [same, keeps]

/-- The account of what offers have made of a graph. -/
structure Merging (graph merging : Graph) (offers : List Offer) : Prop where
  lists : SameLists graph merging
  head : Keeps Decl.head graph merging
  members : ∀ id kind, (merging.decl id).members kind = graph.keptMembers offers id kind
  notes : ∀ id, (merging.decl id).member? = (graph.decl id).member?.map fun details =>
    { details with
      modifiedAt :=
        details.modifiedAt ++ (graph.notedOn offers id).map fun note => (graph.decl note).location
      modifications := details.modifications ++ graph.notedOn offers id }

theorem Merging.start (graph : Graph) : Merging graph graph [] where
  lists := SameLists.refl graph
  head := Keeps.refl _ graph
  members id kind := by simp [keptMembers, offered]
  notes id := by simp [notedOn]

/-- One more offer. Without a keeper the member joins the target; otherwise it is noted on the
keeper. -/
theorem Merging.offer {merging : Graph} (account : Merging graph merging offers)
    (takes : (graph.decl target).takesMembers = true)
    (fresh : graph.keeper? offers target kind (graph.name member) ≠ some member) :
    Merging graph (merging.mergeMember target kind member)
      (offers ++ [⟨target, kind, member⟩]) := by
  have found : merging.findMember? target (merging.name member) kind =
      graph.keeper? offers target kind (graph.name member) := by
    rw [findMember?, account.members, account.head.findNamed?, account.head.name,
      findNamed?_keptMembers]
  have lists := account.lists.trans (sameLists_mergeMember merging target kind member)
  have head := account.head.trans
    (keeps_mergeMember (fun _ isChange => isChange.head) merging target kind member)
  rw [mergeMember, found] at lists head ⊢
  cases kept : graph.keeper? offers target kind (graph.name member) with
  | none =>
      simp only [kept] at lists head ⊢
      refine ⟨lists, head, ?_, ?_⟩
      · intro id otherKind
        rw [decl_modifyDecl rfl, keptMembers_offer fresh]
        by_cases isTarget : id = target
        · subst isTarget
          have takesNow : (merging.decl id).takesMembers = true := by
            rw [account.head.takesMembers, takes]
          rw [if_pos rfl, Decl.members_addMember takesNow, account.members]
          simp [kept, eq_comm]
        · rw [if_neg isTarget, account.members]
          simp [Ne.symm isTarget]
      · intro id
        have same : ((merging.modifyDecl target (Decl.mapBody
            (·.addMember kind member))).decl id).member? = (merging.decl id).member? :=
          Keeps.modifyDecl (fun decl => Decl.member?_mapBody decl _) merging target id
        rw [same, account.notes, notedOn_offer]
        simp [kept]
  | some keeper =>
      have other : member ≠ keeper := by
        rintro rfl
        exact fresh kept
      simp only [kept] at lists head ⊢
      refine ⟨lists, head, ?_, ?_⟩
      · intro id otherKind
        rw [keptMembers_offer fresh, decl_modifyDecl rfl]
        split
        · simp [account.members, kept]
        · simp [account.members, kept]
      · intro id
        rw [decl_modifyDecl rfl, notedOn_offer]
        by_cases isKeeper : id = keeper
        · subst isKeeper
          rw [if_pos rfl, Decl.member?_mapMember, account.notes, Option.map_map]
          simp [kept, other, account.head.location, Function.comp_def]
        · rw [if_neg isKeeper, account.notes]
          simp [kept, Ne.symm isKeeper]

theorem mem_keptMembers_of_keeper? {id : DeclId}
    (kept : graph.keeper? offers target kind name = some id) :
    id ∈ graph.keptMembers offers target kind := by
  rw [← findNamed?_keptMembers] at kept
  exact List.mem_of_find?_eq_some kept

/-- Several offers of one kind to one target. None of them is kept already and none comes twice, so
each is new to the target when it is offered. -/
theorem Merging.offerAll {merging : Graph} (account : Merging graph merging offers)
    (takes : (graph.decl target).takesMembers = true) {ids : List DeclId} (nodup : ids.Nodup)
    (fresh : ∀ id ∈ ids, id ∉ graph.keptMembers offers target kind) :
    Merging graph (ids.foldl (·.mergeMember target kind ·) merging)
      (offers ++ ids.map (⟨target, kind, ·⟩)) := by
  induction ids generalizing merging offers with
  | nil => simpa using account
  | cons id ids ih =>
      have notKeeper : graph.keeper? offers target kind (graph.name id) ≠ some id :=
        fun kept => fresh id List.mem_cons_self (mem_keptMembers_of_keeper? kept)
      rw [List.nodup_cons] at nodup
      have rest := ih (account.offer takes notKeeper) nodup.2 (by
        intro later isLater isKept
        rw [keptMembers_offer notKeeper, List.mem_append] at isKept
        rcases isKept with old | new
        · exact fresh later (List.mem_cons_of_mem _ isLater) old
        · split at new
          · rw [List.mem_singleton] at new
            exact nodup.1 (new ▸ isLater)
          · simp at new)
      simpa using rest

/-- Changes that affect neither members nor their notes leave the account as it is. -/
theorem Merging.of_keeps {merging later : Graph} (account : Merging graph merging offers)
    (lists : SameLists merging later) (head : Keeps Decl.head merging later)
    (members : ∀ kind, Keeps (Decl.members · kind) merging later)
    (notes : Keeps Decl.member? merging later) : Merging graph later offers where
  lists := account.lists.trans lists
  head := account.head.trans head
  members id kind := (members kind id).trans (account.members id kind)
  notes id := (notes id).trans (account.notes id)

/-! ### Merging whole blocks -/

/-- What merging relies on: every member is declared in one body only, and the lists of classes,
objects and `modify` blocks hold nothing else. -/
structure Mergeable (graph : Graph) : Prop where
  owner : ∀ id kind member, member ∈ (graph.decl id).members kind →
    (graph.decl member).owner? = some id
  memberKind : ∀ id kind member, member ∈ (graph.decl id).members kind →
    (graph.decl member).memberKind? = some kind
  members : ∀ id kind, ((graph.decl id).members kind).Nodup
  blocks : ∀ id ∈ graph.classes ++ graph.objects, (graph.decl id).isBlock = true
  modifications : ∀ id ∈ graph.modifications, (graph.decl id).kindLabel = "modify"
  distinct : graph.modifications.Nodup

/-- What a `modify` block offers to its target. -/
def offersOf (graph : Graph) (modification : DeclId) : List Offer :=
  match graph.findBlock? (graph.name modification) with
  | none => []
  | some target =>
      ((graph.decl modification).members .method).map (⟨target, .method, ·⟩) ++
        ((graph.decl modification).members .property).map (⟨target, .property, ·⟩)

/-- A `modify` block offers all its members, and only to the target that its name denotes. -/
theorem mem_offersOf {modification : DeclId} {offer : Offer} :
    offer ∈ graph.offersOf modification ↔
      graph.findBlock? (graph.name modification) = some offer.target ∧
        offer.member ∈ (graph.decl modification).members offer.kind := by
  rcases offer with ⟨target, kind, member⟩
  rw [offersOf]
  cases graph.findBlock? (graph.name modification) with
  | none => simp
  | some block =>
      cases kind <;> simp only [List.mem_append, List.mem_map, Offer.mk.injEq, Option.some.injEq,
        reduceCtorEq, false_and, and_false, exists_false, or_false, false_or, true_and]
      · constructor
        · rintro ⟨_, isMember, rfl, rfl⟩
          exact ⟨rfl, isMember⟩
        · rintro ⟨rfl, isMember⟩
          exact ⟨_, isMember, rfl, rfl⟩
      · constructor
        · rintro ⟨_, isMember, rfl, rfl⟩
          exact ⟨rfl, isMember⟩
        · rintro ⟨rfl, isMember⟩
          exact ⟨_, isMember, rfl, rfl⟩

theorem mem_of_findBlock? (found : graph.findBlock? name = some target) :
    target ∈ graph.classes ++ graph.objects := by
  simp only [findBlock?, findClass?, findNamed?, Option.orElse_eq_orElse, Option.orElse_eq_or,
    Option.or_eq_some_iff] at found
  rw [List.mem_append]
  rcases found with isClass | ⟨_, isObject⟩
  · exact .inl (List.mem_of_find?_eq_some isClass)
  · exact .inr (List.mem_of_find?_eq_some isObject)

theorem isBlock_of_findBlock? (mergeable : graph.Mergeable)
    (found : graph.findBlock? name = some target) : (graph.decl target).isBlock = true :=
  mergeable.blocks target (mem_of_findBlock? found)

variable {merging : Graph} {done : List DeclId} {modification : DeclId}

/-- A block's members are new to the target as long as the block has not been merged. -/
theorem not_mem_keptMembers (mergeable : graph.Mergeable)
    (isModification : (graph.decl modification).kindLabel = "modify")
    (isBlock : (graph.decl target).isBlock = true) {offers : List Offer}
    (origin : ∀ offer ∈ offers, offer.kind = kind →
      ∃ earlier, earlier ≠ modification ∧
        offer.member ∈ (graph.decl earlier).members offer.kind)
    (isMember : member ∈ (graph.decl modification).members kind) :
    member ∉ graph.keptMembers offers target kind := by
  have ownedHere := mergeable.owner modification kind member isMember
  intro isKept
  rcases List.mem_append.mp isKept with own | adopted
  · have ownedThere := mergeable.owner target kind member own
    obtain rfl : modification = target := Option.some.inj (ownedHere.symm.trans ownedThere)
    rw [Decl.isBlock_iff, isModification] at isBlock
    simp at isBlock
  · have isOffer := mem_offered.mp (List.mem_filter.mp adopted).1
    rcases origin _ isOffer rfl with ⟨earlier, differs, isEarlier⟩
    have ownedThere := mergeable.owner earlier kind member isEarlier
    exact differs (Option.some.inj (ownedThere.symm.trans ownedHere))

/-- Nothing is ever offered to a `modify` block. -/
theorem keptMembers_modification (mergeable : graph.Mergeable)
    (isModification : (graph.decl modification).kindLabel = "modify") (done : List DeclId)
    (kind : MemberKind) :
    graph.keptMembers (done.flatMap graph.offersOf) modification kind =
      (graph.decl modification).members kind := by
  have none : offered (done.flatMap graph.offersOf) modification kind = [] := by
    apply List.eq_nil_iff_forall_not_mem.mpr
    intro member isOffered
    rcases List.mem_flatMap.mp (mem_offered.mp isOffered) with ⟨earlier, _, isOffer⟩
    have isBlock := isBlock_of_findBlock? mergeable (mem_offersOf.mp isOffer).1
    rw [Decl.isBlock_iff, isModification] at isBlock
    simp at isBlock
  simp [keptMembers, none]

/-- A `modify` block is merged by offering its methods and then its properties. Its own members stay
as they are meanwhile, since nothing is offered to it, so the offers are those it would have made at
the start. -/
theorem Merging.mergeMembers (mergeable : graph.Mergeable)
    (account : Merging graph merging (done.flatMap graph.offersOf))
    (isModification : (graph.decl modification).kindLabel = "modify")
    (new : modification ∉ done)
    (found : graph.findBlock? (graph.name modification) = some target) :
    Merging graph (merging.mergeMembers modification target)
      ((done ++ [modification]).flatMap graph.offersOf) := by
  have isBlock := isBlock_of_findBlock? mergeable found
  have takes : (graph.decl target).takesMembers = true := by simp [Decl.takesMembers, isBlock]
  have unchanged (kind : MemberKind) : (merging.decl modification).members kind =
      (graph.decl modification).members kind := by
    rw [account.members, keptMembers_modification mergeable isModification]
  have origin : ∀ offer ∈ done.flatMap graph.offersOf, ∃ earlier, earlier ≠ modification ∧
      offer.member ∈ (graph.decl earlier).members offer.kind := by
    intro offer isOffer
    rcases List.mem_flatMap.mp isOffer with ⟨earlier, isDone, isOffer⟩
    exact ⟨earlier, fun same => new (same ▸ isDone), (mem_offersOf.mp isOffer).2⟩
  have newMethods : ∀ id ∈ (graph.decl modification).members .method,
      id ∉ graph.keptMembers (done.flatMap graph.offersOf) target .method :=
    fun _ isMember => not_mem_keptMembers mergeable isModification isBlock
      (fun offer isOffer _ => origin offer isOffer) isMember
  have methods := account.offerAll takes (mergeable.members modification .method) newMethods
  have newProperties : ∀ id ∈ (graph.decl modification).members .property,
      id ∉ graph.keptMembers (done.flatMap graph.offersOf ++
        ((graph.decl modification).members .method).map (⟨target, .method, ·⟩))
          target .property := by
    intro id isMember
    apply not_mem_keptMembers mergeable isModification isBlock _ isMember
    intro offer isOffer isProperty
    rcases List.mem_append.mp isOffer with earlier | isMethod
    · exact origin offer earlier
    · rcases List.mem_map.mp isMethod with ⟨_, _, rfl⟩
      contradiction
  have properties :=
    methods.offerAll takes (mergeable.members modification .property) newProperties
  have offers : (done ++ [modification]).flatMap graph.offersOf =
      done.flatMap graph.offersOf ++
        ((graph.decl modification).members .method).map (⟨target, .method, ·⟩) ++
          ((graph.decl modification).members .property).map (⟨target, .property, ·⟩) := by
    simp [offersOf, found]
  rw [offers]
  simpa only [Graph.mergeMembers, unchanged] using properties

/-- A block whose name denotes nothing offers nothing, and the account stays as it is. Otherwise its
target is resolved and noted, which touches no member, and its members are offered. -/
theorem Merging.mergeModification (mergeable : graph.Mergeable)
    (account : Merging graph merging (done.flatMap graph.offersOf))
    (isModification : (graph.decl modification).kindLabel = "modify")
    (new : modification ∉ done) :
    Merging graph (merging.mergeModification modification)
      ((done ++ [modification]).flatMap graph.offersOf) := by
  have sameTarget : merging.findBlock? (merging.name modification) =
      graph.findBlock? (graph.name modification) := by
    rw [account.lists.findBlock? account.head, account.head.name]
  rw [Graph.mergeModification, sameTarget]
  cases found : graph.findBlock? (graph.name modification) with
  | none =>
      have noOffers : graph.offersOf modification = [] := by simp [offersOf, found]
      simpa [noOffers] using account
  | some target =>
      have members := account.mergeMembers mergeable isModification new found
      apply Merging.of_keeps members
      · exact (SameLists.modifyDecl ..).trans (SameLists.modifyDecl ..)
      · apply Keeps.trans (Keeps.modifyDecl ?_ _ _) (Keeps.modifyDecl ?_ _ _)
        · exact (Decl.MergeChange.blockNote _ _).head
        · exact (Decl.MergeChange.target _ _).head
      · intro kind
        apply Keeps.trans (Keeps.modifyDecl ?_ _ _) (Keeps.modifyDecl ?_ _ _)
        · rintro ⟨_, _, _, shape⟩
          cases shape <;> rfl
        · rintro ⟨_, _, _, shape⟩
          cases shape <;> cases kind <;> rfl
      · apply Keeps.trans (Keeps.modifyDecl ?_ _ _) (Keeps.modifyDecl ?_ _ _)
        · rintro ⟨_, _, _, shape⟩
          cases shape <;> rfl
        · rintro ⟨_, _, _, shape⟩
          cases shape <;> rfl

/-- The account of merging all `modify` blocks. The account of the blocks merged so far carries the
induction. That no block comes twice is needed as well: a block that came again would offer members
that have found their keeper. -/
theorem merging_mergeModifications (mergeable : graph.Mergeable) :
    Merging graph graph.mergeModifications (graph.modifications.flatMap graph.offersOf) := by
  have fold : ∀ (rest done : List DeclId) (merging : Graph), (done ++ rest).Nodup →
      (∀ id ∈ rest, (graph.decl id).kindLabel = "modify") →
      Merging graph merging (done.flatMap graph.offersOf) →
      Merging graph (rest.foldl Graph.mergeModification merging)
        ((done ++ rest).flatMap graph.offersOf) := by
    intro rest
    induction rest with
    | nil =>
        intro done merging _ _ account
        simpa using account
    | cons modification rest ih =>
        intro done merging distinct labels account
        have new : modification ∉ done := by
          intro isDone
          exact (List.nodup_append.mp distinct).2.2 modification isDone modification
            List.mem_cons_self rfl
        have step := account.mergeModification mergeable
          (labels modification List.mem_cons_self) new
        have later := ih (done ++ [modification]) _ (by simpa using distinct)
          (fun id isRest => labels id (List.mem_cons_of_mem _ isRest)) step
        simpa using later
  exact fold graph.modifications [] graph mergeable.distinct mergeable.modifications
    (Merging.start graph)

end TadsReference.Graph
