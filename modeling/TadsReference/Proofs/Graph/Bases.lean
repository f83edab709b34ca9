import TadsReference.Proofs.Graph.Members

/-!
# Bases and heirs

A class lists the classes and objects that have it as a base. `Mirrored` says that these lists and
the base lists agree, and that a base is always a class or an object. Reading and linking keep it so
in any order, since neither takes back what the other has noted.
-/

namespace TadsReference

namespace Decl

/-- The classes that have a class as a base, or the objects that do. -/
def heirs (decl : Decl) (areClasses : Bool) : List DeclId :=
  if areClasses then decl.subclasses else decl.globalObjects

theorem heirs_of_not_isClass {decl : Decl} (notClass : decl.isClass = false) (areClasses : Bool) :
    decl.heirs areClasses = [] := by
  rcases decl with ⟨_, _, _, shape⟩
  cases shape <;> cases areClasses <;>
    simp_all [isClass, class?, heirs, subclasses, globalObjects]

theorem bases_of_not_isBlock {decl : Decl} (notBlock : decl.isBlock = false) :
    decl.bases = [] := by
  rcases decl with ⟨_, _, _, shape⟩
  cases shape <;> simp_all [isBlock, block?, bases]

/-- What has a base is a class or an object. -/
theorem isClass_eq_false_iff_of_base {decl : Decl} {base : BaseRef} (isBase : base ∈ decl.bases) :
    decl.isClass = false ↔ decl.kindLabel = "object" := by
  rcases decl with ⟨_, _, _, shape⟩
  cases shape <;> simp_all [bases, block?, isClass, class?, kindLabel]

end Decl

namespace Graph

variable {graph before middle after : Graph} {id base heir : DeclId} {areClasses : Bool}

/-- Base lists and lists of heirs mirror each other. -/
structure Mirrored (graph : Graph) : Prop where
  classes : ∀ id, id ∈ graph.classes ↔ (graph.decl id).kindLabel = "class"
  objects : ∀ id, id ∈ graph.objects ↔ (graph.decl id).kindLabel = "object"
  bases : ∀ id base, .decl base ∈ (graph.decl id).bases → (graph.decl base).isBlock = true
  heirs : ∀ base areClasses heir, (graph.decl base).isClass = true →
    (heir ∈ (graph.decl base).heirs areClasses ↔
      (graph.decl heir).isClass = areClasses ∧ .decl base ∈ (graph.decl heir).bases)
  nodup : ∀ base areClasses, ((graph.decl base).heirs areClasses).Nodup

theorem Mirrored.mem_blocks (mirrored : graph.Mirrored) :
    id ∈ graph.classes ++ graph.objects ↔ (graph.decl id).isBlock = true := by
  rw [List.mem_append, mirrored.classes, mirrored.objects, Decl.isBlock_iff]

/-! ### Graphs with the same bases and heirs -/

/-- Two graphs have the same bases and heirs, and the same classes and objects. -/
structure SameBases (before after : Graph) : Prop where
  head : Keeps Decl.head before after
  bases : Keeps Decl.bases before after
  heirs : ∀ id areClasses,
    ((after.decl id).heirs areClasses).Perm ((before.decl id).heirs areClasses)
  classes : after.classes.Perm before.classes
  objects : after.objects.Perm before.objects

namespace SameBases

theorem trans (first : SameBases before middle) (second : SameBases middle after) :
    SameBases before after where
  head := first.head.trans second.head
  bases := first.bases.trans second.bases
  heirs id areClasses := (second.heirs id areClasses).trans (first.heirs id areClasses)
  classes := second.classes.trans first.classes
  objects := second.objects.trans first.objects

/-- A step that keeps the heads, bases and heirs of all declarations, and the lists of blocks, keeps
all that mirroring speaks of. -/
theorem of_keeps
    (kept : Keeps (fun decl => (decl.head, decl.bases, decl.heirs true, decl.heirs false))
      before after)
    (listed : ∀ listing, after.listed listing = before.listed listing) :
    SameBases before after where
  head := kept.comp (·.1)
  bases := kept.comp (·.2.1)
  heirs id areClasses := by
    apply List.Perm.of_eq
    cases areClasses with
    | true => exact congrArg (·.2.2.1) (kept id)
    | false => exact congrArg (·.2.2.2) (kept id)
  classes := List.Perm.of_eq (listed .classes)
  objects := List.Perm.of_eq (listed .objects)

end SameBases

/-- Whether base lists and lists of heirs mirror each other depends on those lists alone. -/
theorem Mirrored.of_sameBases (mirrored : before.Mirrored) (same : SameBases before after) :
    after.Mirrored where
  classes id := by
    rw [same.classes.mem_iff, same.head.kindLabel, mirrored.classes]
  objects id := by
    rw [same.objects.mem_iff, same.head.kindLabel, mirrored.objects]
  bases id base isBase := by
    rw [same.head.isBlock]
    rw [same.bases] at isBase
    exact mirrored.bases id base isBase
  heirs base areClasses heir isClass := by
    rw [same.head.isClass] at isClass
    rw [(same.heirs base areClasses).mem_iff, same.head.isClass, same.bases,
      mirrored.heirs base areClasses heir isClass]
  nodup base areClasses :=
    (same.heirs base areClasses).nodup_iff.mpr (mirrored.nodup base areClasses)

/-! ### Reading -/

/-- A graph without declarations has neither bases nor heirs. -/
theorem mirrored_ofFiles (files : List SourceFile) : (ofFiles files).Mirrored := by
  have empty (id : DeclId) : (ofFiles files).decl id = default := decl_of_size_le (Nat.zero_le _)
  constructor
  · intro id
    rw [empty]
    simp [ofFiles, default, Decl.kindLabel]
  · intro id
    rw [empty]
    simp [ofFiles, default, Decl.kindLabel]
  · intro id base isBase
    rw [empty] at isBase
    simp [default, Decl.bases, Decl.block?] at isBase
  · intro base areClasses heir isClass
    rw [empty] at isClass
    contradiction
  · intro base areClasses
    rw [empty, Decl.heirs_of_not_isClass rfl]
    exact List.nodup_nil

theorem not_decl_mem_bases {decl : Decl} (unlinked : decl.Unlinked) (base : DeclId) :
    .decl base ∉ decl.bases := by
  intro isBase
  have unresolved := unlinked.bases _ isBase
  contradiction

theorem heirs_of_unlinked {decl : Decl} (unlinked : decl.Unlinked) (areClasses : Bool) :
    decl.heirs areClasses = [] := by
  cases areClasses with
  | true => exact unlinked.subclasses
  | false => exact unlinked.globalObjects

/-- The list of a kind stays complete when a declaration is put behind the others, if the list takes
it exactly where it is of that kind. -/
theorem mem_iff_kindLabel_of_push {decl : Decl} (decls : after.decls = before.decls.push decl)
    {label : String} (known : label ≠ "function") {old new : List DeclId}
    (listed : ∀ id, id ∈ old ↔ (before.decl id).kindLabel = label)
    (extended : new = if label = decl.kindLabel then old ++ [before.nextId] else old)
    (id : DeclId) : id ∈ new ↔ (after.decl id).kindLabel = label := by
  have outside := decl_nextId before
  rw [decl_of_push decls, extended]
  by_cases newest : id = before.nextId
  · have notOld : id ∉ old := by
      rw [listed, newest, outside]
      exact known.symm
    rw [if_pos newest]
    split
    · next isLabel => simp [newest, isLabel]
    · next otherLabel => simp [notOld, Ne.symm otherLabel]
  · rw [if_neg newest]
    split <;> simp [newest, listed]

/-- A declaration is added of which linking has noted nothing. Nothing has it as a base yet and it
has no base that is resolved, so all lists of heirs are still complete. -/
theorem Mirrored.push (mirrored : before.Mirrored) {decl : Decl} (unlinked : decl.Unlinked)
    (decls : after.decls = before.decls.push decl)
    (lists : ∀ listing, after.listed listing =
      if listing.label = decl.kindLabel then before.listed listing ++ [before.nextId]
      else before.listed listing) :
    after.Mirrored := by
  have shown := decl_of_push decls
  have outside := decl_nextId before
  constructor
  · exact mem_iff_kindLabel_of_push decls (by decide) mirrored.classes (lists .classes)
  · exact mem_iff_kindLabel_of_push decls (by decide) mirrored.objects (lists .objects)
  · intro id base isBase
    rw [shown] at isBase
    split at isBase
    · exact absurd isBase (not_decl_mem_bases unlinked base)
    · have isBlock := mirrored.bases id base isBase
      have inside : base ≠ before.nextId := by
        rintro rfl
        rw [outside] at isBlock
        contradiction
      rwa [shown, if_neg inside]
  · intro base areClasses heir isClass
    have newHeir : .decl base ∉ (after.decl before.nextId).bases := by
      rw [shown, if_pos rfl]
      exact not_decl_mem_bases unlinked base
    by_cases newest : base = before.nextId
    · rw [shown, if_pos newest, heirs_of_unlinked unlinked]
      constructor
      · intro isHeir
        contradiction
      · rintro ⟨_, isBase⟩
        by_cases newHeirest : heir = before.nextId
        · exact absurd (newHeirest ▸ isBase) newHeir
        · rw [shown, if_neg newHeirest] at isBase
          have isBlock := mirrored.bases heir base isBase
          rw [newest, outside] at isBlock
          contradiction
    · rw [shown, if_neg newest] at isClass ⊢
      rw [mirrored.heirs base areClasses heir isClass]
      by_cases newHeirest : heir = before.nextId
      · subst newHeirest
        constructor
        · rintro ⟨_, isBase⟩
          rw [outside] at isBase
          simp [default, Decl.bases, Decl.block?] at isBase
        · rintro ⟨_, isBase⟩
          exact absurd isBase newHeir
      · rw [shown heir, if_neg newHeirest]
  · intro base areClasses
    rw [shown]
    split
    · rw [heirs_of_unlinked unlinked]
      exact List.nodup_nil
    · exact mirrored.nodup base areClasses

/-- Each step of recording changes no base and no heir of what is there, and adds at most one
declaration that has not been linked. -/
theorem Mirrored.of_step (mirrored : before.Mirrored) (step : RecordStep before after) :
    after.Mirrored := by
  cases step with
  | aside decls lists =>
      apply mirrored.of_sameBases (SameBases.of_keeps _ lists)
      intro id
      rw [decl_of_decls_eq decls]
  | declare decl bare decls lists =>
      exact mirrored.push bare.toUnlinked decls lists
  | member owner kind decl unlinked owned kindOf takes last =>
      have label := Unlinked.label_ne_of_owner? owned
      have pushed : (before.addDecl decl).Mirrored := by
        apply mirrored.push unlinked rfl
        intro listing
        rw [if_neg (Ne.symm (label listing))]
        cases listing <;> rfl
      apply pushed.of_sameBases (SameBases.of_keeps _ _)
      · apply Keeps.modifyDecl
        rintro ⟨_, _, _, shape⟩
        cases shape <;> rfl
      · intro listing
        cases listing <;> rfl
  | join production rule isClass =>
      apply mirrored.of_sameBases (SameBases.of_keeps _ _)
      · apply Keeps.modifyDecl
        rintro ⟨_, _, _, shape⟩
        cases shape <;> rfl
      · intro listing
        cases listing <;> rfl

/-! ### Resolving bases -/

/-- A list without repetitions has none after something has been inserted once. -/
theorem nodup_insertOnce {ids : List DeclId} (nodup : ids.Nodup) (id : DeclId) :
    (insertOnce ids id).Nodup := by
  rw [insertOnce]
  split
  · exact nodup
  · next absent =>
      rw [List.contains_iff_mem] at absent
      rw [List.nodup_append]
      refine ⟨nodup, by simp, ?_⟩
      rintro old isOld _ isNew rfl
      exact absent (List.mem_singleton.mp isNew ▸ isOld)

theorem insertOnce_insertOnce (ids : List DeclId) (id : DeclId) :
    insertOnce (insertOnce ids id) id = insertOnce ids id := by
  have inserted : id ∈ insertOnce ids id := mem_insertOnce.mpr (.inr rfl)
  rw [insertOnce, if_pos (List.contains_iff_mem.mpr inserted)]

/-- A class that notes an heir. -/
def withHeir (heir : DeclId) (heirIsClass : Bool) (decl : Decl) : Decl :=
  decl.mapClass fun details =>
    if heirIsClass then { details with subclasses := insertOnce details.subclasses heir }
    else { details with globalObjects := insertOnce details.globalObjects heir }

/-- An heir is noted in just one of the two lists of a class, the one that is for heirs of its
kind. -/
theorem heirs_withHeir (heir : DeclId) (heirIsClass areClasses : Bool) (decl : Decl) :
    (withHeir heir heirIsClass decl).heirs areClasses =
      if decl.isClass = true ∧ areClasses = heirIsClass then
        insertOnce (decl.heirs areClasses) heir
      else decl.heirs areClasses := by
  rcases decl with ⟨_, _, _, shape⟩
  cases shape <;> cases areClasses <;> cases heirIsClass <;> rfl

theorem decl_noteHeir (graph : Graph) (heir base id : DeclId) (heirIsClass : Bool) :
    (noteHeir heir heirIsClass graph base).decl id =
      if id = base then withHeir heir heirIsClass (graph.decl id) else graph.decl id := by
  rw [noteHeir, decl_modifyDecl]
  · rfl
  · cases heirIsClass <;> rfl

theorem heirs_noteHeir (graph : Graph) (heir base id : DeclId) (heirIsClass areClasses : Bool) :
    ((noteHeir heir heirIsClass graph base).decl id).heirs areClasses =
      if ((graph.decl id).isClass = true ∧ areClasses = heirIsClass) ∧ id = base then
        insertOnce ((graph.decl id).heirs areClasses) heir
      else (graph.decl id).heirs areClasses := by
  rw [decl_noteHeir, apply_ite (Decl.heirs · areClasses), heirs_withHeir]
  by_cases here : id = base <;> simp [here]

/-- Noting an heir on several classes adds it once to each list of heirs of its kind. -/
theorem heirs_foldl_noteHeir (graph : Graph) (heir : DeclId) (heirIsClass : Bool)
    (bases : List DeclId) (id : DeclId) (areClasses : Bool) :
    ((bases.foldl (noteHeir heir heirIsClass) graph).decl id).heirs areClasses =
      if ((graph.decl id).isClass = true ∧ areClasses = heirIsClass) ∧ id ∈ bases then
        insertOnce ((graph.decl id).heirs areClasses) heir
      else (graph.decl id).heirs areClasses := by
  induction bases generalizing graph with
  | nil => simp
  | cons base bases ih =>
      have kept : Keeps Decl.head graph (noteHeir heir heirIsClass graph base) :=
        Keeps.modifyDecl (Decl.BaseChange.heir heir heirIsClass).head graph base
      rw [List.foldl_cons, ih, kept.isClass, heirs_noteHeir]
      by_cases notes : (graph.decl id).isClass = true ∧ areClasses = heirIsClass
      · simp only [notes, true_and, List.mem_cons]
        by_cases here : id = base <;> simp [here, insertOnce_insertOnce]
      · simp only [notes, false_and, if_false]

/-- What a base list refers to after it has been resolved is what it referred to before, and what
its names stand for. -/
theorem mem_map_resolveBase {bases : List BaseRef} :
    .decl base ∈ bases.map graph.resolveBase ↔
      .decl base ∈ bases ∨ base ∈ graph.newBases bases := by
  simp only [newBases, List.mem_map, List.mem_filterMap]
  constructor
  · rintro ⟨reference, isBase, resolves⟩
    cases reference with
    | decl id =>
        rw [← resolves]
        exact .inl isBase
    | name name =>
        simp only [resolveBase] at resolves
        cases found : graph.findBlock? name with
        | none => simp [found] at resolves
        | some id =>
            obtain rfl : id = base := by simpa [found] using resolves
            exact .inr ⟨.name name, isBase, found⟩
  · rintro (isBase | ⟨reference, isBase, resolves⟩)
    · exact ⟨.decl base, isBase, rfl⟩
    · cases reference with
      | decl id => contradiction
      | name name => exact ⟨.name name, isBase, by simp [resolveBase, resolves]⟩

theorem keeps_bases_noteHeir (heir : DeclId) (heirIsClass : Bool) (graph : Graph)
    (base : DeclId) : Keeps Decl.bases graph (noteHeir heir heirIsClass graph base) := by
  apply Keeps.modifyDecl
  rintro ⟨_, _, _, shape⟩
  cases shape <;> cases heirIsClass <;> rfl

/-- Resolving the bases of one block leaves every other base list alone. -/
theorem bases_linkBases (graph : Graph) (id other : DeclId) :
    ((graph.linkBases id).decl other).bases =
      if other = id then (graph.decl other).bases.map graph.resolveBase
      else (graph.decl other).bases := by
  have noted := Keeps.foldl (keeps_bases_noteHeir id (graph.decl id).isClass) graph
    (graph.newBases (graph.decl id).bases)
  have resolved (decl : Decl) : (decl.mapBlock fun block =>
      { block with bases := block.bases.map graph.resolveBase }).bases =
        decl.bases.map graph.resolveBase := by
    rcases decl with ⟨_, _, _, shape⟩
    cases shape <;> rfl
  rw [linkBases, decl_modifyDecl rfl, apply_ite Decl.bases, resolved, noted]

/-- Resolving the bases of one block notes it as an heir of the classes that its names stand for,
and of no other class. -/
theorem heirs_linkBases (graph : Graph) (id base : DeclId) (areClasses : Bool) :
    ((graph.linkBases id).decl base).heirs areClasses =
      if ((graph.decl base).isClass = true ∧ areClasses = (graph.decl id).isClass) ∧
          base ∈ graph.newBases (graph.decl id).bases then
        insertOnce ((graph.decl base).heirs areClasses) id
      else (graph.decl base).heirs areClasses := by
  have kept : Keeps (Decl.heirs · areClasses) ((graph.newBases (graph.decl id).bases).foldl
      (noteHeir id (graph.decl id).isClass) graph) (graph.linkBases id) := by
    apply Keeps.modifyDecl
    rintro ⟨_, _, _, shape⟩
    cases shape <;> cases areClasses <;> rfl
  have same := kept base
  simp only at same
  rw [same, heirs_foldl_noteHeir]

/-- A list of heirs has what it had before, and the block whose bases have been resolved where a
name of it stands for this class. -/
theorem mem_heirs_linkBases {other : DeclId} :
    heir ∈ ((graph.linkBases id).decl other).heirs areClasses ↔
      heir ∈ (graph.decl other).heirs areClasses ∨
        ((graph.decl other).isClass = true ∧ areClasses = (graph.decl id).isClass) ∧
          other ∈ graph.newBases (graph.decl id).bases ∧ heir = id := by
  rw [heirs_linkBases]
  split
  · next notes => simp [mem_insertOnce, notes]
  · next ignores =>
      constructor
      · exact .inl
      · rintro (isHeir | ⟨notes, isNew, _⟩)
        · exact isHeir
        · exact absurd ⟨notes, isNew⟩ ignores

/-- Resolving the bases of one class or object keeps base lists and lists of heirs in step. A name
that is resolved puts the class into the base list and the block into the list of heirs at once, so
neither can be without the other. -/
theorem Mirrored.linkBases (mirrored : graph.Mirrored) (id : DeclId) :
    (graph.linkBases id).Mirrored := by
  have lists := sameLists_linkBases graph id
  have head := keeps_linkBases (fun _ isChange => isChange.head) graph id
  have newBlock {base : DeclId} (isNew : base ∈ graph.newBases (graph.decl id).bases) :
      (graph.decl base).isBlock = true := by
    rcases List.mem_filterMap.mp isNew with ⟨reference, _, found⟩
    cases reference with
    | decl id => contradiction
    | name name => exact mirrored.mem_blocks.mp (mem_of_findBlock? found)
  constructor
  · intro other
    rw [head.kindLabel, ← mirrored.classes]
    exact iff_of_eq (congrArg (other ∈ ·) (lists.listed .classes))
  · intro other
    rw [head.kindLabel, ← mirrored.objects]
    exact iff_of_eq (congrArg (other ∈ ·) (lists.listed .objects))
  · intro other base isBase
    rw [bases_linkBases] at isBase
    rw [head.isBlock]
    split at isBase
    · next here =>
        rcases mem_map_resolveBase.mp isBase with old | new
        · exact mirrored.bases other base old
        · exact newBlock (here ▸ new)
    · exact mirrored.bases other base isBase
  · intro base areClasses heir isClass
    rw [head.isClass] at isClass
    rw [mem_heirs_linkBases, mirrored.heirs base areClasses heir isClass, head.isClass,
      bases_linkBases]
    split
    · next here =>
        subst here
        rw [mem_map_resolveBase]
        constructor
        · rintro (⟨kind, isBase⟩ | ⟨⟨_, kind⟩, isNew, _⟩)
          · exact ⟨kind, .inl isBase⟩
          · exact ⟨kind.symm, .inr isNew⟩
        · rintro ⟨kind, isBase | isNew⟩
          · exact .inl ⟨kind, isBase⟩
          · exact .inr ⟨⟨isClass, kind.symm⟩, isNew, rfl⟩
    · next other => simp [other]
  · intro base areClasses
    rw [heirs_linkBases]
    split
    · exact nodup_insertOnce (mirrored.nodup base areClasses) id
    · exact mirrored.nodup base areClasses

/-! ### Linking -/

theorem sameBases_sortCollections (graph : Graph) : SameBases graph graph.sortCollections where
  head _ := rfl
  bases _ := rfl
  heirs _ _ := List.Perm.refl _
  classes := graph.perm_sorted graph.classes
  objects := graph.perm_sorted graph.objects

theorem sameBases_mergeModifications (graph : Graph) :
    SameBases graph graph.mergeModifications := by
  apply SameBases.of_keeps _ (sameLists_mergeModifications graph).listed
  apply keeps_mergeModifications
  rintro change isChange ⟨_, _, _, shape⟩
  cases isChange with
  | offer isOffer => cases isOffer <;> cases shape <;> rfl
  | blockNote location id => cases shape <;> rfl
  | target target fileName => cases shape <;> rfl

theorem sameBases_gatherProductions (graph : Graph) :
    SameBases graph graph.gatherProductions := by
  apply SameBases.of_keeps _ (sameLists_gatherProductions graph).listed
  apply keeps_gatherProductions
  rintro change ⟨_, _, _, shape⟩
  cases shape <;> rfl

theorem heirs_sortLists (graph : Graph) (decl : Decl) (areClasses : Bool) :
    ((decl.sortLists graph.sorted).heirs areClasses).Perm (decl.heirs areClasses) := by
  rcases decl with ⟨_, _, _, shape⟩
  cases areClasses with
  | true => cases shape <;> exact List.Perm.refl _
  | false =>
      cases shape with
      | classDecl details => exact graph.perm_sorted details.globalObjects
      | _ => exact List.Perm.refl _

/-- Putting the lists of each block in order leaves its bases as they are and only permutes its
heirs. -/
theorem sameBases_sortHolders (graph : Graph) : SameBases graph graph.sortHolders where
  head := by
    apply keeps_sortHolders
    rintro _ ⟨_, _, _, shape⟩
    cases shape <;> rfl
  bases := by
    apply keeps_sortHolders
    rintro _ ⟨_, _, _, shape⟩
    cases shape <;> rfl
  heirs id areClasses := by
    rw [decl_sortHolders]
    split
    · exact heirs_sortLists graph _ areClasses
    · exact List.Perm.refl _
  classes := List.Perm.of_eq ((sameLists_sortHolders graph).listed .classes)
  objects := List.Perm.of_eq ((sameLists_sortHolders graph).listed .objects)

theorem sameBases_finishFiles (graph : Graph) : SameBases graph graph.finishFiles :=
  SameBases.of_keeps (keeps_finishFiles graph) (decls_finishFiles graph).2

theorem sameBases_markOverrides (graph : Graph) : SameBases graph graph.markOverrides := by
  apply SameBases.of_keeps _ (sameLists_markOverrides graph).listed
  apply keeps_markOverrides
  rintro ⟨_, _, _, shape⟩
  cases shape <;> rfl

theorem sameBases_finishEnums (graph : Graph) : SameBases graph graph.finishEnums :=
  SameBases.of_keeps (keeps_finishEnums graph) (listed_finishEnums graph)

theorem Mirrored.linkAllBases (mirrored : graph.Mirrored) : graph.linkAllBases.Mirrored := by
  apply List.foldlRecOn (graph.classes ++ graph.objects) Graph.linkBases mirrored
  intro linking linked id _
  exact linked.linkBases id

/-- Linking keeps base lists and lists of heirs in step. -/
theorem Mirrored.link (mirrored : graph.Mirrored) : graph.link.Mirrored := by
  have merged := (mirrored.of_sameBases (sameBases_sortCollections graph)).of_sameBases
    (sameBases_mergeModifications _)
  have gathered := merged.linkAllBases.of_sameBases (sameBases_gatherProductions _)
  have finished := (gathered.of_sameBases (sameBases_sortHolders _)).of_sameBases
    (sameBases_finishFiles _)
  exact (finished.of_sameBases (sameBases_markOverrides _)).of_sameBases (sameBases_finishEnums _)

/-! ### Base lists -/

/-- A reference that has been resolved refers to a declaration, and such a reference is left
alone. -/
theorem resolveBase_resolveBase (graph : Graph) (reference : BaseRef) :
    graph.resolveBase (graph.resolveBase reference) = graph.resolveBase reference := by
  cases reference with
  | decl id => rfl
  | name name => cases found : graph.findBlock? name <;> simp [resolveBase, found]

/-- Resolving several base lists resolves each once. Resolving one of them changes no name, so the
other lists resolve as before, and a list that is resolved again stays as it is. -/
theorem bases_foldl_linkBases (graph : Graph) (ids : List DeclId) (id : DeclId) :
    ((ids.foldl linkBases graph).decl id).bases =
      if id ∈ ids then (graph.decl id).bases.map graph.resolveBase else (graph.decl id).bases := by
  induction ids generalizing graph with
  | nil => simp
  | cons first ids ih =>
      have lists := sameLists_linkBases graph first
      have head := keeps_linkBases (fun _ isChange => isChange.head) graph first
      have resolves : (graph.linkBases first).resolveBase = graph.resolveBase := by
        funext reference
        cases reference with
        | decl id => rfl
        | name name => simp only [resolveBase, lists.findBlock? head]
      have twice (bases : List BaseRef) :
          (bases.map graph.resolveBase).map graph.resolveBase = bases.map graph.resolveBase := by
        simp only [List.map_map, Function.comp_def, resolveBase_resolveBase]
      rw [List.foldl_cons, ih, resolves, bases_linkBases]
      by_cases here : id = first
      · subst here
        rw [if_pos rfl, twice, ite_self, if_pos List.mem_cons_self]
      · simp only [here, if_false, List.mem_cons, false_or]

/-- Linking resolves what names it can, in every base list. No later step of linking touches a base
list, so those are the lists that pages show. -/
theorem Mirrored.bases_link (mirrored : graph.Mirrored) (id : DeclId) :
    (graph.link.decl id).bases =
      (graph.decl id).bases.map graph.sortCollections.resolveBase := by
  have sorted := sameBases_sortCollections graph
  have merged := sameBases_mergeModifications graph.sortCollections
  have finished := (sameBases_gatherProductions
    graph.sortCollections.mergeModifications.linkAllBases).trans (sameBases_sortHolders _)
  have marked := ((finished.trans (sameBases_finishFiles _)).trans
    (sameBases_markOverrides _)).trans (sameBases_finishEnums _)
  have ready := (mirrored.of_sameBases sorted).of_sameBases merged
  have resolves : graph.sortCollections.mergeModifications.resolveBase =
      graph.sortCollections.resolveBase := by
    funext reference
    cases reference with
    | decl id => rfl
    | name name => simp only [resolveBase,
        (sameLists_mergeModifications graph.sortCollections).findBlock? merged.head]
  refine (marked.bases id).trans ?_
  rw [Graph.linkAllBases, bases_foldl_linkBases, resolves, merged.bases, sorted.bases]
  split
  · rfl
  · next notListed =>
      have notBlock : (graph.decl id).isBlock = false := by
        apply Bool.eq_false_iff.mpr
        intro isBlock
        apply notListed
        rw [ready.mem_blocks, merged.head.isBlock, sorted.head.isBlock]
        exact isBlock
      rw [Decl.bases_of_not_isBlock notBlock, List.map_nil]

end Graph

end TadsReference
