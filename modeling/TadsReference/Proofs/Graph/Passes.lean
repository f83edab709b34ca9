import TadsReference.Graph.Link
import TadsReference.Proofs.Graph.DisplayOrder
import TadsReference.Proofs.Graph.Views

/-!
# The passes of linking

Each pass changes declarations in a few ways only. A view that none of these changes affects shows
the same after the pass, whatever the pass does with the graph. For the passes that treat every
declaration alike it is also said what becomes of each.
-/

namespace TadsReference

namespace Decl

/-- A class or an object that notes a `modify` block. -/
def withModification (location : Location) (id : DeclId) (decl : Decl) : Decl :=
  decl.mapBlock fun block =>
    { block with
      modifiedAt := block.modifiedAt ++ [location]
      modifications := block.modifications ++ [id] }

/-- A `modify` block whose target is known. -/
def withTarget (target : DeclId) (fileName : String) (decl : Decl) : Decl :=
  decl.mapModify fun details =>
    { details with target := some target, body := { details.body with fileName } }

/-- The changes that merging a member of a `modify` block makes. -/
inductive OfferChange : (Decl → Decl) → Prop where
  | member (kind : MemberKind) (id : DeclId) : OfferChange (mapBody (·.addMember kind id))
  | note (location : Location) (id : DeclId) :
      OfferChange (mapMember fun details =>
        { details with
          modifiedAt := details.modifiedAt ++ [location]
          modifications := details.modifications ++ [id] })

/-- The changes that merging `modify` blocks makes. -/
inductive MergeChange : (Decl → Decl) → Prop where
  | offer {change : Decl → Decl} (isOffer : OfferChange change) : MergeChange change
  | blockNote (location : Location) (id : DeclId) : MergeChange (withModification location id)
  | target (target : DeclId) (fileName : String) : MergeChange (withTarget target fileName)

/-- The changes that resolving bases makes. -/
inductive BaseChange : (Decl → Decl) → Prop where
  | heir (heir : DeclId) (heirIsClass : Bool) :
      BaseChange (mapClass fun details =>
        if heirIsClass then
          { details with subclasses := Graph.insertOnce details.subclasses heir }
        else { details with globalObjects := Graph.insertOnce details.globalObjects heir })
  | resolve (resolve : BaseRef → BaseRef) :
      BaseChange (mapBlock fun block => { block with bases := block.bases.map resolve })

theorem OfferChange.head {change : Decl → Decl} (isChange : OfferChange change) (decl : Decl) :
    (change decl).head = decl.head := by
  rcases decl with ⟨_, _, _, kind⟩
  cases isChange <;> cases kind <;> rfl

theorem MergeChange.head {change : Decl → Decl} (isChange : MergeChange change) (decl : Decl) :
    (change decl).head = decl.head := by
  rcases decl with ⟨_, _, _, kind⟩
  cases isChange with
  | offer isOffer => exact isOffer.head _
  | blockNote location id => cases kind <;> rfl
  | target target fileName => cases kind <;> rfl

theorem BaseChange.head {change : Decl → Decl} (isChange : BaseChange change) (decl : Decl) :
    (change decl).head = decl.head := by
  rcases decl with ⟨_, _, _, kind⟩
  cases isChange <;> cases kind <;> rfl

/-- A declaration with the lists that it holds sorted, but not its subclasses. -/
def sortLists (sort : List DeclId → List DeclId) (decl : Decl) : Decl :=
  ((decl.mapBody fun body =>
    { body with
      methods := sort body.methods
      properties := sort body.properties }).mapClass fun details =>
        { details with globalObjects := sort details.globalObjects }).mapProduction
          fun details => { details with matchClasses := sort details.matchClasses }

/-- A member marked as overriding an inherited one. -/
def marked (decl : Decl) : Decl :=
  decl.mapMember fun details => { details with overridden := true }

end Decl

namespace Graph

variable {Value : Type} {view : Decl → Value}

/-! ### Merging `modify` blocks -/

/-- A member joins its target or is noted on another member there, and both are changes that the
view does not see. -/
theorem keeps_mergeMember
    (unchanged : ∀ change, Decl.OfferChange change → ∀ decl, view (change decl) = view decl)
    (graph : Graph) (target : DeclId) (kind : MemberKind) (member : DeclId) :
    Keeps view graph (graph.mergeMember target kind member) := by
  rw [mergeMember]
  split
  · exact Keeps.modifyDecl (unchanged _ (.note _ _)) _ _
  · exact Keeps.modifyDecl (unchanged _ (.member _ _)) _ _

theorem keeps_mergeMembers
    (unchanged : ∀ change, Decl.OfferChange change → ∀ decl, view (change decl) = view decl)
    (graph : Graph) (modification target : DeclId) :
    Keeps view graph (graph.mergeMembers modification target) := by
  have methods := Keeps.foldl
    (fun merged => keeps_mergeMember unchanged merged target .method) graph
  have properties := Keeps.foldl
    (fun merged => keeps_mergeMember unchanged merged target .property)
  exact (methods _).trans (properties _ _)

/-- Before its members are merged, a `modify` block is given its target and is noted there. -/
theorem keeps_mergeModification
    (unchanged : ∀ change, Decl.MergeChange change → ∀ decl, view (change decl) = view decl)
    (graph : Graph) (modification : DeclId) :
    Keeps view graph (graph.mergeModification modification) := by
  rw [mergeModification]
  split
  · exact Keeps.refl view graph
  · next target _ =>
      have members := keeps_mergeMembers (fun _ isOffer => unchanged _ (.offer isOffer)) graph
        modification target
      have noted := Keeps.modifyDecl (unchanged _ (.blockNote
        (graph.decl modification).location modification))
      have targeted (fileName : String) :=
        Keeps.modifyDecl (unchanged _ (.target target fileName))
      exact (members.trans (noted _ target)).trans (targeted _ _ modification)

/-- A `modify` block with a target leaves its mark on the two, besides what becomes of its
members. -/
theorem decl_mergeModification {graph : Graph} {modification target : DeclId}
    (found : graph.findBlock? (graph.name modification) = some target) :
    ∃ fileName, ∀ id, (graph.mergeModification modification).decl id =
      let merged := (graph.mergeMembers modification target).decl id
      let noted :=
        if id = target then
          merged.withModification (graph.decl modification).location modification
        else merged
      if id = modification then noted.withTarget target fileName else noted := by
  simp only [mergeModification, found]
  refine ⟨(((graph.mergeMembers modification target).decl target).body?.map
    (·.fileName)).getD "", fun id => ?_⟩
  rw [decl_modifyDecl rfl, decl_modifyDecl rfl]
  rfl

/-- Merging changes no more than the members and notes of declarations and the targets of `modify`
blocks. -/
theorem keeps_mergeModifications
    (unchanged : ∀ change, Decl.MergeChange change → ∀ decl, view (change decl) = view decl)
    (graph : Graph) : Keeps view graph graph.mergeModifications :=
  Keeps.foldl (keeps_mergeModification unchanged) graph graph.modifications

theorem sameLists_mergeMember (graph : Graph) (target : DeclId) (kind : MemberKind)
    (member : DeclId) : SameLists graph (graph.mergeMember target kind member) := by
  rw [mergeMember]
  split <;> exact SameLists.modifyDecl _ _ _

theorem sameLists_mergeMembers (graph : Graph) (modification target : DeclId) :
    SameLists graph (graph.mergeMembers modification target) :=
  (SameLists.foldl (sameLists_mergeMember · target .method) graph _).trans
    (SameLists.foldl (sameLists_mergeMember · target .property) _ _)

theorem sameLists_mergeModification (graph : Graph) (modification : DeclId) :
    SameLists graph (graph.mergeModification modification) := by
  rw [mergeModification]
  split
  · exact SameLists.refl graph
  · exact ((sameLists_mergeMembers ..).trans (SameLists.modifyDecl ..)).trans
      (SameLists.modifyDecl ..)

theorem sameLists_mergeModifications (graph : Graph) :
    SameLists graph graph.mergeModifications :=
  SameLists.foldl sameLists_mergeModification graph graph.modifications

/-! ### Resolving bases -/

/-- Resolving the bases of a block changes that block and, by noting it as an heir, the classes that
it names. -/
theorem keeps_linkBases
    (unchanged : ∀ change, Decl.BaseChange change → ∀ decl, view (change decl) = view decl)
    (graph : Graph) (id : DeclId) : Keeps view graph (graph.linkBases id) := by
  have heirs := Keeps.foldl (fun noted base =>
    Keeps.modifyDecl (unchanged _ (.heir id (graph.decl id).isClass)) noted base) graph
  have resolved := Keeps.modifyDecl (unchanged _ (.resolve graph.resolveBase))
  exact (heirs _).trans (resolved _ id)

/-- Resolving bases changes no more than base lists and the lists of subclasses and objects. -/
theorem keeps_linkAllBases
    (unchanged : ∀ change, Decl.BaseChange change → ∀ decl, view (change decl) = view decl)
    (graph : Graph) : Keeps view graph graph.linkAllBases :=
  Keeps.foldl (keeps_linkBases unchanged) graph (graph.classes ++ graph.objects)

theorem sameLists_linkBases (graph : Graph) (id : DeclId) :
    SameLists graph (graph.linkBases id) :=
  (SameLists.foldl (fun _ _ => SameLists.modifyDecl ..) graph _).trans
    (SameLists.modifyDecl ..)

theorem sameLists_linkAllBases (graph : Graph) : SameLists graph graph.linkAllBases :=
  SameLists.foldl sameLists_linkBases graph (graph.classes ++ graph.objects)

/-! ### Gathering the members of rules -/

theorem keeps_gatherProduction
    (unchanged : ∀ change decl, view (Decl.mapProduction change decl) = view decl)
    (graph : Graph) (id : DeclId) : Keeps view graph (graph.gatherProduction id) := by
  rw [gatherProduction]
  exact Keeps.modifyDecl (unchanged _) graph id

/-- Gathering members changes nothing but productions. -/
theorem keeps_gatherProductions
    (unchanged : ∀ change decl, view (Decl.mapProduction change decl) = view decl)
    (graph : Graph) : Keeps view graph graph.gatherProductions :=
  Keeps.foldl (keeps_gatherProduction unchanged) graph graph.productions

theorem sameLists_gatherProductions (graph : Graph) : SameLists graph graph.gatherProductions :=
  SameLists.foldl (fun _ _ => SameLists.modifyDecl ..) graph graph.productions

/-! ### Sorting and marking -/

/-- A change that is idempotent can be made to a list of declarations in any order. A declaration
that the list has twice is changed as if it stood there once. -/
theorem foldl_modifyDecl_of_idempotent {change : Decl → Decl}
    (fixed : change default = default) (idempotent : ∀ decl, change (change decl) = change decl)
    (graph : Graph) (ids : List DeclId) (id : DeclId) :
    (ids.foldl (fun changed other => changed.modifyDecl other change) graph).decl id =
      if id ∈ ids then change (graph.decl id) else graph.decl id := by
  induction ids generalizing graph with
  | nil => simp
  | cons other ids ih =>
      simp only [List.foldl_cons, ih, decl_modifyDecl fixed, List.mem_cons]
      by_cases here : id = other <;> by_cases later : id ∈ ids <;>
        simp [here, later, idempotent]

theorem sortHolder_eq_modifyDecl (graph : Graph) (id : DeclId) :
    graph.sortHolder id = graph.modifyDecl id (Decl.sortLists graph.sorted) := by
  rw [sortHolder]
  apply congrArg
  funext decl
  rw [Decl.sortLists]

theorem sortLists_default (sort : List DeclId → List DeclId) :
    (default : Decl).sortLists sort = default :=
  rfl

theorem sortLists_sortLists (graph : Graph) (decl : Decl) :
    (decl.sortLists graph.sorted).sortLists graph.sorted = decl.sortLists graph.sorted := by
  rcases decl with ⟨_, _, _, kind⟩
  cases kind <;>
    simp [Decl.sortLists, Decl.mapBody, Decl.mapBlock, Decl.mapClass, Decl.mapProduction,
      sorted_sorted]

theorem keeps_head_sortLists (sort : List DeclId → List DeclId) (graph : Graph) (id : DeclId) :
    Keeps Decl.head graph (graph.modifyDecl id (Decl.sortLists sort)) := by
  apply Keeps.modifyDecl
  rintro ⟨_, _, _, kind⟩
  cases kind <;> rfl

/-- Each class, object and production holds its lists sorted, in the order that all passes see. -/
theorem decl_sortHolders (graph : Graph) (id : DeclId) :
    graph.sortHolders.decl id =
      if id ∈ graph.classes ++ graph.objects ++ graph.productions then
        (graph.decl id).sortLists graph.sorted
      else graph.decl id := by
  have same : ∀ (ids : List DeclId) (sorting : Graph), Keeps Decl.head graph sorting →
      ids.foldl sortHolder sorting =
        ids.foldl (fun changed other => changed.modifyDecl other (Decl.sortLists graph.sorted))
          sorting := by
    intro ids
    induction ids with
    | nil => simp
    | cons other ids ih =>
        intro sorting kept
        have step := sortHolder_eq_modifyDecl sorting other
        rw [funext kept.sorted] at step
        rw [List.foldl_cons, List.foldl_cons, step]
        exact ih _ (kept.trans (keeps_head_sortLists graph.sorted sorting other))
  rw [sortHolders, same _ graph (Keeps.refl Decl.head graph)]
  exact foldl_modifyDecl_of_idempotent (sortLists_default graph.sorted)
    graph.sortLists_sortLists graph _ id

theorem sameLists_sortHolders (graph : Graph) : SameLists graph graph.sortHolders :=
  SameLists.foldl (fun _ _ => SameLists.modifyDecl ..) graph _

/-- A declaration is marked at most once, and it was found to be marked before the first mark was
made. -/
theorem decl_markOverrides (graph : Graph) (id : DeclId) :
    graph.markOverrides.decl id =
      if id ∈ graph.allOverridingMembers then (graph.decl id).marked else graph.decl id := by
  have twice (decl : Decl) : decl.marked.marked = decl.marked := by
    rcases decl with ⟨_, _, _, kind⟩
    cases kind <;> rfl
  exact foldl_modifyDecl_of_idempotent rfl twice graph graph.allOverridingMembers id

theorem sameLists_markOverrides (graph : Graph) : SameLists graph graph.markOverrides :=
  SameLists.foldl (fun _ _ => SameLists.modifyDecl ..) graph _

/-! ### Passes that change no declaration -/

theorem decls_foldl_sortGroup (graph : Graph) (groups : List GroupId) :
    (groups.foldl sortGroup graph).decls = graph.decls ∧
      ∀ listing, (groups.foldl sortGroup graph).listed listing = graph.listed listing := by
  induction groups generalizing graph with
  | nil => exact ⟨rfl, fun _ => rfl⟩
  | cons group groups ih =>
      refine ⟨(ih _).1, fun listing => ((ih _).2 listing).trans ?_⟩
      cases listing <;> rfl

/-- Finishing files changes groups and records of files only. -/
theorem decls_finishFiles (graph : Graph) :
    graph.finishFiles.decls = graph.decls ∧
      ∀ listing, graph.finishFiles.listed listing = graph.listed listing := by
  rw [finishFiles]
  generalize List.range graph.files.length = indices
  induction indices generalizing graph with
  | nil => exact ⟨rfl, fun _ => rfl⟩
  | cons index indices ih =>
      have grouped := decls_foldl_sortGroup graph (graph.file index).enumGroups
      refine ⟨(ih _).1.trans grouped.1, fun listing => ((ih _).2 listing).trans ?_⟩
      rw [← grouped.2 listing]
      cases listing <;> rfl

/-! ### Linking as a whole -/

theorem keeps_sortHolders (sorts : ∀ sort decl, view (Decl.sortLists sort decl) = view decl)
    (graph : Graph) : Keeps view graph graph.sortHolders := by
  intro id
  rw [decl_sortHolders]
  split
  · exact sorts _ _
  · rfl

theorem keeps_finishFiles (graph : Graph) : Keeps view graph graph.finishFiles := by
  intro id
  rw [decl_of_decls_eq (decls_finishFiles graph).1]

theorem keeps_markOverrides (marks : ∀ decl, view (Decl.marked decl) = view decl)
    (graph : Graph) : Keeps view graph graph.markOverrides := by
  intro id
  rw [decl_markOverrides]
  split
  · exact marks _
  · rfl

theorem keeps_finishEnums (graph : Graph) : Keeps view graph graph.finishEnums :=
  fun _ => rfl

theorem listed_finishEnums (graph : Graph) (listing : Listing) :
    graph.finishEnums.listed listing = graph.listed listing := by
  cases listing <;> rfl

theorem listed_link (graph : Graph) (listing : Listing) :
    graph.link.listed listing = graph.sortCollections.listed listing := by
  rw [link, listed_finishEnums, (sameLists_markOverrides _).listed, (decls_finishFiles _).2,
    (sameLists_sortHolders _).listed, (sameLists_gatherProductions _).listed,
    (sameLists_linkAllBases _).listed, (sameLists_mergeModifications _).listed]

theorem classes_link (graph : Graph) : graph.link.classes = graph.sorted graph.classes :=
  listed_link graph .classes

theorem objects_link (graph : Graph) : graph.link.objects = graph.sorted graph.objects :=
  listed_link graph .objects

theorem productions_link (graph : Graph) :
    graph.link.productions = graph.sorted graph.productions :=
  listed_link graph .productions

theorem modifications_link (graph : Graph) : graph.link.modifications = graph.modifications :=
  listed_link graph .modifications

theorem decls_finishEnums (graph : Graph) : graph.finishEnums.decls = graph.decls :=
  rfl

theorem decls_sortCollections (graph : Graph) : graph.sortCollections.decls = graph.decls :=
  rfl

theorem size_link (graph : Graph) : graph.link.decls.size = graph.decls.size := by
  rw [link, decls_finishEnums, (sameLists_markOverrides _).size, (decls_finishFiles _).1,
    (sameLists_sortHolders _).size, (sameLists_gatherProductions _).size,
    (sameLists_linkAllBases _).size, (sameLists_mergeModifications _).size, decls_sortCollections]

/-- After bases have been resolved, linking changes no more than productions, the order of lists and
the marks of overriding members. -/
theorem keeps_link_of_based
    (productions : ∀ change decl, view (Decl.mapProduction change decl) = view decl)
    (sorts : ∀ sort decl, view (Decl.sortLists sort decl) = view decl)
    (marks : ∀ decl, view (Decl.marked decl) = view decl) (graph : Graph) :
    Keeps view graph.sortCollections.mergeModifications.linkAllBases graph.link := by
  rw [link]
  apply (keeps_gatherProductions productions _).trans
  apply (keeps_sortHolders sorts _).trans
  apply (keeps_finishFiles _).trans
  apply (keeps_markOverrides marks _).trans
  exact keeps_finishEnums _

/-- After merging, linking changes no more than bases, the lists of heirs, productions, the order of
lists and the marks of overriding members. -/
theorem keeps_link_of_merged
    (bases : ∀ change, Decl.BaseChange change → ∀ decl, view (change decl) = view decl)
    (productions : ∀ change decl, view (Decl.mapProduction change decl) = view decl)
    (sorts : ∀ sort decl, view (Decl.sortLists sort decl) = view decl)
    (marks : ∀ decl, view (Decl.marked decl) = view decl) (graph : Graph) :
    Keeps view graph.sortCollections.mergeModifications graph.link :=
  (keeps_linkAllBases bases _).trans (keeps_link_of_based productions sorts marks graph)

/-- What none of the changes affects is the same after linking. -/
theorem keeps_link
    (merges : ∀ change, Decl.MergeChange change → ∀ decl, view (change decl) = view decl)
    (bases : ∀ change, Decl.BaseChange change → ∀ decl, view (change decl) = view decl)
    (productions : ∀ change decl, view (Decl.mapProduction change decl) = view decl)
    (sorts : ∀ sort decl, view (Decl.sortLists sort decl) = view decl)
    (marks : ∀ decl, view (Decl.marked decl) = view decl) (graph : Graph) :
    Keeps view graph graph.link := by
  have sorted : Keeps view graph graph.sortCollections := fun _ => rfl
  apply sorted.trans
  apply (keeps_mergeModifications merges _).trans
  exact keeps_link_of_merged bases productions sorts marks graph

end Graph

end TadsReference
