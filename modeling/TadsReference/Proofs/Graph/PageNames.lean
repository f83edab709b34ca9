import Mathlib.Data.List.Nodup
import Mathlib.Data.List.Perm.Subperm
import Std.Data.String.ToNat
import TadsReference.Page.Address
import TadsReference.Proofs.Graph.Listings
import TadsReference.Proofs.Text.LowerCase

/-!
# Names of pages

A name for a page is taken once and for all, but for the case of letters. More candidates are tried
than names are taken, and no two candidates have the same lower-case form, so one of them is free.
Since every class, object and production takes its name before it is added, no two of them share a
page, however reading and linking follow one another: `pagesApart_run`.
-/

namespace TadsReference

namespace Decl

/-- The name of the page of a declaration that has one of its own. -/
def pageName? (decl : Decl) : Option String :=
  match decl.kind with
  | .classDecl details => some details.block.body.fileName
  | .objectDecl details => some details.block.body.fileName
  | .production details => some details.body.fileName
  | _ => none

end Decl

namespace Graph

variable {graph before after : Graph} {name fileName : String}

/-! ### Candidates -/

theorem lowerCase_candidateName_succ (name : String) (suffix : Nat) :
    Text.lowerCase (candidateName name (suffix + 1)) =
      Text.lowerCase name ++ toString (suffix + 1) :=
  Text.lowerCase_append_toString name (suffix + 1)

/-- No two candidates for a name have the same lower-case form. They differ in the number behind the
name, and numbers differ in how they are written. -/
theorem lowerCase_candidateName_injective (name : String) :
    Function.Injective fun suffix => Text.lowerCase (candidateName name suffix) := by
  have nonempty (suffix : Nat) : Text.lowerCase name ≠ Text.lowerCase name ++ toString suffix := by
    intro same
    have empty : [] = (toString suffix).toList := by
      simpa using congrArg String.toList same
    rw [← String.toList_empty, String.toList_inj] at empty
    exact Nat.repr_ne_empty empty.symm
  intro left right same
  cases left with
  | zero =>
      cases right with
      | zero => rfl
      | succ right =>
          simp only [lowerCase_candidateName_succ] at same
          exact absurd same (nonempty (right + 1))
  | succ left =>
      cases right with
      | zero =>
          simp only [lowerCase_candidateName_succ] at same
          exact absurd same.symm (nonempty (left + 1))
      | succ right =>
          simp only [lowerCase_candidateName_succ, String.append_right_inj] at same
          exact Nat.repr_injective same

/-- One of the candidates that are tried is free, since they outnumber the names taken. -/
theorem exists_free (graph : Graph) (name : String) :
    ∃ suffix ∈ List.range (graph.takenNames.size + 1),
      graph.isTaken (candidateName name suffix) = false := by
  by_contra allTaken
  simp only [not_exists, not_and, Bool.not_eq_false] at allTaken
  have subset : (List.range (graph.takenNames.size + 1)).map
      (fun suffix => Text.lowerCase (candidateName name suffix)) ⊆ graph.takenNames.toList := by
    intro form isForm
    rcases List.mem_map.mp isForm with ⟨suffix, inside, rfl⟩
    exact Std.HashSet.mem_toList.mpr (Std.HashSet.contains_iff_mem.mp (allTaken suffix inside))
  have nodup := (List.nodup_range (n := graph.takenNames.size + 1)).map
    (lowerCase_candidateName_injective name)
  have fewer := (List.subperm_of_subset nodup subset).length_le
  simp only [List.length_map, List.length_range, Std.HashSet.length_toList] at fewer
  omega

/-- The name handed out is the first candidate that is free. -/
theorem freeName_eq_candidateName (graph : Graph) (name : String) :
    ∃ suffix, graph.freeName name = candidateName name suffix ∧
      graph.isTaken (candidateName name suffix) = false ∧
        ∀ smaller < suffix, graph.isTaken (candidateName name smaller) = true := by
  rcases found : (List.range (graph.takenNames.size + 1)).find? fun suffix =>
    !graph.isTaken (candidateName name suffix) with _ | suffix
  · rcases graph.exists_free name with ⟨suffix, inside, isFree⟩
    have taken := List.find?_eq_none.mp found suffix inside
    simp [isFree] at taken
  · rcases List.find?_range_eq_some.mp found with ⟨isFree, _, first⟩
    refine ⟨suffix, by rw [freeName, found, Option.getD_some], ?_, ?_⟩
    · simpa using isFree
    · intro smaller less
      simpa using first smaller less

/-! ### Handing out names -/

/-- What is handed out for a name when some lower-case forms are taken: the name itself, or else the
name with the least number behind it whose form is free. -/
structure HandedOut (taken : String → Prop) (name given : String) : Prop where
  isFree : ¬taken (Text.lowerCase given)
  first : given = name ∨ taken (Text.lowerCase name) ∧
    ∃ suffix ≥ 1, given = name ++ toString suffix ∧
      ∀ smaller, 1 ≤ smaller → smaller < suffix →
        taken (Text.lowerCase (name ++ toString smaller))

theorem isTaken_iff : graph.isTaken name = true ↔ Text.lowerCase name ∈ graph.takenNames :=
  Std.HashSet.contains_iff_mem

/-- The allocator hands out the name itself or the one with the least number that is free. The
search is long enough to come to it, since fewer names are taken than candidates are tried. -/
theorem handedOut_takeName (graph : Graph) (name : String) :
    HandedOut (· ∈ graph.takenNames) name (graph.takeName name).1 := by
  rcases graph.freeName_eq_candidateName name with ⟨suffix, given, isFree, taken⟩
  simp only [takeName, given]
  rw [Bool.eq_false_iff, ne_eq, isTaken_iff] at isFree
  simp only [isTaken_iff] at taken
  refine ⟨isFree, ?_⟩
  cases suffix with
  | zero => exact .inl rfl
  | succ suffix =>
      refine .inr ⟨taken 0 (Nat.succ_pos suffix), suffix + 1, Nat.succ_pos suffix, rfl, ?_⟩
      intro smaller positive less
      obtain ⟨smaller, rfl⟩ := Nat.exists_eq_succ_of_ne_zero (Nat.pos_iff_ne_zero.mp positive)
      exact taken (smaller + 1) less

theorem mem_takenNames_takeName {form : String} :
    form ∈ (graph.takeName name).2.takenNames ↔
      form ∈ graph.takenNames ∨ form = Text.lowerCase (graph.takeName name).1 := by
  simp only [takeName, Std.HashSet.mem_insert, beq_iff_eq, eq_comm (a := form), or_comm]

/-- Takes a name for each of several requests in turn. -/
def takeNames (graph : Graph) : List String → List String × Graph
  | [] => ([], graph)
  | name :: names =>
      let others := (graph.takeName name).2.takeNames names
      ((graph.takeName name).1 :: others.1, others.2)

/-- Behind several requests those names are taken that were taken before, and those that have been
handed out. -/
theorem mem_takenNames_takeNames {names : List String} {form : String} :
    form ∈ (graph.takeNames names).2.takenNames ↔
      form ∈ graph.takenNames ∨ form ∈ (graph.takeNames names).1.map Text.lowerCase := by
  induction names generalizing graph with
  | nil => simp [takeNames]
  | cons name names ih => simp [takeNames, ih, mem_takenNames_takeName, or_assoc]

/-- Each of several requests is answered with regard to the names taken before all of them and those
handed out since. -/
theorem handedOut_takeNames (graph : Graph) (earlier : List String) (name : String) :
    HandedOut
      (fun form => form ∈ graph.takenNames ∨
        form ∈ (graph.takeNames earlier).1.map Text.lowerCase)
      name ((graph.takeNames earlier).2.takeName name).1 := by
  have answered := (graph.takeNames earlier).2.handedOut_takeName name
  simpa only [mem_takenNames_takeNames] using answered

/-! ### Names of declarations -/

/-- The page names in a graph are taken, and no two of them have the same lower-case form. -/
structure NamesApart (graph : Graph) : Prop where
  taken : ∀ id name, (graph.decl id).pageName? = some name → graph.isTaken name = true
  apart : ∀ left right leftName rightName, left ≠ right →
    (graph.decl left).pageName? = some leftName → (graph.decl right).pageName? = some rightName →
      Text.lowerCase leftName ≠ Text.lowerCase rightName

/-- A name is taken, but no declaration has it yet. -/
structure Reserved (graph : Graph) (fileName : String) : Prop where
  taken : graph.isTaken fileName = true
  unused : ∀ id name, (graph.decl id).pageName? = some name →
    Text.lowerCase name ≠ Text.lowerCase fileName

/-- A graph in which nothing is declared has no page names that could meet. -/
theorem namesApart_ofFiles (files : List SourceFile) : (ofFiles files).NamesApart := by
  have unnamed (id : DeclId) : ((ofFiles files).decl id).pageName? = none := by
    rw [decl_of_size_le (Nat.zero_le _)]
    rfl
  constructor
  · intro id name isName
    simp [unnamed] at isName
  · intro left right leftName rightName _ isName
    simp [unnamed] at isName

section Steps

variable (kept : Keeps Decl.pageName? before after) (same : after.takenNames = before.takenNames)

include kept same

theorem NamesApart.of_keeps (names : before.NamesApart) : after.NamesApart := by
  constructor
  · intro id name isName
    rw [kept] at isName
    simpa only [isTaken, same] using names.taken id name isName
  · intro left right leftName rightName other isLeft isRight
    rw [kept] at isLeft isRight
    exact names.apart left right leftName rightName other isLeft isRight

end Steps

/-- Taking a name reserves it: it is free of all page names there are, since these are taken, and it
is taken from now on. -/
theorem NamesApart.takeName (names : graph.NamesApart) (name : String) :
    (graph.takeName name).2.NamesApart ∧
      (graph.takeName name).2.Reserved (graph.takeName name).1 := by
  have isFree := (graph.handedOut_takeName name).isFree
  have unused : ∀ id other, (graph.decl id).pageName? = some other →
      Text.lowerCase other ≠ Text.lowerCase (graph.takeName name).1 := by
    intro id other isName same
    apply isFree
    rw [← same]
    exact isTaken_iff.mp (names.taken id other isName)
  refine ⟨⟨?_, names.apart⟩, ⟨?_, unused⟩⟩
  · intro id other isName
    exact isTaken_iff.mpr (mem_takenNames_takeName.mpr
      (.inl (isTaken_iff.mp (names.taken id other isName))))
  · exact isTaken_iff.mpr (mem_takenNames_takeName.mpr (.inr rfl))

/-- A name that is handed out is not the one that was reserved before. -/
theorem Reserved.takeName (reserved : graph.Reserved fileName) (name : String) :
    (graph.takeName name).2.Reserved fileName ∧
      Text.lowerCase (graph.takeName name).1 ≠ Text.lowerCase fileName := by
  refine ⟨⟨?_, reserved.unused⟩, ?_⟩
  · exact isTaken_iff.mpr (mem_takenNames_takeName.mpr (.inl (isTaken_iff.mp reserved.taken)))
  · intro same
    apply (graph.handedOut_takeName name).isFree
    rw [same]
    exact isTaken_iff.mp reserved.taken

/-- A name stays reserved if the declaration that is added has another one. -/
theorem Reserved.push (reserved : before.Reserved fileName) {decl : Decl}
    (given : decl.pageName? = some name)
    (other : Text.lowerCase name ≠ Text.lowerCase fileName)
    (decls : after.decls = before.decls.push decl) (same : after.takenNames = before.takenNames) :
    after.Reserved fileName := by
  constructor
  · simpa only [isTaken, same] using reserved.taken
  · intro id used isName
    rw [decl_of_push decls] at isName
    split at isName
    · rwa [← Option.some.inj (given.symm.trans isName)]
    · exact reserved.unused id used isName

/-- A declaration is added under the name that was reserved for it. The name was taken by then and
nobody had it, so it differs from every other one. -/
theorem NamesApart.give (names : before.NamesApart) (reserved : before.Reserved fileName)
    {decl : Decl} (named : decl.pageName? = some fileName)
    (decls : after.decls = before.decls.push decl) (same : after.takenNames = before.takenNames) :
    after.NamesApart := by
  have shown (id : DeclId) : (after.decl id).pageName? =
      if id = before.nextId then some fileName else (before.decl id).pageName? := by
    rw [decl_of_push decls]
    split
    · exact named
    · rfl
  constructor
  · intro id name isName
    simp only [isTaken, same]
    rw [shown] at isName
    split at isName
    · rw [← Option.some.inj isName]
      exact reserved.taken
    · exact names.taken id name isName
  · intro left right leftName rightName other isLeft isRight
    rw [shown] at isLeft isRight
    split at isLeft
    · next newest =>
        rw [if_neg (fun same => other (newest.trans same.symm))] at isRight
        rw [← Option.some.inj isLeft]
        exact (reserved.unused right rightName isRight).symm
    · split at isRight
      · rw [← Option.some.inj isRight]
        exact reserved.unused left leftName isLeft
      · exact names.apart left right leftName rightName other isLeft isRight

/-! ### Recording -/

/-- Declarations without pages may be added behind the others without changing any page name. -/
theorem keeps_pageName?_of_append {decls : Array Decl}
    (appended : after.decls = before.decls ++ decls)
    (unnamed : ∀ decl ∈ decls, decl.pageName? = none) : Keeps Decl.pageName? before after := by
  intro id
  simp only [decl, appended, Array.getD_eq_getD_getElem?, Array.getElem?_append]
  split
  · rfl
  · next outside =>
      have none : before.decls[id]? = none := by simpa using outside
      cases found : decls[id - before.decls.size]? with
      | none => simp [none]
      | some decl =>
          simp only [Option.getD_some, none, Option.getD_none]
          exact unnamed decl (Array.mem_of_getElem? found)

theorem keeps_pageName?_of_push {decl : Decl} (decls : after.decls = before.decls.push decl)
    (unnamed : decl.pageName? = none) : Keeps Decl.pageName? before after := by
  have appended : after.decls = before.decls ++ #[decl] := by
    rw [decls, Array.push_eq_append]
  apply keeps_pageName?_of_append appended
  simpa using unnamed

theorem pageName?_mapProduction {change : ProductionDecl → ProductionDecl}
    (sameBody : ∀ details, (change details).body.fileName = details.body.fileName) (decl : Decl) :
    (decl.mapProduction change).pageName? = decl.pageName? := by
  rcases decl with ⟨_, _, _, kind⟩
  cases kind with
  | production details => exact congrArg some (sameBody details)
  | _ => rfl

theorem pageName?_mapBody {change : Body → Body}
    (sameName : ∀ body, (change body).fileName = body.fileName) (decl : Decl) :
    (decl.mapBody change).pageName? = decl.pageName? := by
  rcases decl with ⟨_, _, _, kind⟩
  cases kind with
  | classDecl details => exact congrArg some (sameName details.block.body)
  | objectDecl details => exact congrArg some (sameName details.block.body)
  | production details => exact congrArg some (sameName details.body)
  | _ => rfl

/-- A name that is reserved for a class stays so while the production of the class is required, as
that one takes another name. -/
theorem Reserved.requireProduction (reserved : graph.Reserved fileName) (name : String)
    (location : Location) : (graph.requireProduction name location).2.Reserved fileName := by
  rw [Graph.requireProduction]
  split
  · exact reserved
  · have taken := reserved.takeName name
    exact taken.1.push rfl taken.2 rfl rfl

namespace NamesApart

theorem requireProduction (names : graph.NamesApart) (name : String) (location : Location) :
    (graph.requireProduction name location).2.NamesApart := by
  rw [Graph.requireProduction]
  split
  · exact names
  · have taken := names.takeName name
    exact taken.1.give taken.2 rfl rfl rfl

/-- A class takes its name first and is added last. The production that comes in between takes one
that is different, because the name of the class is reserved by then. -/
theorem recordClass (names : graph.NamesApart) (index : Nat) (name description : String)
    (location : Location) (head : ClassHead) :
    (graph.recordClass index name description location head).NamesApart := by
  have taken := names.takeName name
  rcases takes : graph.takeName name with ⟨fileName, named⟩
  simp only [takes] at taken
  simp only [Graph.recordClass, takes]
  split
  · exact taken.1.give taken.2 rfl rfl rfl
  · have joins := taken.1.requireProduction (productionName name) location
    have reserved := taken.2.requireProduction (productionName name) location
    rcases requires : named.requireProduction (productionName name) location
      with ⟨production, joined⟩
    simp only [requires] at joins reserved
    refine NamesApart.of_keeps (Keeps.modifyDecl ?_ _ production) rfl
      (joins.give reserved ?_ rfl rfl)
    · exact pageName?_mapProduction fun _ => rfl
    · rfl

theorem recordObject (names : graph.NamesApart) (index : Nat) (name description : String)
    (location : Location) (head : ObjectHead) :
    (graph.recordObject index name description location head).NamesApart := by
  have taken := names.takeName name
  exact taken.1.give taken.2 rfl rfl rfl

theorem addMember (names : graph.NamesApart) (owner : DeclId) (kind : MemberKind) {decl : Decl}
    (unnamed : decl.pageName? = none) : (graph.addMember owner kind decl).NamesApart := by
  have pushed : (graph.addDecl decl).NamesApart :=
    names.of_keeps (keeps_pageName?_of_push rfl unnamed) rfl
  apply pushed.of_keeps (Keeps.modifyDecl _ _ owner) rfl
  apply pageName?_mapBody
  intro body
  cases kind <;> rfl

/-- Only classes, objects and productions take names, and each does so before it is added.
Everything else has no page. -/
theorem declare {state : Recording} (names : state.graph.NamesApart) (index : Nat)
    (name description : String) (location : Location) (declared : Declared) :
    (state.declare index name description location declared).graph.NamesApart := by
  cases declared with
  | classBlock head => exact names.recordClass index name description location head
  | objectBlock head => exact names.recordObject index name description location head
  | property interfaceOnly =>
      simp only [Recording.declare]
      split
      · exact names
      · exact names.addMember _ .property rfl
  | method parameters interfaceOnly =>
      simp only [Recording.declare]
      split
      · exact names
      · exact names.addMember _ .method rfl
  | _ => exact names.of_keeps (keeps_pageName?_of_push rfl rfl) rfl

/-- No entry brings two pages together. -/
theorem add {state : Recording} (names : state.graph.NamesApart) (index : Nat)
    (shortName : String) (entry : Entry) : (state.add index shortName entry).graph.NamesApart := by
  cases entry with
  | fileDescription text => exact names.of_keeps (Keeps.refl _ state.graph) rfl
  | declaration name description line declared => exact names.declare ..
  | enumGroup description line members =>
      refine NamesApart.of_keeps (keeps_pageName?_of_append rfl ?_) rfl names
      intro decl isConstant
      simp only [List.mem_toArray, List.mem_map] at isConstant
      rcases isConstant with ⟨name, _, rfl⟩
      rfl

theorem record (names : graph.NamesApart) (index : Nat) (entries : List Entry) :
    (graph.record index entries).NamesApart := by
  rw [Graph.record]
  apply List.foldlRecOn (motive := fun state : Recording => state.graph.NamesApart) entries _ names
  intro state names entry _
  exact names.add index _ entry

end NamesApart

/-! ### Linking -/

/-- Finishing files takes no names. -/
theorem takenNames_finishFiles (graph : Graph) :
    graph.finishFiles.takenNames = graph.takenNames := by
  have sorting (groups : List GroupId) (graph : Graph) :
      (groups.foldl sortGroup graph).takenNames = graph.takenNames := by
    induction groups generalizing graph with
    | nil => rfl
    | cons group groups ih => exact ih _
  rw [finishFiles]
  generalize List.range graph.files.length = indices
  induction indices generalizing graph with
  | nil => rfl
  | cons index indices ih => exact (ih _).trans (sorting (graph.file index).enumGroups graph)

theorem SameLists.takenNames (same : SameLists before after) :
    after.takenNames = before.takenNames := by
  rcases same with ⟨decls, size, rfl⟩
  rfl

theorem takenNames_link (graph : Graph) : graph.link.takenNames = graph.takenNames := by
  have finished (graph : Graph) : graph.finishEnums.takenNames = graph.takenNames := rfl
  have sorted (graph : Graph) : graph.sortCollections.takenNames = graph.takenNames := rfl
  rw [link, finished, (sameLists_markOverrides _).takenNames, takenNames_finishFiles,
    (sameLists_sortHolders _).takenNames, (sameLists_gatherProductions _).takenNames,
    (sameLists_linkAllBases _).takenNames, (sameLists_mergeModifications _).takenNames, sorted]

theorem keeps_pageName?_gatherProductions (graph : Graph) :
    Keeps Decl.pageName? graph graph.gatherProductions := by
  apply Keeps.foldl
  intro graph id
  apply Keeps.modifyDecl
  exact pageName?_mapProduction fun _ => rfl

/-- Linking gives `modify` blocks the page names of their targets, and no other declaration a new
one. -/
theorem keeps_pageName?_link (graph : Graph) : Keeps Decl.pageName? graph graph.link := by
  have sorted : Keeps Decl.pageName? graph graph.sortCollections := Keeps.refl _ _
  rw [link]
  apply sorted.trans
  apply (keeps_mergeModifications _ _).trans
  · apply (keeps_linkAllBases _ _).trans
    · apply (keeps_pageName?_gatherProductions _).trans
      apply (keeps_sortHolders _ _).trans
      · apply (keeps_finishFiles _).trans
        apply (keeps_markOverrides _ _).trans
        · exact keeps_finishEnums _
        · rintro ⟨_, _, _, kind⟩
          cases kind <;> rfl
      · rintro sort ⟨_, _, _, kind⟩
        cases kind <;> rfl
    · rintro change isChange ⟨_, _, _, kind⟩
      cases isChange with
      | heir heir heirIsClass => cases heirIsClass <;> cases kind <;> rfl
      | resolve resolve => cases kind <;> rfl
  · rintro change isChange ⟨_, _, _, kind⟩
    cases isChange with
    | offer isOffer =>
        cases isOffer with
        | member kind id => exact pageName?_mapBody (fun _ => by cases kind <;> rfl) _
        | note location id => cases kind <;> rfl
    | blockNote location id => cases kind <;> rfl
    | target target fileName => cases kind <;> rfl

theorem NamesApart.link (names : graph.NamesApart) : graph.link.NamesApart :=
  names.of_keeps (keeps_pageName?_link graph) (takenNames_link graph)

theorem namesApart_run (files : List SourceFile) (steps : List SessionStep) :
    ((ofFiles files).run steps).NamesApart := by
  apply List.foldlRecOn steps perform (namesApart_ofFiles files)
  intro graph names step _
  cases step with
  | read reading => exact names.record reading.index _
  | link => exact names.link

/-! ### Pages -/

/-- The declarations that have pages of their own, in the order in which the pages are written. -/
def paged (graph : Graph) : List DeclId :=
  graph.classes ++ graph.objects ++ graph.productions

theorem page?_of_pageName? {id : DeclId} (named : (graph.decl id).pageName? = some name) :
    graph.page? id = some (Page.objectDirectory ++ "/" ++ name) := by
  rcases shown : graph.decl id with ⟨_, _, _, kind⟩
  rw [shown] at named
  cases kind <;>
    simp_all [Decl.pageName?, page?, blockPage?, Decl.ownPage?, Page.ofBody]

theorem isSome_pageName?_iff {decl : Decl} :
    decl.pageName?.isSome = true ↔
      decl.kindLabel = "class" ∨ decl.kindLabel = "object" ∨ decl.kindLabel = "grammar" := by
  rcases decl with ⟨_, _, _, kind⟩
  cases kind <;> simp [Decl.pageName?, Decl.kindLabel]

/-- The pages that are written for declarations are those of the declarations that have a page
name. -/
theorem Complete.mem_paged (complete : graph.Complete) {id : DeclId} :
    id ∈ graph.paged ↔ ∃ name, (graph.decl id).pageName? = some name := by
  have classes := complete.mem_iff .classes id
  have objects := complete.mem_iff .objects id
  have productions := complete.mem_iff .productions id
  simp only [listed, Listing.label] at classes objects productions
  rw [paged, List.mem_append, List.mem_append, classes, objects, productions,
    ← Option.isSome_iff_exists, isSome_pageName?_iff]
  constructor
  · rintro ((⟨_, label⟩ | ⟨_, label⟩) | ⟨_, label⟩) <;> simp [label]
  · intro labels
    have inside : id < graph.decls.size := by
      apply lt_size_of_decl_ne
      intro outside
      simp [outside, default, Decl.kindLabel] at labels
    rcases labels with label | label | label <;> simp [inside, label]

/-- No declaration has its page written twice, for the lists of the three kinds have no declaration
in common. -/
theorem Complete.nodup_paged (complete : graph.Complete) : graph.paged.Nodup := by
  have other (first second : Listing) (labels : first.label ≠ second.label) :
      (graph.listed first).Disjoint (graph.listed second) := by
    intro id isFirst isSecond
    apply labels
    exact ((complete.mem_iff _ _).mp isFirst).2.symm.trans ((complete.mem_iff _ _).mp isSecond).2
  have blocks : (graph.classes ++ graph.objects).Nodup :=
    (complete.nodup .classes).append (complete.nodup .objects)
      (other .classes .objects (by decide))
  apply blocks.append (complete.nodup .productions)
  rw [List.disjoint_append_left]
  exact ⟨other .classes .productions (by decide), other .objects .productions (by decide)⟩

/-- The declarations with pages of their own are the classes, objects and productions. Their names
differ in more than the case of letters, and so no two of them share a page. -/
structure PagesApart (graph : Graph) : Prop where
  listed : ∀ id, id ∈ graph.paged ↔ (graph.decl id).kindLabel = "class" ∨
    (graph.decl id).kindLabel = "object" ∨ (graph.decl id).kindLabel = "grammar"
  named : ∀ id ∈ graph.paged, ∃ name, (graph.decl id).pageName? = some name ∧
    graph.page? id = some (Page.objectDirectory ++ "/" ++ name)
  apart : ∀ left ∈ graph.paged, ∀ right ∈ graph.paged, left ≠ right → ∀ leftName rightName,
    (graph.decl left).pageName? = some leftName → (graph.decl right).pageName? = some rightName →
      Text.lowerCase leftName ≠ Text.lowerCase rightName
  pages : (graph.paged.map graph.page?).Nodup

/-- Different declarations with pages of their own are written to different places, also where names
differ only in the case of letters. -/
theorem NamesApart.pagesApart (names : graph.NamesApart) (complete : graph.Complete) :
    graph.PagesApart := by
  have named : ∀ id ∈ graph.paged, ∃ name, (graph.decl id).pageName? = some name ∧
      graph.page? id = some (Page.objectDirectory ++ "/" ++ name) := by
    intro id isPaged
    rcases complete.mem_paged.mp isPaged with ⟨name, isName⟩
    exact ⟨name, isName, page?_of_pageName? isName⟩
  constructor
  · intro id
    rw [complete.mem_paged, ← Option.isSome_iff_exists, isSome_pageName?_iff]
  · exact named
  · intro left _ right _ other leftName rightName
    exact names.apart left right leftName rightName other
  · apply complete.nodup_paged.map_on
    intro left isLeft right isRight same
    by_contra other
    rcases named left isLeft with ⟨leftName, leftNamed, leftPage⟩
    rcases named right isRight with ⟨rightName, rightNamed, rightPage⟩
    apply names.apart left right leftName rightName other leftNamed rightNamed
    rw [leftPage, rightPage, Option.some.injEq, String.append_right_inj] at same
    rw [same]

/-- After any session, no two classes, objects or productions have names that differ in the case of
letters only. The names come from an allocator that hands out the first free one each time, whatever
has been asked of it before. They are apart because no candidate is handed out whose lower-case form
has been taken. -/
theorem pagesApart_of_session (files : List SourceFile) (steps : List SessionStep) :
    ((ofFiles files).run steps).PagesApart ∧
      ∀ (graph : Graph) (earlier : List String) (name : String),
        HandedOut
          (fun form => form ∈ graph.takenNames ∨
            form ∈ (graph.takeNames earlier).1.map Text.lowerCase)
          name ((graph.takeNames earlier).2.takeName name).1 := by
  constructor
  · exact (namesApart_run files steps).pagesApart (complete_run files steps)
  · exact handedOut_takeNames

end Graph

end TadsReference
