import TadsReference.Proofs.Graph.Members
import TadsReference.Proofs.Graph.Walk

/-!
# Overriding members

A member overrides an inherited one if a superclass of the class or object that holds it has a
member of its kind and name. Superclasses are reached along bases that are classes, in any number of
steps; in a cycle a class reaches itself, but is never its own superclass.
-/

namespace TadsReference.Graph

open Relation

variable {graph before after : Graph} {id base ancestor member : DeclId} {kind : MemberKind}
  {name : String}

/-- A class is a base of a declaration. -/
def ClassBase (graph : Graph) (id base : DeclId) : Prop :=
  .decl base ∈ (graph.decl id).bases ∧ (graph.decl base).isClass = true

/-- The resolved bases of a declaration are the references in its base list, without the names that
nothing has. -/
theorem mem_resolvedBases :
    base ∈ graph.resolvedBases id ↔ .decl base ∈ (graph.decl id).bases := by
  simp only [resolvedBases, List.mem_filterMap]
  constructor
  · rintro ⟨reference, isBase, resolves⟩
    cases reference with
    | name name => contradiction
    | decl other => rwa [← Option.some.inj resolves]
  · intro isBase
    exact ⟨.decl base, isBase, rfl⟩

theorem mem_classBases : base ∈ graph.classBases id ↔ graph.ClassBase id base := by
  rw [classBases, List.mem_filter, mem_resolvedBases, ClassBase]

/-- The superclasses of a declaration are the other classes that paths along classes lead to. -/
theorem mem_superclasses_iff :
    ancestor ∈ graph.superclasses id ↔ ancestor ≠ id ∧ TransGen graph.ClassBase id ancestor := by
  have bounded (source target : DeclId) (isBase : target ∈ graph.classBases source) :
      target < graph.decls.size :=
    lt_size_of_view rfl (mem_classBases.mp isBase).2
  rw [superclasses, Walk.mem_preorder_start_iff bounded]
  simp only [mem_classBases]

/-- A superclass of a declaration has a member of a kind and a name. -/
def Inherits (graph : Graph) (id : DeclId) (kind : MemberKind) (name : String) : Prop :=
  ∃ ancestor, ancestor ≠ id ∧ TransGen graph.ClassBase id ancestor ∧
    ∃ member ∈ (graph.decl ancestor).members kind, graph.name member = name

/-- The check for an inherited member goes through the superclasses and looks for its name among the
members of each. -/
theorem inheritsMember_iff :
    graph.inheritsMember id name kind = true ↔ graph.Inherits id kind name := by
  have found (ancestor : DeclId) : (graph.findMember? ancestor name kind).isSome = true ↔
      ∃ member ∈ (graph.decl ancestor).members kind, graph.name member = name := by
    simp [findMember?, findNamed?]
  simp only [inheritsMember, List.any_eq_true, found, mem_superclasses_iff, Inherits, and_assoc]

/-- The members that are to be marked are those of classes and objects that inherit a member of
their kind and name, whichever block they are found in. -/
theorem mem_allOverridingMembers :
    member ∈ graph.allOverridingMembers ↔
      ∃ id ∈ graph.classes ++ graph.objects, ∃ kind,
        member ∈ (graph.decl id).members kind ∧ graph.Inherits id kind (graph.name member) := by
  have overriding (id : DeclId) (kind : MemberKind) :
      member ∈ graph.overridingMembers id kind ↔
        member ∈ (graph.decl id).members kind ∧ graph.Inherits id kind (graph.name member) := by
    rw [overridingMembers, List.mem_filter, inheritsMember_iff]
  rw [allOverridingMembers, List.mem_flatMap]
  apply exists_congr
  intro id
  apply and_congr_right
  intro _
  rw [List.mem_append, overriding, overriding]
  constructor
  · rintro (isMethod | isProperty)
    · exact ⟨.method, isMethod⟩
    · exact ⟨.property, isProperty⟩
  · rintro ⟨kind, isMember⟩
    cases kind with
    | method => exact .inl isMember
    | property => exact .inr isMember

/-! ### Marking -/

/-- The graph whose overriding members are marked when it is linked. -/
def finished (graph : Graph) : Graph :=
  graph.gathered.sortHolders.finishFiles

theorem link_eq_finishEnums (graph : Graph) :
    graph.link = graph.finished.markOverrides.finishEnums := by
  unfold link finished gathered
  rfl

theorem decl_link (graph : Graph) (id : DeclId) :
    graph.link.decl id = if id ∈ graph.finished.allOverridingMembers then
      (graph.finished.decl id).marked else graph.finished.decl id := by
  rw [link_eq_finishEnums, decl_of_decls_eq (decls_finishEnums _), decl_markOverrides]

theorem keeps_link_of_finished {Value : Type} {view : Decl → Value}
    (marks : ∀ decl, view (Decl.marked decl) = view decl) (graph : Graph) :
    Keeps view graph.finished graph.link :=
  (keeps_markOverrides marks graph.finished).trans (keeps_finishEnums _)

theorem keeps_head_finished (graph : Graph) : Keeps Decl.head graph.finished graph.link := by
  apply keeps_link_of_finished
  rintro ⟨_, _, _, shape⟩
  cases shape <;> rfl

theorem keeps_members_finished (graph : Graph) (kind : MemberKind) :
    Keeps (Decl.members · kind) graph.finished graph.link := by
  apply keeps_link_of_finished
  intro decl
  exact Decl.members_mapMember decl _ kind

/-- Marking changes neither members nor bases, so it makes no difference whether a member is looked
for before or after it. -/
theorem inherits_link (graph : Graph) :
    graph.link.Inherits id kind name ↔ graph.finished.Inherits id kind name := by
  have head := keeps_head_finished graph
  have bases : Keeps Decl.bases graph.finished graph.link := by
    apply keeps_link_of_finished
    rintro ⟨_, _, _, shape⟩
    cases shape <;> rfl
  have members := keeps_members_finished graph kind
  have classBase : graph.link.ClassBase = graph.finished.ClassBase := by
    funext source target
    rw [ClassBase, ClassBase, bases, head.isClass]
  simp only [Inherits, classBase, head.name]
  apply exists_congr
  intro ancestor
  have same := members ancestor
  simp only at same
  rw [same]

/-- Nothing is marked before the marking, since no other step of linking, nor reading, marks a
member. -/
theorem overridden_finished (unlinked : graph.Unlinked) (id : DeclId) :
    (graph.finished.decl id).overridden = false := by
  have merged : Keeps Decl.overridden graph.sortCollections
      graph.sortCollections.mergeModifications := by
    apply keeps_mergeModifications
    rintro change isChange ⟨_, _, _, shape⟩
    cases isChange with
    | offer isOffer => cases isOffer <;> cases shape <;> rfl
    | blockNote location id => cases shape <;> rfl
    | target target fileName => cases shape <;> rfl
  have linked : Keeps Decl.overridden graph.sortCollections.mergeModifications graph.gathered := by
    apply (keeps_linkAllBases _ _).trans (keeps_gatherProductions _ _)
    · rintro change isChange ⟨_, _, _, shape⟩
      cases isChange <;> cases shape <;> rfl
    · rintro change ⟨_, _, _, shape⟩
      cases shape <;> rfl
  have sorted : Keeps Decl.overridden graph.gathered graph.finished := by
    apply (keeps_sortHolders _ _).trans (keeps_finishFiles _)
    rintro sort ⟨_, _, _, shape⟩
    cases shape <;> rfl
  rw [((merged.trans linked).trans sorted) id, decl_sortCollections]
  exact (unlinked.decls id).overridden

theorem overridden_marked (decl : Decl) : decl.marked.overridden = decl.member?.isSome := by
  rcases decl with ⟨_, _, _, shape⟩
  cases shape <;> rfl

/-- A member is marked in the linked graph if and only if it has been found to override another
one. -/
theorem overridden_link (unlinked : graph.Unlinked) :
    (graph.link.decl member).overridden = true ↔
      (graph.link.decl member).memberKind?.isSome = true ∧
        member ∈ graph.finished.allOverridingMembers := by
  rw [(keeps_head_finished graph).memberKind?, decl_link]
  split
  · next overrides => simp [overridden_marked, Decl.isSome_member?, overrides]
  · next ordinary => simp [overridden_finished unlinked, ordinary]

/-! ### The full account -/

/-- What linking makes of the marks of overriding members. -/
structure OverridesMarked (linked : Graph) : Prop where
  overridden : ∀ member kind, (linked.decl member).memberKind? = some kind →
    ((linked.decl member).overridden = true ↔
      ∃ id, (linked.decl id).isBlock = true ∧ member ∈ (linked.decl id).members kind ∧
        linked.Inherits id kind (linked.name member))
  home : ∀ id kind, (linked.decl id).isBlock = true → ∀ member ∈ (linked.decl id).members kind,
    (linked.decl member).memberKind? = some kind ∧
      ((linked.decl member).overridden = true ↔ linked.Inherits id kind (linked.name member))
  others : ∀ id, (linked.decl id).memberKind? = none → (linked.decl id).overridden = false

section Unlinked

variable (unlinked : graph.Unlinked)

include unlinked

theorem mem_blocks_finished :
    id ∈ graph.finished.classes ++ graph.finished.objects ↔
      (graph.link.decl id).isBlock = true := by
  have listed (listing : Listing) :
      graph.finished.listed listing = graph.sortCollections.listed listing := by
    rw [finished, (decls_finishFiles _).2, (sameLists_sortHolders _).listed, listed_gathered]
  have classes := listed .classes
  have objects := listed .objects
  simp only [Graph.listed] at classes objects
  rw [classes, objects, classes_sortCollections, objects_sortCollections, List.mem_append,
    mem_sorted, mem_sorted, ← List.mem_append, unlinked.mem_blocks, (keeps_head_link graph).isBlock]

theorem mem_allOverridingMembers_finished :
    member ∈ graph.finished.allOverridingMembers ↔
      ∃ id, (graph.link.decl id).isBlock = true ∧ ∃ kind,
        member ∈ (graph.link.decl id).members kind ∧
          graph.link.Inherits id kind (graph.link.name member) := by
  have members (id : DeclId) (kind : MemberKind) : (graph.link.decl id).members kind =
      (graph.finished.decl id).members kind := keeps_members_finished graph kind id
  simp only [mem_allOverridingMembers, mem_blocks_finished unlinked, inherits_link, members,
    (keeps_head_finished graph).name]

theorem memberKind?_of_mem_link (isBlock : (graph.link.decl id).isBlock = true)
    (isMember : member ∈ (graph.link.decl id).members kind) :
    (graph.link.decl member).memberKind? = some kind := by
  have head := keeps_head_link graph
  rw [head.isBlock] at isBlock
  rw [members_link_of_isBlock unlinked isBlock, mem_sorted] at isMember
  rw [head.memberKind?]
  exact (mem_mergedMembers_cases unlinked isMember).1

theorem home_link_unique {other : DeclId} {otherKind : MemberKind}
    (isBlock : (graph.link.decl id).isBlock = true)
    (otherBlock : (graph.link.decl other).isBlock = true)
    (isMember : member ∈ (graph.link.decl id).members kind)
    (isOther : member ∈ (graph.link.decl other).members otherKind) :
    other = id ∧ otherKind = kind := by
  have head := keeps_head_link graph
  rw [head.isBlock] at isBlock otherBlock
  rw [members_link_of_isBlock unlinked isBlock, mem_sorted] at isMember
  rw [members_link_of_isBlock unlinked otherBlock, mem_sorted] at isOther
  exact home_unique unlinked otherBlock isBlock isOther isMember

/-- A member is marked just when the block in which it stands inherits one of its name. -/
theorem overridden_link_iff (kindOf : (graph.link.decl member).memberKind? = some kind) :
    (graph.link.decl member).overridden = true ↔
      ∃ id, (graph.link.decl id).isBlock = true ∧ member ∈ (graph.link.decl id).members kind ∧
        graph.link.Inherits id kind (graph.link.name member) := by
  rw [overridden_link unlinked, kindOf, mem_allOverridingMembers_finished unlinked]
  constructor
  · rintro ⟨_, id, isBlock, otherKind, isMember, inherits⟩
    have otherKindOf := memberKind?_of_mem_link unlinked isBlock isMember
    obtain rfl : kind = otherKind := Option.some.inj (kindOf.symm.trans otherKindOf)
    exact ⟨id, isBlock, isMember, inherits⟩
  · rintro ⟨id, isBlock, isMember, inherits⟩
    exact ⟨rfl, id, isBlock, kind, isMember, inherits⟩

/-- The one block in which a member stands decides whether it is marked, and a member that stands in
none is not marked. -/
theorem Unlinked.overridesMarked : graph.link.OverridesMarked where
  overridden _ _ := overridden_link_iff unlinked
  home id kind isBlock member isMember := by
    have kindOf := memberKind?_of_mem_link unlinked isBlock isMember
    refine ⟨kindOf, ?_⟩
    rw [overridden_link_iff unlinked kindOf]
    constructor
    · rintro ⟨other, otherBlock, isOther, inherits⟩
      obtain ⟨rfl, _⟩ := home_link_unique unlinked isBlock otherBlock isMember isOther
      exact inherits
    · intro inherits
      exact ⟨id, isBlock, isMember, inherits⟩
  others id noKind := by
    apply Bool.eq_false_iff.mpr
    intro isMarked
    rw [overridden_link unlinked, noKind] at isMarked
    exact absurd isMarked.1 (by simp)

end Unlinked

/-- Whatever files are read, linking marks exactly the members that override inherited ones. A graph
that is read from files has not been linked, so none of its members has been marked before. -/
theorem link_marksOverrides (files : List SourceFile) (readings : List FileReading) :
    ((ofFiles files).readAll readings).link.OverridesMarked :=
  (unlinked_readAll files readings).overridesMarked

end TadsReference.Graph
