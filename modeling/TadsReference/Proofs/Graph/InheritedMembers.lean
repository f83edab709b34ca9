import Mathlib.Data.List.Induction
import TadsReference.Proofs.Graph.DepthFirst
import TadsReference.Proofs.Graph.InheritedViews
import TadsReference.Proofs.Graph.Sessions

/-!
# Inherited members

A declaration inherits a member under the first of its ancestors that has one of that name, where
the ancestors stand as a walk along the bases comes to them. A name that the declaration has itself
is not inherited. `inheritsInOrder_of_session` says so for each name at once: whether it is shown,
under which ancestor, and that it is shown once.
-/

namespace TadsReference.Graph

open Relation

variable {graph : Graph} {id holder : DeclId} {kind : MemberKind} {name : String}
  {seen : List String} {ancestors members order : List DeclId}
  {groups : List (DeclId × List DeclId)}

theorem hasMember_iff :
    graph.HasMember id kind name ↔ name ∈ ((graph.decl id).members kind).map graph.name :=
  List.mem_map.symm

/-- Of the declarations in an order, one is the first to have a member of a kind and a name. -/
def FirstHolder (graph : Graph) (order : List DeclId) (kind : MemberKind) (name : String)
    (holder : DeclId) : Prop :=
  ∃ before after, order = before ++ holder :: after ∧ graph.HasMember holder kind name ∧
    ∀ other ∈ before, ¬graph.HasMember other kind name

theorem FirstHolder.head (hasMember : graph.HasMember holder kind name) :
    graph.FirstHolder (holder :: order) kind name holder :=
  ⟨[], order, rfl, hasMember, by simp⟩

theorem FirstHolder.cons {other : DeclId} (lacks : ¬graph.HasMember other kind name)
    (first : graph.FirstHolder order kind name holder) :
    graph.FirstHolder (other :: order) kind name holder := by
  rcases first with ⟨before, after, rfl, hasMember, none⟩
  exact ⟨other :: before, after, rfl, hasMember, List.forall_mem_cons.mpr ⟨lacks, none⟩⟩

/-- A member of a kind and a name is shown in some group. -/
def Shows (graph : Graph) (groups : List (DeclId × List DeclId)) (name : String) : Prop :=
  ∃ group ∈ groups, ∃ member ∈ group.2, graph.name member = name

/-! ### The members of one ancestor -/

/-- Takes a member up unless its name counts no more, and then the name counts no more. -/
def takeFresh (graph : Graph) (found : List DeclId × List String) (member : DeclId) :
    List DeclId × List String :=
  if found.2.contains (graph.name member) then found
  else (found.1 ++ [member], graph.name member :: found.2)

/-- Of the members of a list those have been taken up that show a name for the first time. -/
structure Fresh (graph : Graph) (seen : List String) (members : List DeclId)
    (found : List DeclId × List String) : Prop where
  sublist : found.1.Sublist members
  nodup : (found.1.map graph.name).Nodup
  names : ∀ name, name ∈ found.1.map graph.name ↔ name ∉ seen ∧ name ∈ members.map graph.name
  seen : ∀ name, name ∈ found.2 ↔ name ∈ seen ∨ name ∈ members.map graph.name

section Fresh

variable {found : List DeclId × List String} {member : DeclId}

theorem Fresh.empty (graph : Graph) (seen : List String) : graph.Fresh seen [] ([], seen) :=
  ⟨.refl _, .nil, by simp, by simp⟩

/-- A member whose name counts no more is passed over. -/
theorem Fresh.repeated (fresh : graph.Fresh seen members found)
    (isSeen : graph.name member ∈ found.2) : graph.Fresh seen (members ++ [member]) found := by
  have isKnown := (fresh.seen (graph.name member)).mp isSeen
  refine ⟨fresh.sublist.trans (List.sublist_append_left _ _), fresh.nodup, ?_, ?_⟩
  all_goals
    intro name
    simp only [fresh.names, fresh.seen, List.map_append, List.mem_append, List.map_singleton,
      List.mem_singleton]
    by_cases same : name = graph.name member
    · grind
    · simp [same]

/-- A member that shows a name for the first time is taken up. -/
theorem Fresh.taken (fresh : graph.Fresh seen members found)
    (isNew : graph.name member ∉ found.2) :
    graph.Fresh seen (members ++ [member])
      (found.1 ++ [member], graph.name member :: found.2) := by
  have isUnknown := mt (fresh.seen (graph.name member)).mpr isNew
  rw [not_or] at isUnknown
  constructor
  · exact fresh.sublist.append (List.Sublist.refl _)
  · have isOther : graph.name member ∉ found.1.map graph.name :=
      fun isTaken => isUnknown.2 ((fresh.names _).mp isTaken).2
    rw [List.map_append, List.map_singleton]
    exact (List.perm_append_singleton _ _).nodup_iff.mpr
      (List.nodup_cons.mpr ⟨isOther, fresh.nodup⟩)
  · intro name
    simp only [fresh.names, List.map_append, List.mem_append, List.map_singleton,
      List.mem_singleton]
    by_cases same : name = graph.name member
    · simp [same, isUnknown.1]
    · simp [same]
  · intro name
    simp only [fresh.seen, List.map_append, List.mem_append, List.map_singleton, List.mem_cons,
      List.not_mem_nil, or_false]
    rw [or_comm, or_assoc]

theorem Fresh.take (fresh : graph.Fresh seen members found) :
    graph.Fresh seen (members ++ [member]) (graph.takeFresh found member) := by
  unfold takeFresh
  split
  · next isSeen => exact fresh.repeated (List.contains_iff_mem.mp isSeen)
  · next isNew => exact fresh.taken fun isSeen => isNew (List.contains_iff_mem.mpr isSeen)

/-- Going through a list takes up the members that show a name for the first time, by induction from
the end of the list. -/
theorem fresh_foldl (graph : Graph) (seen : List String) (members : List DeclId) :
    graph.Fresh seen members (members.foldl graph.takeFresh ([], seen)) := by
  induction members using List.reverseRecOn with
  | nil => exact .empty graph seen
  | append_singleton members member ih =>
      rw [List.foldl_append]
      exact ih.take

end Fresh

theorem inheritedFrom_cons (graph : Graph) (kind : MemberKind) (seen : List String)
    (ancestor : DeclId) (others : List DeclId) :
    graph.inheritedFrom kind seen (ancestor :: others) =
      let fresh := ((graph.decl ancestor).members kind).foldl graph.takeFresh ([], seen)
      if fresh.1.isEmpty then graph.inheritedFrom kind fresh.2 others
      else (ancestor, fresh.1) :: graph.inheritedFrom kind fresh.2 others :=
  rfl

/-! ### All ancestors -/

/-- The members of the ancestors in a list are shown in groups, each name once and under the first
ancestor that has it. Names that count no more are left out. -/
structure Attributed (graph : Graph) (kind : MemberKind) (seen : List String)
    (ancestors : List DeclId) (groups : List (DeclId × List DeclId)) : Prop where
  holders : (groups.map (·.1)).Sublist ancestors
  own : ∀ group ∈ groups, group.2 ≠ [] ∧ group.2.Sublist ((graph.decl group.1).members kind)
  shows : ∀ name, graph.Shows groups name ↔
    name ∉ seen ∧ ∃ ancestor ∈ ancestors, graph.HasMember ancestor kind name
  nodup : ((groups.flatMap (·.2)).map graph.name).Nodup
  first : ∀ group ∈ groups, ∀ member ∈ group.2,
    graph.FirstHolder ancestors kind (graph.name member) group.1

section Groups

variable {found : List DeclId × List String} {ancestor : DeclId} {others : List DeclId}
  (fresh : graph.Fresh seen ((graph.decl ancestor).members kind) found)
  (rest : graph.Attributed kind found.2 others groups)

include fresh rest

/-- What later ancestors show has a name that the one before them lacks. So an ancestor that shows a
name is the first to have it, in the longer list as well. -/
theorem Attributed.first_cons : ∀ group ∈ groups, ∀ member ∈ group.2,
    graph.FirstHolder (ancestor :: others) kind (graph.name member) group.1 := by
  intro group isGroup member isMember
  have isOpen := ((rest.shows _).mp ⟨group, isGroup, member, isMember, rfl⟩).1
  apply (rest.first group isGroup member isMember).cons
  intro hasMember
  exact isOpen ((fresh.seen _).mpr (.inr (hasMember_iff.mp hasMember)))

/-- A name is shown of an ancestor or of those behind it if one of them has it and it still
counts. -/
theorem Attributed.shows_cons (name : String) :
    name ∈ found.1.map graph.name ∨ graph.Shows groups name ↔
      name ∉ seen ∧ ∃ holder ∈ ancestor :: others, graph.HasMember holder kind name := by
  rw [fresh.names, rest.shows, fresh.seen, ← hasMember_iff]
  simp only [List.mem_cons, exists_eq_or_imp]
  by_cases hasMember : graph.HasMember ancestor kind name
  · simp [hasMember]
  · simp [hasMember]

/-- An ancestor that shows nothing new has no group, and the ancestors behind it are shown as
without it. -/
theorem Attributed.skip (empty : found.1 = []) :
    graph.Attributed kind seen (ancestor :: others) groups := by
  constructor
  · exact rest.holders.cons ancestor
  · exact rest.own
  · intro name
    have shows := rest.shows_cons fresh name
    simpa [empty] using shows
  · exact rest.nodup
  · exact rest.first_cons fresh

/-- An ancestor that shows something new has a group in front of the others. A name that is shown
here counts no more behind it, so no name is shown in two groups. -/
theorem Attributed.show (shown : found.1 ≠ []) :
    graph.Attributed kind seen (ancestor :: others) ((ancestor, found.1) :: groups) := by
  constructor
  · exact rest.holders.cons_cons ancestor
  · exact List.forall_mem_cons.mpr ⟨⟨shown, fresh.sublist⟩, rest.own⟩
  · intro name
    rw [← rest.shows_cons fresh name]
    simp only [Shows, List.mem_cons, exists_eq_or_imp, List.mem_map]
  · rw [List.flatMap_cons, List.map_append, List.nodup_append]
    refine ⟨fresh.nodup, rest.nodup, ?_⟩
    rintro name isHere _ isLater rfl
    have isKnown := (fresh.seen name).mpr (.inr ((fresh.names name).mp isHere).2)
    rcases List.mem_map.mp isLater with ⟨member, isMember, rfl⟩
    rcases List.mem_flatMap.mp isMember with ⟨group, isGroup, isMember⟩
    exact ((rest.shows _).mp ⟨group, isGroup, member, isMember, rfl⟩).1 isKnown
  · refine List.forall_mem_cons.mpr ⟨?_, rest.first_cons fresh⟩
    intro member isMember
    exact .head ⟨member, fresh.sublist.subset isMember, rfl⟩

end Groups

/-- The ancestors are gone through in the order in which they are listed, each with the names that
those before it have used up. -/
theorem attributed_inheritedFrom (graph : Graph) (kind : MemberKind) (seen : List String)
    (ancestors : List DeclId) :
    graph.Attributed kind seen ancestors (graph.inheritedFrom kind seen ancestors) := by
  induction ancestors generalizing seen with
  | nil => exact ⟨.slnil, by simp [inheritedFrom], by simp [inheritedFrom, Shows], .nil,
      by simp [inheritedFrom]⟩
  | cons ancestor others ih =>
      have fresh := fresh_foldl graph seen ((graph.decl ancestor).members kind)
      have rest := ih (((graph.decl ancestor).members kind).foldl graph.takeFresh ([], seen)).2
      rw [inheritedFrom_cons]
      dsimp only
      split
      · next empty => exact rest.skip fresh (List.isEmpty_iff.mp empty)
      · next shown => exact rest.show fresh fun empty => shown (List.isEmpty_iff.mpr empty)

/-! ### The full account -/

/-- The members that a declaration inherits, if its ancestors stand in the given order. -/
structure InheritsInOrder (graph : Graph) (id : DeclId) (kind : MemberKind) (order : List DeclId) :
    Prop where
  /-- The order is that in which the bases are visited depth first, from left to right. -/
  walked : ∀ visits, Walk.DepthFirst graph.resolvedBases [] [id] visits ↔ visits = id :: order
  reached : ∀ ancestor, ancestor ∈ order ↔ ancestor ≠ id ∧ TransGen graph.HasBase id ancestor
  nodup : ((graph.inheritedMembers id kind).map (·.1)).Nodup
  holders : ((graph.inheritedMembers id kind).map (·.1)).Sublist order
  own : ∀ group ∈ graph.inheritedMembers id kind,
    group.2 ≠ [] ∧ group.2.Sublist ((graph.decl group.1).members kind)
  /-- A name is shown if some ancestor has a member of it and the declaration has none. -/
  shows : ∀ name, graph.Shows (graph.inheritedMembers id kind) name ↔
    ¬graph.HasMember id kind name ∧
      ∃ ancestor, ancestor ≠ id ∧ TransGen graph.HasBase id ancestor ∧
        graph.HasMember ancestor kind name
  /-- It is shown once. -/
  once : (((graph.inheritedMembers id kind).flatMap (·.2)).map graph.name).Nodup
  first : ∀ group ∈ graph.inheritedMembers id kind, ∀ member ∈ group.2,
    graph.FirstHolder order kind (graph.name member) group.1

/-- After any session, every declaration inherits the members of its ancestors in the order of a
walk along its bases. The names that the declaration has itself count no more from the start. -/
theorem inheritsInOrder_of_session (files : List SourceFile) (steps : List SessionStep)
    (id : DeclId) (kind : MemberKind) :
    ∃ order, ((ofFiles files).run steps).InheritsInOrder id kind order := by
  have mirrored := (mirrored_ofFiles files).run steps
  generalize (ofFiles files).run steps = graph at mirrored
  have groups := attributed_inheritedFrom graph kind (((graph.decl id).members kind).map graph.name)
    (graph.ancestors id)
  have nodup : (graph.ancestors id).Nodup := Walk.nodup_preorder _ _ _ _
  refine ⟨graph.ancestors id, ?_⟩
  constructor
  · exact fun visits => Walk.depthFirst_start_iff (lt_size_of_mem_resolvedBases mirrored)
  · intro ancestor
    exact mem_ancestors_iff mirrored
  · exact groups.holders.nodup nodup
  · exact groups.holders
  · exact groups.own
  · intro name
    rw [inheritedMembers, groups.shows, ← hasMember_iff]
    simp only [mem_ancestors_iff mirrored, and_assoc]
  · exact groups.nodup
  · exact groups.first

end TadsReference.Graph
