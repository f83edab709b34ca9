import TadsReference.Graph.DisplayOrder

/-!
# The first declaration of a name

Sorting is stable, so of the declarations of one name the sorted list has that one first which
comes first in display order, and of those that compare equal the one that was added first.
`find?_sorted_eq_some_iff` says so without mentioning the sorted list.
-/

namespace TadsReference

namespace Decl

/-- Display order compares names, then files and then lines. The first two are compared in lower
case. -/
theorem displayOrder_eq_compareLex :
    displayOrder =
      compareLex (compareOn fun decl : Decl => Text.lowerCase decl.name)
        (compareLex (compareOn fun decl => Text.lowerCase decl.location.file)
          (compareOn fun decl => decl.location.line)) :=
  rfl

/-- A comparison of keys one after the other is transitive. -/
instance : Std.TransCmp displayOrder := by
  rw [displayOrder_eq_compareLex]
  infer_instance

theorem displayOrder_swap (left right : Decl) :
    left.displayOrder right = (right.displayOrder left).swap :=
  Std.OrientedCmp.eq_swap

theorem displayOrder_self (decl : Decl) : decl.displayOrder decl = .eq :=
  Std.ReflCmp.compare_self

theorem displayOrder_trans {first second third : Decl}
    (left : (first.displayOrder second).isLE = true)
    (right : (second.displayOrder third).isLE = true) :
    (first.displayOrder third).isLE = true :=
  Std.TransCmp.isLE_trans left right

end Decl

namespace Graph

variable (graph : Graph)

theorem displayOrder_swap (left right : DeclId) :
    graph.displayOrder left right = (graph.displayOrder right left).swap :=
  Decl.displayOrder_swap _ _

theorem displayOrder_self (id : DeclId) : graph.displayOrder id id = .eq :=
  Decl.displayOrder_self _

theorem displayOrder_trans (first second third : DeclId)
    (left : (graph.displayOrder first second).isLE = true)
    (right : (graph.displayOrder second third).isLE = true) :
    (graph.displayOrder first third).isLE = true :=
  Decl.displayOrder_trans left right

theorem displayOrder_total (left right : DeclId) :
    ((graph.displayOrder left right).isLE || (graph.displayOrder right left).isLE) = true := by
  rw [displayOrder_swap]
  cases graph.displayOrder right left <;> rfl

theorem perm_sorted (ids : List DeclId) : (graph.sorted ids).Perm ids :=
  List.mergeSort_perm ids _

theorem mem_sorted {ids : List DeclId} {id : DeclId} : id ∈ graph.sorted ids ↔ id ∈ ids :=
  List.mem_mergeSort

theorem pairwise_sorted (ids : List DeclId) :
    (graph.sorted ids).Pairwise fun left right => (graph.displayOrder left right).isLE = true :=
  List.pairwise_mergeSort graph.displayOrder_trans graph.displayOrder_total ids

theorem sorted_sorted (ids : List DeclId) : graph.sorted (graph.sorted ids) = graph.sorted ids :=
  List.mergeSort_of_pairwise (graph.pairwise_sorted ids)

/-- Of the declarations of a name in a list, one is first if it comes before all others in display
order, where of those that compare equal the one added first counts. -/
structure FirstNamed (ids : List DeclId) (name : String) (id : DeclId) : Prop where
  mem : id ∈ ids
  named : graph.name id = name
  first : ∀ other ∈ ids, graph.name other = name →
    graph.displayOrder id other = .lt ∨ graph.displayOrder id other = .eq ∧ id ≤ other

variable {graph} {ids : List DeclId} {name : String}

/-- At most one declaration of a name comes first, since what comes first in both ways would stand
in front of itself. -/
theorem FirstNamed.unique {left right : DeclId} (isLeft : graph.FirstNamed ids name left)
    (isRight : graph.FirstNamed ids name right) : left = right := by
  have swap := graph.displayOrder_swap left right
  rcases isLeft.first right isRight.mem isRight.named with before | ⟨same, le⟩
  · rcases isRight.first left isLeft.mem isLeft.named with after | ⟨same, _⟩
    · simp [before, after] at swap
    · simp [before, same] at swap
  · rcases isRight.first left isLeft.mem isLeft.named with after | ⟨_, ge⟩
    · simp [same, after] at swap
    · exact Nat.le_antisymm le ge

/-- In an increasing list, the smaller of two members stands before the other. -/
theorem pair_sublist_of_lt {smaller larger : DeclId} (increasing : ids.Pairwise (· < ·))
    (smallerMem : smaller ∈ ids) (largerMem : larger ∈ ids) (lt : smaller < larger) :
    [smaller, larger].Sublist ids := by
  induction ids with
  | nil => contradiction
  | cons id ids ih =>
      rcases List.pairwise_cons.mp increasing with ⟨below, rest⟩
      rcases List.mem_cons.mp smallerMem with rfl | smallerRest
      · rcases List.mem_cons.mp largerMem with rfl | largerRest
        · exact absurd lt (Nat.lt_irrefl _)
        · exact (List.singleton_sublist.mpr largerRest).cons_cons _
      · rcases List.mem_cons.mp largerMem with rfl | largerRest
        · exact absurd lt (Nat.lt_asymm (below smaller smallerRest))
        · exact (ih rest smallerRest largerRest).cons _

/-- Declarations that compare equal stay in the order of their numbers. The sort is stable, and they
stand in that order before it. -/
theorem pair_sublist_sorted {smaller larger : DeclId} (increasing : ids.Pairwise (· < ·))
    (smallerMem : smaller ∈ ids) (largerMem : larger ∈ ids) (lt : smaller < larger)
    (le : (graph.displayOrder smaller larger).isLE = true) :
    [smaller, larger].Sublist (graph.sorted ids) :=
  List.pair_sublist_mergeSort graph.displayOrder_trans graph.displayOrder_total le
    (pair_sublist_of_lt increasing smallerMem largerMem lt)

theorem nodup_sorted (increasing : ids.Pairwise (· < ·)) : (graph.sorted ids).Nodup :=
  (graph.perm_sorted ids).nodup_iff.mpr (increasing.imp Nat.ne_of_lt)

/-- One declaration comes before another in display order, or the two compare equal and it was added
first. -/
def Precedes (graph : Graph) (left right : DeclId) : Prop :=
  graph.displayOrder left right = .lt ∨ graph.displayOrder left right = .eq ∧ left < right

/-- Two members of a list without repetitions stand in it in one order only. -/
theorem not_pair_sublist_swap {left right : DeclId} (nodup : ids.Nodup)
    (pair : [left, right].Sublist ids) : ¬[right, left].Sublist ids := by
  induction ids with
  | nil => contradiction
  | cons id ids ih =>
      rcases List.nodup_cons.mp nodup with ⟨fresh, rest⟩
      intro swapped
      cases pair with
      | cons _ later =>
          cases swapped with
          | cons _ laterSwapped => exact ih rest later laterSwapped
          | cons_cons _ _ => exact fresh (later.subset (by simp))
      | cons_cons _ later =>
          cases swapped with
          | cons _ laterSwapped => exact fresh (laterSwapped.subset (by simp))
          | cons_cons _ _ => exact fresh (later.subset (by simp))

/-- Sorting declarations in the order of their numbers leaves those that compare equal in that
order. Two of them that stand the other way round would contradict the sort being stable. -/
theorem pairwise_precedes_sorted (increasing : ids.Pairwise (· < ·)) :
    (graph.sorted ids).Pairwise graph.Precedes := by
  have nodup : (graph.sorted ids).Nodup := nodup_sorted increasing
  rw [List.pairwise_iff_forall_sublist]
  intro left right pair
  have leftMem : left ∈ ids := graph.mem_sorted.mp (pair.subset (by simp))
  have rightMem : right ∈ ids := graph.mem_sorted.mp (pair.subset (by simp))
  have le := List.pairwise_iff_forall_sublist.mp (graph.pairwise_sorted ids) pair
  cases order : graph.displayOrder left right with
  | lt => exact .inl order
  | gt => simp [order] at le
  | eq =>
      refine .inr ⟨order, Nat.lt_of_le_of_ne (Nat.le_of_not_lt ?_) ?_⟩
      · intro lt
        have back : (graph.displayOrder right left).isLE = true := by
          rw [displayOrder_swap, order]
          rfl
        exact not_pair_sublist_swap nodup pair
          (pair_sublist_sorted increasing rightMem leftMem lt back)
      · exact List.pairwise_iff_forall_sublist.mp nodup pair

/-- A sorted list is in the order of the numbers exactly if display order never puts the larger of
two numbers first. -/
theorem pairwise_lt_iff (ordered : ids.Pairwise graph.Precedes) :
    ids.Pairwise (· < ·) ↔
      ∀ left ∈ ids, ∀ right ∈ ids, left < right → graph.displayOrder left right ≠ .gt := by
  constructor
  · intro increasing left leftMem right rightMem lt order
    have pair := pair_sublist_of_lt increasing leftMem rightMem lt
    rcases List.pairwise_iff_forall_sublist.mp ordered pair with before | ⟨same, _⟩
    · simp [before] at order
    · simp [same] at order
  · intro agrees
    rw [List.pairwise_iff_forall_sublist]
    intro left right pair
    rcases List.pairwise_iff_forall_sublist.mp ordered pair with before | ⟨_, lt⟩
    · have back : graph.displayOrder right left = .gt := by
        rw [displayOrder_swap, before]
        rfl
      apply Nat.lt_of_le_of_ne
      · apply Nat.le_of_not_lt
        intro lt
        exact agrees right (pair.subset (by simp)) left (pair.subset (by simp)) lt back
      · rintro rfl
        simp [displayOrder_self] at before
    · exact lt

/-- The declaration that is found first in a sorted list comes before all others of its name, either
in display order or by its number. -/
theorem firstNamed_of_find? (increasing : ids.Pairwise (· < ·)) {id : DeclId}
    (found : graph.findNamed? (graph.sorted ids) name = some id) :
    graph.FirstNamed ids name id := by
  rcases List.find?_eq_some_iff_append.mp found with ⟨named, before, after, shape, noneBefore⟩
  have ordered : (graph.sorted ids).Pairwise graph.Precedes := pairwise_precedes_sorted increasing
  have member : id ∈ ids := graph.mem_sorted.mp (List.mem_of_find?_eq_some found)
  rw [shape] at ordered
  refine ⟨member, by simpa using named, ?_⟩
  intro other otherMem otherNamed
  have otherSorted : other ∈ before ++ id :: after := shape ▸ graph.mem_sorted.mpr otherMem
  rcases List.mem_append.mp otherSorted with isBefore | here
  · have differs := noneBefore other isBefore
    simp [otherNamed] at differs
  · rcases List.mem_cons.mp here with rfl | isAfter
    · exact .inr ⟨graph.displayOrder_self _, Nat.le_refl _⟩
    · rcases List.rel_of_pairwise_cons (List.pairwise_append.mp ordered).2.1 isAfter with
        lt | ⟨same, lt⟩
      · exact .inl lt
      · exact .inr ⟨same, Nat.le_of_lt lt⟩

/-- Looking a name up in a sorted list finds the declaration that comes first of its name, and it
finds no other one because there is only one that does. -/
theorem find?_sorted_eq_some_iff (increasing : ids.Pairwise (· < ·)) {id : DeclId} :
    graph.findNamed? (graph.sorted ids) name = some id ↔ graph.FirstNamed ids name id := by
  constructor
  · exact firstNamed_of_find? increasing
  · intro isFirst
    cases found : graph.findNamed? (graph.sorted ids) name with
    | none =>
        have differs := List.find?_eq_none.mp found id (graph.mem_sorted.mpr isFirst.mem)
        simp [isFirst.named] at differs
    | some other =>
        rw [(firstNamed_of_find? increasing found).unique isFirst]

theorem find?_sorted_eq_none_iff :
    graph.findNamed? (graph.sorted ids) name = none ↔ ∀ id ∈ ids, graph.name id ≠ name := by
  simp [findNamed?, List.find?_eq_none, mem_sorted]

end Graph

end TadsReference
