import TadsReference.Proofs.Graph.Walk

/-!
# Depth first, from left to right

A walk keeps all that it has still to visit on one stack. `DepthFirst` says without a stack in which
order it goes: what a number leads to comes before the number beside it. If all numbers lie below
the limit, a walk makes exactly these visits (`depthFirst_iff`), each of them once.
-/

namespace TadsReference.Walk

open Relation

variable {next : Nat → List Nat} {limit start target : Nat}
  {visited stack left right visits other : List Nat}

/-- The visits from a list of numbers. The numbers have their turns from left to right. One that has
been visited is passed over; from another one the visits go on to its neighbours before the next
number has its turn. Of the visited numbers the latest stands first. -/
inductive DepthFirst (next : Nat → List Nat) : (visited numbers visits : List Nat) → Prop
  | finished {visited : List Nat} : DepthFirst next visited [] []
  | passed {visited others visits : List Nat} {number : Nat} (isVisited : number ∈ visited)
      (beside : DepthFirst next visited others visits) :
      DepthFirst next visited (number :: others) visits
  | entered {visited others below later : List Nat} {number : Nat} (fresh : number ∉ visited)
      (deeper : DepthFirst next (number :: visited) (next number) below)
      (beside : DepthFirst next (below.reverse ++ number :: visited) others later) :
      DepthFirst next visited (number :: others) (number :: below ++ later)

/-- The visits from two lists, one behind the other, are those from the first and then those from
the second. The second list begins with all visited that the first one has led to. -/
theorem DepthFirst.split (walk : DepthFirst next visited (left ++ right) visits) :
    ∃ first last, visits = first ++ last ∧ DepthFirst next visited left first ∧
      DepthFirst next (first.reverse ++ visited) right last := by
  induction left generalizing visited visits with
  | nil => exact ⟨[], visits, rfl, .finished, walk⟩
  | cons number left ih =>
      cases walk with
      | passed isVisited beside =>
          rcases ih beside with ⟨first, last, rfl, walkLeft, walkRight⟩
          exact ⟨first, last, rfl, .passed isVisited walkLeft, walkRight⟩
      | @entered _ _ below _ _ fresh deeper beside =>
          rcases ih beside with ⟨first, last, rfl, walkLeft, walkRight⟩
          refine ⟨number :: below ++ first, last, by simp, .entered fresh deeper walkLeft, ?_⟩
          simpa using walkRight

/-- There is at most one order of visits, since each constructor of `DepthFirst` decides what comes
next. The neighbours of a number and the numbers beside it are told apart by the first of the two
walks. -/
theorem DepthFirst.unique (walk : DepthFirst next visited stack visits)
    (walkOther : DepthFirst next visited stack other) : visits = other := by
  induction walk generalizing other with
  | finished =>
      cases walkOther
      rfl
  | passed isVisited _ ih =>
      cases walkOther with
      | passed _ beside => exact ih beside
      | entered fresh => exact absurd isVisited fresh
  | entered fresh _ _ ihDeeper ihBeside =>
      cases walkOther with
      | passed isVisited => exact absurd isVisited fresh
      | entered _ deeper beside =>
          obtain rfl := ihDeeper deeper
          rw [ihBeside beside]

section Bounded

variable (bounded : ∀ source target, target ∈ next source → target < limit)

include bounded

/-- A walk over numbers below the limit goes depth first. The stack of the walk holds the neighbours
of a number in front of the other numbers, so the visits from it are split where the neighbours
end. -/
theorem depthFirst_preorder (inside : ∀ number ∈ stack, number < limit) :
    DepthFirst next visited stack (preorder next limit visited stack) := by
  induction visited, stack using preorder.induct next limit with
  | case1 visited =>
      rw [preorder]
      exact .finished
  | case2 visited number stack fresh ih =>
      rw [preorder, dif_pos fresh]
      have insideNext : ∀ target ∈ next number ++ stack, target < limit := by
        intro target isTarget
        rcases List.mem_append.mp isTarget with isNext | isLater
        · exact bounded number target isNext
        · exact inside target (List.mem_cons_of_mem _ isLater)
      rcases (ih insideNext).split with ⟨below, later, shape, deeper, beside⟩
      rw [shape]
      exact .entered (by simpa using fresh.2) deeper beside
  | case3 visited number stack stale ih =>
      rw [preorder, dif_neg stale]
      have isVisited : number ∈ visited := by
        simpa [inside number List.mem_cons_self] using stale
      apply DepthFirst.passed isVisited
      exact ih fun target isLater => inside target (List.mem_cons_of_mem _ isLater)

/-- A walk makes the visits that go depth first, and there is no other order of such visits. -/
theorem depthFirst_iff (inside : ∀ number ∈ stack, number < limit) :
    DepthFirst next visited stack visits ↔ visits = preorder next limit visited stack := by
  have walk : DepthFirst next visited stack (preorder next limit visited stack) :=
    depthFirst_preorder bounded inside
  constructor
  · exact fun isWalk => isWalk.unique walk
  · rintro rfl
    exact walk

/-- The visits from one number are the number and then what its neighbours lead to. -/
theorem depthFirst_start_iff :
    DepthFirst next [] [start] visits ↔
      visits = start :: preorder next limit [start] (next start) := by
  have deeper (below : List Nat) : DepthFirst next [start] (next start) below ↔
      below = preorder next limit [start] (next start) := depthFirst_iff bounded (bounded start)
  constructor
  · intro walk
    cases walk with
    | passed isVisited => contradiction
    | entered _ below beside =>
        cases beside
        rw [(deeper _).mp below, List.append_nil]
  · rintro rfl
    have walk := DepthFirst.entered List.not_mem_nil ((deeper _).mpr rfl) .finished
    rwa [List.append_nil] at walk

end Bounded

/-- No walk visits a number twice, since it passes over whatever it has visited before. -/
theorem nodup_preorder (next : Nat → List Nat) (limit : Nat) (visited stack : List Nat) :
    (preorder next limit visited stack).Nodup := by
  induction visited, stack using preorder.induct next limit with
  | case1 visited =>
      rw [preorder]
      exact .nil
  | case2 visited number stack fresh ih =>
      rw [preorder, dif_pos fresh]
      refine List.nodup_cons.mpr ⟨?_, ih⟩
      intro again
      rcases mem_preorder_iff.mp again with ⟨_, _, isOpen, path⟩
      rcases ReflTransGen.cases_tail path with rfl | ⟨_, _, step⟩
      · exact isOpen.2 List.mem_cons_self
      · exact step.2.2 List.mem_cons_self
  | case3 visited number stack stale ih =>
      rw [preorder, dif_neg stale]
      exact ih

end TadsReference.Walk
