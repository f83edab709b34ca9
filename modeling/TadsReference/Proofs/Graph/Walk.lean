import Mathlib.Logic.Relation
import TadsReference.Graph.Walk

/-!
# What a walk reaches

A walk from a stack reaches a number exactly if a path leads there from the stack that avoids all
that has been visited before. The walk may have visited numbers of such a path in the meantime, so
`mem_preorder_iff` is proved for any list of visited numbers: when a number is taken from the stack,
a path either starts over from its neighbours or avoids it.
-/

namespace TadsReference.Walk

open Relation

variable {next : Nat → List Nat} {limit : Nat} {visited stack : List Nat}
  {number start source target : Nat}

/-- A number that a walk may still visit. -/
def Open (limit : Nat) (visited : List Nat) (number : Nat) : Prop :=
  number < limit ∧ number ∉ visited

/-- A step to a number that may still be visited. -/
def OpenStep (next : Nat → List Nat) (limit : Nat) (visited : List Nat) (source target : Nat) :
    Prop :=
  target ∈ next source ∧ Open limit visited target

/-- A path leads from the stack to a number that avoids what has been visited. -/
def Reaches (next : Nat → List Nat) (limit : Nat) (visited stack : List Nat) (target : Nat) :
    Prop :=
  ∃ start ∈ stack, Open limit visited start ∧
    ReflTransGen (OpenStep next limit visited) start target

theorem Open.of_cons (isOpen : Open limit (number :: visited) target) :
    Open limit visited target :=
  ⟨isOpen.1, fun isVisited => isOpen.2 (List.mem_cons_of_mem _ isVisited)⟩

theorem Open.cons (isOpen : Open limit visited target) (other : target ≠ number) :
    Open limit (number :: visited) target := by
  refine ⟨isOpen.1, ?_⟩
  intro isVisited
  rcases List.mem_cons.mp isVisited with same | isVisited
  · exact other same
  · exact isOpen.2 isVisited

theorem Reaches.of_mem (isStart : start ∈ stack) (isOpen : Open limit visited start) :
    Reaches next limit visited stack start :=
  ⟨start, isStart, isOpen, .refl⟩

theorem Reaches.tail (reaches : Reaches next limit visited stack source)
    (step : OpenStep next limit visited source target) :
    Reaches next limit visited stack target := by
  rcases reaches with ⟨start, isStart, isOpen, path⟩
  exact ⟨start, isStart, isOpen, path.tail step⟩

/-- After the first number of a stack has been visited, a path to another number avoids it or goes
on from its neighbours. A visit to the number on the way starts the path afresh at one of its
neighbours. -/
theorem Reaches.avoid (reaches : Reaches next limit visited (number :: stack) target) :
    target = number ∨ Reaches next limit (number :: visited) (next number ++ stack) target := by
  rcases reaches with ⟨start, isStart, isOpen, path⟩
  induction path with
  | refl =>
      by_cases same : start = number
      · exact .inl same
      · have onStack : start ∈ next number ++ stack := by
          rcases List.mem_cons.mp isStart with first | isLater
          · exact absurd first same
          · exact List.mem_append_right _ isLater
        exact .inr (.of_mem onStack (isOpen.cons same))
  | @tail middle target _ step ih =>
      by_cases same : target = number
      · exact .inl same
      · have isOpenTarget := step.2.cons same
        rcases ih with rfl | reaches
        · exact .inr (.of_mem (List.mem_append_left _ step.1) isOpenTarget)
        · exact .inr (reaches.tail ⟨step.1, isOpenTarget⟩)

/-- What is reached behind the first number of a stack is reached from the stack, over that number
if the path begins at one of its neighbours. -/
theorem Reaches.of_avoid (isOpen : Open limit visited number)
    (reaches : Reaches next limit (number :: visited) (next number ++ stack) target) :
    Reaches next limit visited (number :: stack) target := by
  rcases reaches with ⟨start, isStart, isOpenStart, path⟩
  have wider : ReflTransGen (OpenStep next limit visited) start target :=
    ReflTransGen.mono (fun _ _ step => ⟨step.1, step.2.of_cons⟩) _ _ path
  rcases List.mem_append.mp isStart with isNext | isLater
  · exact ⟨number, List.mem_cons_self, isOpen, .head ⟨isNext, isOpenStart.of_cons⟩ wider⟩
  · exact ⟨start, List.mem_cons_of_mem _ isLater, isOpenStart.of_cons, wider⟩

theorem Reaches.skip (closed : ¬Open limit visited number) :
    Reaches next limit visited (number :: stack) target ↔
      Reaches next limit visited stack target := by
  constructor
  · rintro ⟨start, isStart, isOpen, path⟩
    rcases List.mem_cons.mp isStart with rfl | isLater
    · exact absurd isOpen closed
    · exact ⟨start, isLater, isOpen, path⟩
  · rintro ⟨start, isStart, isOpen, path⟩
    exact ⟨start, List.mem_cons_of_mem _ isStart, isOpen, path⟩

/-- A walk visits exactly the numbers that can be reached. The induction follows the walk: an open
number is visited, a closed one is skipped. -/
theorem mem_preorder_iff :
    target ∈ preorder next limit visited stack ↔ Reaches next limit visited stack target := by
  induction visited, stack using preorder.induct next limit with
  | case1 visited => simp [preorder, Reaches]
  | case2 visited number stack fresh ih =>
      have isOpen : Open limit visited number := by simpa [Open] using fresh
      rw [preorder, dif_pos fresh, List.mem_cons, ih]
      constructor
      · rintro (rfl | reaches)
        · exact .of_mem List.mem_cons_self isOpen
        · exact reaches.of_avoid isOpen
      · exact Reaches.avoid
  | case3 visited number stack stale ih =>
      have closed : ¬Open limit visited number := by simpa [Open] using stale
      rw [preorder, dif_neg stale, ih, Reaches.skip closed]

/-- A walk that starts behind a number and does not come back to it visits exactly the others that
paths from it lead to. A path that comes back to the start is cut there: what follows is reached
from the start directly. -/
theorem mem_preorder_start_iff
    (bounded : ∀ source target, target ∈ next source → target < limit) :
    target ∈ preorder next limit [start] (next start) ↔
      target ≠ start ∧ TransGen (fun source target => target ∈ next source) start target := by
  have isOpen {source target : Nat} (isNext : target ∈ next source) (other : target ≠ start) :
      Open limit [start] target :=
    ⟨bounded source target isNext, by simpa using other⟩
  rw [mem_preorder_iff]
  constructor
  · rintro ⟨first, isFirst, isOpenFirst, path⟩
    have wider : ReflTransGen (fun source target => target ∈ next source) first target :=
      ReflTransGen.mono (fun _ _ step => step.1) _ _ path
    refine ⟨?_, .head' isFirst wider⟩
    rcases ReflTransGen.cases_tail path with rfl | ⟨_, _, step⟩
    · simpa using isOpenFirst.2
    · simpa using step.2.2
  · rintro ⟨other, path⟩
    have reached : target = start ∨ Reaches next limit [start] (next start) target := by
      clear other
      induction path with
      | @single first step =>
          by_cases same : first = start
          · exact .inl same
          · exact .inr (.of_mem step (isOpen step same))
      | @tail middle last _ step ih =>
          by_cases same : last = start
          · exact .inl same
          · rcases ih with rfl | reaches
            · exact .inr (.of_mem step (isOpen step same))
            · exact .inr (reaches.tail ⟨step, isOpen step same⟩)
    exact reached.resolve_left other

/-- The lines of an outline stand on its stack, or below the line of a neighbour. The induction
follows the walk, which puts the neighbours of a number on the stack when it first meets it. -/
theorem item_of_mem_outline {Label : Type} {next : Nat → List (Nat ⊕ Label)}
    {stack : List (OutlineLine Label)} {line : OutlineLine Label}
    (member : line ∈ outline next limit visited stack) :
    line ∈ stack ∨ ∃ number, line.item ∈ next number := by
  induction visited, stack using outline.induct next limit with
  | case1 visited => simp [outline] at member
  | case2 visited first stack label isLabel ih =>
      rw [outline, isLabel] at member
      rcases List.mem_cons.mp member with rfl | isLater
      · exact .inl List.mem_cons_self
      · exact (ih isLater).imp_left (List.mem_cons_of_mem _)
  | case3 visited first stack number isNumber fresh ih =>
      rw [outline, isNumber] at member
      simp only [dif_pos fresh] at member
      rcases List.mem_cons.mp member with rfl | isLater
      · exact .inl List.mem_cons_self
      · rcases ih isLater with onStack | isBelow
        · rcases List.mem_append.mp onStack with isNext | isRest
          · rcases List.mem_map.mp isNext with ⟨item, isItem, rfl⟩
            exact .inr ⟨number, isItem⟩
          · exact .inl (List.mem_cons_of_mem _ isRest)
        · exact .inr isBelow
  | case4 visited first stack number isNumber stale ih =>
      rw [outline, isNumber] at member
      simp only [dif_neg stale] at member
      rcases List.mem_cons.mp member with rfl | isLater
      · exact .inl List.mem_cons_self
      · exact (ih isLater).imp_left (List.mem_cons_of_mem _)

end TadsReference.Walk
