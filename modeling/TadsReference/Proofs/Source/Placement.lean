import Mathlib.Data.List.Nodup
import Mathlib.Data.Fintype.Pigeonhole
import Mathlib.Logic.Relation
import TadsReference.Source.Order

/-!
# What is placed

Passes place a position once all that it needs has been placed. `mem_placement_iff` says that this
leaves out exactly the positions from which a cycle can be reached: what is placed stands behind
all that it needs, so no path leads back to it, and what is left over always needs something else
that is left over, so that a path of such needs must meet itself.
-/

namespace TadsReference.ReadingOrder

open Relation

variable {needs : List (List Nat)} {placed : List Nat} {position target : Nat}

/-- One position needs another. -/
def Needs (needs : List (List Nat)) (position target : Nat) : Prop :=
  target ∈ (needs[position]?).getD []

/-- A cycle can be reached from a position. -/
def ReachesCycle (step : Nat → Nat → Prop) (position : Nat) : Prop :=
  ∃ turn, ReflTransGen step position turn ∧ TransGen step turn turn

/-- A list of positions, each placed once and behind all that it needs. -/
structure Placed (needs : List (List Nat)) (placed : List Nat) : Prop where
  nodup : placed.Nodup
  inside : ∀ position ∈ placed, position < needs.length
  ordered : ∀ front position rest, placed = front ++ position :: rest →
    ∀ target, Needs needs position target → target ∈ front

theorem ready_iff :
    ready needs placed position = true ↔
      ∀ target, Needs needs position target → target ∈ placed := by
  simp [ready, Needs]

/-! ### Passes -/

theorem placed_nil (needs : List (List Nat)) : Placed needs [] := by
  refine ⟨List.nodup_nil, by simp, ?_⟩
  intro front position rest shape
  simp at shape

/-- A position is placed only when all that it needs has been placed, so what stands in the list
stands behind its needs. -/
theorem Placed.place (isPlaced : Placed needs placed) (inside : position < needs.length) :
    Placed needs (place needs placed position) := by
  rw [ReadingOrder.place]
  split
  · next places =>
      rw [Bool.and_eq_true, ready_iff] at places
      have new : position ∉ placed := by simpa using places.1
      refine ⟨?_, ?_, ?_⟩
      · rw [List.nodup_append]
        refine ⟨isPlaced.nodup, List.nodup_singleton position, ?_⟩
        rintro old isOld _ isNew rfl
        exact new (List.mem_singleton.mp isNew ▸ isOld)
      · intro other isOther
        rcases List.mem_append.mp isOther with old | last
        · exact isPlaced.inside other old
        · rwa [List.mem_singleton.mp last]
      · intro front other rest shape target isNeeded
        rcases List.eq_nil_or_concat rest with rfl | ⟨most, final, rfl⟩
        · rcases List.append_inj' shape rfl with ⟨rfl, last⟩
          obtain rfl : position = other := by simpa using last
          exact places.2 target isNeeded
        · have earlier : placed = front ++ other :: most := by
            have split : placed ++ [position] = (front ++ other :: most) ++ [final] := by
              simpa using shape
            exact (List.append_inj' split rfl).1
          exact isPlaced.ordered front other most earlier target isNeeded
  · exact isPlaced

theorem prefix_place (needs : List (List Nat)) (placed : List Nat) (position : Nat) :
    placed <+: place needs placed position := by
  rw [place]
  split
  · exact List.prefix_append placed [position]
  · exact List.prefix_rfl

theorem Placed.foldl (isPlaced : Placed needs placed) {positions : List Nat}
    (inside : ∀ position ∈ positions, position < needs.length) :
    Placed needs (positions.foldl (ReadingOrder.place needs) placed) := by
  apply List.foldlRecOn positions (ReadingOrder.place needs) isPlaced
  intro current ih position isPosition
  exact ih.place (inside position isPosition)

theorem Placed.pass (isPlaced : Placed needs placed) :
    Placed needs (pass needs placed) :=
  isPlaced.foldl fun _ isPosition => List.mem_range.mp isPosition

theorem prefix_foldl_place (needs : List (List Nat)) (placed positions : List Nat) :
    placed <+: positions.foldl (place needs) placed := by
  induction positions generalizing placed with
  | nil => exact List.prefix_rfl
  | cons position positions ih => exact (prefix_place needs placed position).trans (ih _)

theorem Placed.settle (isPlaced : Placed needs placed) (passes : Nat) :
    Placed needs (settle needs passes placed) := by
  induction passes generalizing placed with
  | zero => exact isPlaced
  | succ passes ih =>
      simp only [ReadingOrder.settle]
      split
      · exact isPlaced
      · exact ih isPlaced.pass

theorem Placed.length_le (isPlaced : Placed needs placed) : placed.length ≤ needs.length := by
  have subset : placed ⊆ List.range needs.length :=
    fun position isPosition => List.mem_range.mpr (isPlaced.inside position isPosition)
  simpa using (isPlaced.nodup.subperm subset).length_le

/-! ### The last pass -/

theorem pass_eq_of_length_le (short : (pass needs placed).length ≤ placed.length) :
    pass needs placed = placed :=
  ((prefix_foldl_place needs placed _).eq_of_length_le short).symm

/-- With enough passes, the last one places nothing. A pass that changes the list makes it longer,
so one pass fewer is enough from there. -/
theorem pass_settle (isPlaced : Placed needs placed) {passes : Nat}
    (enough : needs.length ≤ placed.length + passes) :
    pass needs (settle needs passes placed) = settle needs passes placed := by
  induction passes generalizing placed with
  | zero =>
      apply pass_eq_of_length_le
      exact Nat.le_trans isPlaced.pass.length_le enough
  | succ passes ih =>
      have grows := (prefix_foldl_place needs placed (List.range needs.length)).length_le
      simp only [settle]
      split
      · next same =>
          apply pass_eq_of_length_le
          exact Nat.le_of_eq (by simpa using same)
      · next other =>
          apply ih isPlaced.pass
          have differs : (pass needs placed).length ≠ placed.length := by simpa using other
          unfold pass at differs ⊢
          omega

theorem placed_placement (needs : List (List Nat)) : Placed needs (placement needs) :=
  (placed_nil needs).settle needs.length

theorem pass_placement (needs : List (List Nat)) :
    pass needs (placement needs) = placement needs :=
  pass_settle (placed_nil needs) (by simp)

/-- A pass that leaves the list as it is has placed none of its positions on the way. -/
theorem place_eq_of_foldl {positions : List Nat}
    (unchanged : positions.foldl (place needs) placed = placed) :
    ∀ position ∈ positions, place needs placed position = placed := by
  induction positions with
  | nil => simp
  | cons first positions ih =>
      have start := prefix_place needs placed first
      have rest := prefix_foldl_place needs (place needs placed first) positions
      have same : place needs placed first = placed := by
        apply (start.eq_of_length_le _).symm
        rw [List.foldl_cons] at unchanged
        rw [unchanged] at rest
        exact rest.length_le
      rw [List.foldl_cons, same] at unchanged
      intro position isPosition
      rcases List.mem_cons.mp isPosition with rfl | isLater
      · exact same
      · exact ih unchanged position isLater

/-- What is left over needs something else that is left over. -/
theorem exists_needs_of_not_mem (inside : position < needs.length)
    (left : position ∉ placement needs) :
    ∃ target, Needs needs position target ∧ target ∉ placement needs := by
  have unchanged := place_eq_of_foldl (pass_placement needs) position (List.mem_range.mpr inside)
  by_contra none
  have isReady : ready needs (placement needs) position = true := by
    rw [ready_iff]
    intro target isNeeded
    by_contra missing
    exact none ⟨target, isNeeded, missing⟩
  exact left (by simpa [place, isReady] using unchanged)

/-! ### Cycles -/

/-- What a placed position needs stands before it. -/
theorem Placed.idxOf_lt (isPlaced : Placed needs placed) (isPosition : position ∈ placed)
    (isNeeded : Needs needs position target) :
    target ∈ placed ∧ placed.idxOf target < placed.idxOf position := by
  rcases List.mem_iff_append.mp isPosition with ⟨front, rest, rfl⟩
  have isFront := isPlaced.ordered front position rest rfl target isNeeded
  have notFront : position ∉ front := by
    intro isEarlier
    exact (List.nodup_append.mp isPlaced.nodup).2.2 position isEarlier position
      List.mem_cons_self rfl
  refine ⟨List.mem_append_left _ isFront, ?_⟩
  rw [List.idxOf_append_of_mem isFront, List.idxOf_append_of_notMem notFront, List.idxOf_cons_self]
  exact Nat.lt_of_lt_of_le (List.idxOf_lt_length_of_mem isFront) (Nat.le_add_right _ _)

theorem Placed.idxOf_lt_of_transGen (isPlaced : Placed needs placed)
    (isPosition : position ∈ placed) (path : TransGen (Needs needs) position target) :
    target ∈ placed ∧ placed.idxOf target < placed.idxOf position := by
  induction path with
  | single isNeeded => exact isPlaced.idxOf_lt isPosition isNeeded
  | tail _ isNeeded ih =>
      have step := isPlaced.idxOf_lt ih.1 isNeeded
      exact ⟨step.1, Nat.lt_trans step.2 ih.2⟩

/-- No cycle can be reached from what is placed. -/
theorem Placed.not_reachesCycle (isPlaced : Placed needs placed) (isPosition : position ∈ placed) :
    ¬ReachesCycle (Needs needs) position := by
  rintro ⟨turn, path, cycle⟩
  have isTurn : turn ∈ placed := by
    rcases reflTransGen_iff_eq_or_transGen.mp path with rfl | path
    · exact isPosition
    · exact (isPlaced.idxOf_lt_of_transGen isPosition path).1
  exact Nat.lt_irrefl _ (isPlaced.idxOf_lt_of_transGen isTurn cycle).2

/-- An endless path through finitely many positions meets itself. Two times share a position by the
pigeonhole principle, and the path between them leads from that position back to it. -/
theorem reachesCycle_of_path {step : Nat → Nat → Prop} {bound : Nat} (path : Nat → Nat)
    (inside : ∀ time, path time < bound) (steps : ∀ time, step (path time) (path (time + 1))) :
    ReachesCycle step (path 0) := by
  have later (time more : Nat) : ReflTransGen step (path time) (path (time + more)) := by
    induction more with
    | zero => exact .refl
    | succ more ih => exact ih.tail (steps (time + more))
  have returns {first second : Nat} (lt : first < second) (same : path first = path second) :
      ReachesCycle step (path 0) := by
    have start := later 0 first
    rw [Nat.zero_add] at start
    refine ⟨path first, start, .head' (steps first) ?_⟩
    have back := later (first + 1) (second - (first + 1))
    rwa [Nat.add_sub_cancel' lt, ← same] at back
  rcases Finite.exists_ne_map_eq_of_infinite
    (fun time => (⟨path time, inside time⟩ : Fin bound)) with ⟨first, second, differs, same⟩
  have samePosition : path first = path second := congrArg Fin.val same
  rcases Nat.lt_or_gt_of_ne differs with lt | gt
  · exact returns lt samePosition
  · exact returns gt samePosition.symm

/-- A position is left over exactly if a cycle can be reached from it. What is left over needs
something left over, which needs something left over in turn, so a path of such needs has no end. -/
theorem mem_placement_iff
    (bounded : ∀ position target, Needs needs position target → target < needs.length)
    (inside : position < needs.length) :
    position ∈ placement needs ↔ ¬ReachesCycle (Needs needs) position := by
  constructor
  · exact (placed_placement needs).not_reachesCycle
  · intro acyclic
    by_contra left
    have goesOn (current : { other // other < needs.length ∧ other ∉ placement needs }) :
        ∃ following : { other // other < needs.length ∧ other ∉ placement needs },
          Needs needs current following := by
      rcases exists_needs_of_not_mem current.2.1 current.2.2 with ⟨target, isNeeded, missing⟩
      exact ⟨⟨target, bounded current target isNeeded, missing⟩, isNeeded⟩
    choose following isNeeded using goesOn
    apply acyclic
    apply reachesCycle_of_path (fun time => (following^[time] ⟨position, inside, left⟩).1)
    · intro time
      exact (following^[time] ⟨position, inside, left⟩).2.1
    · intro time
      rw [Function.iterate_succ_apply']
      exact isNeeded _

/-- As many positions are placed as there are exactly if all are. Positions are placed once each,
and they are among as many as there are. -/
theorem length_placement_iff :
    (placement needs).length = needs.length ↔
      ∀ position < needs.length, position ∈ placement needs := by
  have isPlaced := placed_placement needs
  have subset : placement needs ⊆ List.range needs.length :=
    fun position isPosition => List.mem_range.mpr (isPlaced.inside position isPosition)
  have subperm := isPlaced.nodup.subperm subset
  constructor
  · intro same position inside
    have perm := subperm.perm_of_length_le (by simp [same])
    exact perm.mem_iff.mpr (List.mem_range.mpr inside)
  · intro all
    have back : (List.range needs.length).Subperm (placement needs) :=
      List.nodup_range.subperm
        fun position isPosition => all position (List.mem_range.mp isPosition)
    apply Nat.le_antisymm isPlaced.length_le
    simpa using back.length_le

theorem perm_placement (complete : (placement needs).length = needs.length) :
    (placement needs).Perm (List.range needs.length) := by
  have isPlaced := placed_placement needs
  have subset : placement needs ⊆ List.range needs.length :=
    fun position isPosition => List.mem_range.mpr (isPlaced.inside position isPosition)
  exact (isPlaced.nodup.subperm subset).perm_of_length_le (by simp [complete])

end TadsReference.ReadingOrder
