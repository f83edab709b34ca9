import TadsReference.Proofs.Source.ReadingOrder

/-!
# Lists that are in order

If each file of a list stands behind all that it includes, the first pass places the files as they
stand, and the list is left as it is: `order_of_inOrder`. A reading order is such a list, as long as
no two files share a name, so that nothing changes when it is put in order once more:
`order_settles`.
-/

namespace TadsReference.ReadingOrder

variable {files result : List SourceFile} {needs : List (List Nat)} {placed : List Nat}
  {name : String} {position target : Nat}

/-- Each file of a list stands behind all that it includes. -/
def InOrder (files : List SourceFile) : Prop :=
  ∀ position file, files[position]? = some file → ∀ included ∈ file.includes,
    ∃ target < position, Resolves files included target

/-- A list is in order if the position that is found for each include lies before the file that has
it. -/
theorem inOrder_iff : InOrder files ↔
    (files.zipIdx.all fun entry => entry.1.includes.all fun included =>
      (position? files included).any (· < entry.2)) = true := by
  simp only [InOrder, ← position?_eq_some_iff, List.all_eq_true, Option.any_eq_true,
    decide_eq_true_eq, Prod.forall, List.mk_mem_zipIdx_iff_getElem?]
  constructor
  · intro inOrder file position found included isIncluded
    obtain ⟨target, isEarlier, resolved⟩ := inOrder position file found included isIncluded
    exact ⟨target, resolved, isEarlier⟩
  · intro inOrder position file found included isIncluded
    obtain ⟨target, resolved, isEarlier⟩ := inOrder file position found included isIncluded
    exact ⟨target, isEarlier, resolved⟩

/-- Whether a list is in order can be checked file by file. -/
instance (files : List SourceFile) : Decidable (InOrder files) :=
  decidable_of_iff _ inOrder_iff.symm

/-! ### Placing a list that is in order -/

/-- If everything needs only what stands before it, a pass places one position after the other. -/
theorem foldl_place_range (backward : ∀ position target, Needs needs position target →
    target < position) (count : Nat) :
    (List.range count).foldl (place needs) [] = List.range count := by
  induction count with
  | zero => rfl
  | succ count ih =>
      have isReady : ready needs (List.range count) count = true := by
        rw [ready_iff]
        exact fun target isNeeded => List.mem_range.mpr (backward count target isNeeded)
      rw [List.range_succ, List.foldl_append, ih]
      simp [place, isReady]

theorem Placed.settle_of_complete (isPlaced : Placed needs placed)
    (complete : placed.length = needs.length) (passes : Nat) :
    ReadingOrder.settle needs passes placed = placed := by
  cases passes with
  | zero => rfl
  | succ passes =>
      have same : ReadingOrder.pass needs placed = placed :=
        pass_eq_of_length_le (complete ▸ isPlaced.pass.length_le)
      simp [ReadingOrder.settle, same]

/-- If everything needs only what stands before it, positions are placed as they stand. The first
pass places everything, so that the passes after it have nothing to do. -/
theorem placement_of_backward (backward : ∀ position target, Needs needs position target →
    target < position) : placement needs = List.range needs.length := by
  have first : pass needs [] = List.range needs.length := foldl_place_range backward _
  have isPlaced : Placed needs (List.range needs.length) := first ▸ (placed_nil needs).pass
  rw [placement]
  cases count : needs.length with
  | zero => rfl
  | succ passes =>
      rw [count] at first isPlaced
      rw [settle, first]
      simpa using isPlaced.settle_of_complete (by simp [count]) passes

theorem resolves_unique (first : Resolves files name position)
    (second : Resolves files name target) : position = target := by
  rw [← position?_eq_some_iff] at first second
  exact Option.some.inj (first.symm.trans second)

/-- A list that is in order is left as it is. Every file needs earlier ones only, so each of them
can be placed as soon as its turn comes. -/
theorem order_of_inOrder (inOrder : InOrder files) : order files = .ok files := by
  have known : ∀ file ∈ files, AllKnown files file := by
    intro file isFile included isIncluded
    obtain ⟨position, found⟩ := List.getElem?_of_mem isFile
    obtain ⟨target, _, resolved⟩ := inOrder position file found included isIncluded
    exact known_iff.mpr ⟨target, position?_eq_some_iff.mpr resolved⟩
  cases passes : files.mapM (targets files) with
  | error fault =>
      obtain ⟨file, included, rfl, isFirst⟩ := firstUnknown_of_mapM passes
      obtain ⟨isFile, notKnown⟩ := not_allKnown_of_firstUnknown isFirst
      exact absurd (known file isFile) notKnown
  | ok needs =>
      have needsOf := needsOf_of_mapM passes
      have backward : ∀ position target, Needs needs position target → target < position := by
        intro position target isNeeded
        obtain ⟨file, found, included, isIncluded, resolved⟩ :=
          (needsOf.needs position target).mp isNeeded
        obtain ⟨earlier, isEarlier, same⟩ := inOrder position file found included isIncluded
        rwa [resolves_unique resolved same]
      have complete := placement_of_backward backward
      rw [needsOf.length] at complete
      simp [order, positions, passes, bind, Except.bind, Except.map, complete, pure, Except.pure,
        filterMap_range]

/-! ### Reading orders -/

theorem resolves_of_nodup (distinct : (files.map (·.shortName)).Nodup) {file : SourceFile}
    (found : files[position]? = some file) : Resolves files file.shortName position := by
  refine ⟨⟨file, found, rfl⟩, fun later other behind isOther same => ?_⟩
  have inside := (List.getElem?_eq_some_iff.mp found).1
  have samePosition : position = later := by
    apply (List.getElem?_inj (by simpa using inside) distinct).mp
    simp [found, isOther, same]
  exact absurd behind (samePosition ▸ Nat.lt_irrefl _)

theorem exists_positions_of_order (ordered : order files = .ok result) :
    ∃ places, positions files = .ok places ∧ result = places.filterMap (files[·]?) := by
  rw [order] at ordered
  cases placed : positions files with
  | error fault => simp [placed, Except.map] at ordered
  | ok places =>
      rw [placed] at ordered
      exact ⟨places, rfl, (Except.ok.inj ordered).symm⟩

/-- A reading order of files with different names is in order. With different names the includes of
the ordered list mean the files that they meant before. -/
theorem inOrder_of_order (distinct : (files.map (·.shortName)).Nodup)
    (ordered : order files = .ok result) : InOrder result := by
  obtain ⟨places, placed, rfl⟩ := exists_positions_of_order ordered
  have perm : (places.filterMap (files[·]?)).Perm files :=
    ((allKnown_of_positions placed).2.filterMap (files[·]?)).trans (.of_eq (filterMap_range files))
  have distinctThere : ((places.filterMap (files[·]?)).map (·.shortName)).Nodup :=
    (perm.map _).nodup_iff.mpr distinct
  intro position file isThere included isIncluded
  obtain ⟨earlier, isEarlier, other, isOther, rfl⟩ :=
    exists_earlier_of_positions placed isThere isIncluded
  exact ⟨earlier, isEarlier, resolves_of_nodup distinctThere isOther⟩

/-- A list that is in order is left as it is, also if some of its files share a name. If none do,
the reading order is in order, and to order it once more changes nothing. -/
theorem order_settles (files : List SourceFile) :
    (InOrder files → order files = .ok files) ∧
      ((files.map (·.shortName)).Nodup → ∀ result, order files = .ok result →
        order result = .ok result) := by
  refine ⟨order_of_inOrder, fun distinct result ordered => ?_⟩
  exact order_of_inOrder (inOrder_of_order distinct ordered)

/-- Two headers of one name, and a source that includes the second one. -/
def doubledLibrary : List SourceFile :=
  [⟨"a/thing.h", "thing.h", true, [], 1⟩, ⟨"b/thing.h", "thing.h", true, [], 2⟩,
    ⟨"lamp.t", "lamp.t", false, ["thing.h"], 3⟩]

/-- A source that stands before the headers it needs. -/
def turnedLibrary : List SourceFile :=
  [⟨"lamp.t", "lamp.t", false, ["adv3.h"], 3⟩, ⟨"adv3.h", "adv3.h", true, ["tads.h"], 2⟩,
    ⟨"tads.h", "tads.h", true, [], 1⟩]

/-- In the first library the doubled name stands in order already. In the second one the order is
reversed, and left alone then. -/
theorem order_settles_libraries :
    (InOrder doubledLibrary ∧ order doubledLibrary = .ok doubledLibrary) ∧
      (turnedLibrary.map (·.shortName)).Nodup ∧
        order turnedLibrary = .ok turnedLibrary.reverse ∧
          order turnedLibrary.reverse = .ok turnedLibrary.reverse := by
  have inOrder : InOrder doubledLibrary := by decide
  have distinct : (turnedLibrary.map (·.shortName)).Nodup := by decide
  have ordered : order turnedLibrary = .ok turnedLibrary.reverse := by rfl
  refine ⟨⟨inOrder, (order_settles doubledLibrary).1 inOrder⟩, distinct, ordered, ?_⟩
  exact (order_settles turnedLibrary).2 distinct _ ordered

end TadsReference.ReadingOrder
