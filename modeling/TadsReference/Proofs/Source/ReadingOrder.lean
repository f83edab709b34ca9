import Mathlib.Data.List.Forall2
import TadsReference.Proofs.Source.Placement

/-!
# The reading order

Three things can become of a list of files: one of them includes a file that is not in the list, a
cycle of includes can be reached from some of them, or they are put in an order in which each comes
after the files that it includes. `outcome_order` says when each happens and what is returned.
-/

namespace TadsReference.ReadingOrder

open Relation

/-! ### Checking a list -/

section Checking

variable {Item Result Fault : Type} {check : Item → Except Fault Result} {items : List Item}

/-- A list that passes a check has a result for each of its items. -/
theorem forall₂_of_mapM {results : List Result} (passes : items.mapM check = .ok results) :
    List.Forall₂ (fun item result => check item = .ok result) items results := by
  induction items generalizing results with
  | nil =>
      obtain rfl : [] = results := Except.ok.inj passes
      exact .nil
  | cons item items ih =>
      rw [List.mapM_cons] at passes
      cases first : check item with
      | error fault =>
          rw [first] at passes
          contradiction
      | ok result =>
          cases rest : items.mapM check with
          | error fault =>
              rw [first, rest] at passes
              contradiction
          | ok others =>
              rw [first, rest] at passes
              obtain rfl : result :: others = results := Except.ok.inj passes
              exact .cons first (ih rest)

/-- The check of a list fails as it fails for the first item that does not pass. Those before it
pass, since the check goes through the list in order and stops at the first failure. -/
theorem exists_failure_of_mapM {fault : Fault} (fails : items.mapM check = .error fault) :
    ∃ front item rest, items = front ++ item :: rest ∧
      (∀ earlier ∈ front, ∃ result, check earlier = .ok result) ∧ check item = .error fault := by
  induction items with
  | nil => contradiction
  | cons item items ih =>
      rw [List.mapM_cons] at fails
      cases first : check item with
      | error other =>
          rw [first] at fails
          obtain rfl : other = fault := Except.error.inj fails
          exact ⟨[], item, items, rfl, by simp, first⟩
      | ok result =>
          rw [first] at fails
          cases rest : items.mapM check with
          | ok others =>
              rw [rest] at fails
              contradiction
          | error other =>
              rw [rest] at fails
              obtain rfl : other = fault := Except.error.inj fails
              rcases ih rest with ⟨front, culprit, others, rfl, passes, failsThere⟩
              refine ⟨item :: front, culprit, others, rfl, ?_, failsThere⟩
              intro earlier isEarlier
              rcases List.mem_cons.mp isEarlier with rfl | isFront
              · exact ⟨result, first⟩
              · exact passes earlier isFront

end Checking

variable {files : List SourceFile} {file : SourceFile} {name included : String}
  {position target : Nat} {needs : List (List Nat)}

/-! ### What includes refer to -/

/-- A position holds the last file of a short name. -/
def Resolves (files : List SourceFile) (name : String) (position : Nat) : Prop :=
  (∃ file, files[position]? = some file ∧ file.shortName = name) ∧
    ∀ later file, position < later → files[later]? = some file → file.shortName ≠ name

/-- Some file has a short name. -/
def Known (files : List SourceFile) (name : String) : Prop :=
  ∃ file ∈ files, file.shortName = name

/-- All includes of a file are known. -/
def AllKnown (files : List SourceFile) (file : SourceFile) : Prop :=
  ∀ included ∈ file.includes, Known files included

/-- The file at one position includes the file at another. -/
def Includes (files : List SourceFile) (position target : Nat) : Prop :=
  ∃ file, files[position]? = some file ∧ ∃ included ∈ file.includes,
    Resolves files included target

theorem position?_append (files : List SourceFile) (last : SourceFile) (name : String) :
    position? (files ++ [last]) name =
      if last.shortName = name then some files.length else position? files name := by
  simp only [position?, List.zipIdx_append, List.reverse_append, List.zipIdx_singleton,
    List.reverse_singleton, List.singleton_append, List.find?_cons, Nat.zero_add]
  by_cases same : last.shortName = name
  · simp [same]
  · have differs : (last.shortName == name) = false := by simpa using same
    simp [same, differs]

theorem getElem?_append_last {last : SourceFile} :
    (files ++ [last])[position]? = some file ↔
      files[position]? = some file ∨ position = files.length ∧ file = last := by
  rcases Nat.lt_trichotomy position files.length with inside | rfl | outside
  · rw [List.getElem?_append_left inside]
    constructor
    · exact .inl
    · rintro (found | ⟨rfl, _⟩)
      · exact found
      · exact absurd inside (Nat.lt_irrefl _)
  · simp [eq_comm]
  · have beyond : (files ++ [last]).length ≤ position := by
      rw [List.length_append, List.length_singleton]
      exact outside
    rw [List.getElem?_eq_none beyond, List.getElem?_eq_none (Nat.le_of_lt outside)]
    simp [Nat.ne_of_gt outside]

/-- A file that is put behind the others takes its name over from them, and no other name. A name
stands for the last file that bears it, so it depends on the new file alone if that bears it,
too. -/
theorem resolves_append (files : List SourceFile) (last : SourceFile) (name : String)
    (position : Nat) :
    Resolves (files ++ [last]) name position ↔
      if last.shortName = name then position = files.length
      else Resolves files name position := by
  have inside {position : Nat} {file : SourceFile} (found : files[position]? = some file) :
      position < files.length := (List.getElem?_eq_some_iff.mp found).1
  simp only [Resolves, getElem?_append_last]
  split
  · next same =>
      constructor
      · rintro ⟨⟨file, found | ⟨isLast, _⟩, _⟩, none⟩
        · exact absurd same (none files.length last (inside found) (.inr ⟨rfl, rfl⟩))
        · exact isLast
      · rintro rfl
        refine ⟨⟨last, .inr ⟨rfl, rfl⟩, same⟩, ?_⟩
        rintro later file behind (found | ⟨rfl, _⟩)
        · exact absurd (inside found) (Nat.lt_asymm behind)
        · exact absurd behind (Nat.lt_irrefl _)
  · next other =>
      constructor
      · rintro ⟨⟨file, found | ⟨_, rfl⟩, named⟩, none⟩
        · exact ⟨⟨file, found, named⟩, fun later file behind found =>
            none later file behind (.inl found)⟩
        · exact absurd named other
      · rintro ⟨⟨file, found, named⟩, none⟩
        refine ⟨⟨file, .inl found, named⟩, ?_⟩
        rintro later file behind (found | ⟨_, rfl⟩)
        · exact none later file behind found
        · exact other

/-- The position that is found for a name is that of the last file of this name. The last file is
looked at first, since it hides earlier ones of its name, so the induction is from the end of the
list. -/
theorem position?_eq_some_iff :
    position? files name = some position ↔ Resolves files name position := by
  induction files using List.reverseRecOn with
  | nil => simp [position?, Resolves]
  | append_singleton files last ih =>
      rw [position?_append, resolves_append, ← ih]
      split
      · rw [Option.some.injEq, eq_comm]
      · exact Iff.rfl

/-- No position is found just for a name that no file has. -/
theorem position?_eq_none_iff : position? files name = none ↔ ¬Known files name := by
  induction files using List.reverseRecOn with
  | nil => simp [position?, Known]
  | append_singleton files last ih =>
      rw [position?_append]
      split
      · next same => simp [Known, same]
      · next other =>
          rw [ih]
          simp [Known, other, or_and_right, exists_or]

/-! ### What files need -/

/-- The first file with an include that is not known, and its first such include. -/
structure FirstUnknown (files : List SourceFile) (file : SourceFile) (included : String) :
    Prop where
  firstFile : ∃ front rest, files = front ++ file :: rest ∧
    ∀ earlier ∈ front, AllKnown files earlier
  firstInclude : ∃ front rest, file.includes = front ++ included :: rest ∧
    ∀ earlier ∈ front, Known files earlier
  unknown : ¬Known files included

theorem known_iff : Known files name ↔ ∃ position, position? files name = some position := by
  rw [← Option.isSome_iff_exists, ← Option.ne_none_iff_isSome, Ne, position?_eq_none_iff,
    Classical.not_not]

/-- The includes of a file that passes are all known, and their positions are those that are
found. -/
theorem targets_eq_ok {found : List Nat} (passes : targets files file = .ok found) :
    found = file.includes.filterMap (position? files) ∧ AllKnown files file := by
  have each := forall₂_of_mapM passes
  clear passes
  rw [AllKnown]
  generalize file.includes = includes at each
  induction each with
  | nil => exact ⟨rfl, by simp⟩
  | @cons included target includes found first _ ih =>
      rcases ih with ⟨rfl, known⟩
      cases resolved : position? files included with
      | none => simp [resolved] at first
      | some position =>
          obtain rfl : position = target := by simpa [resolved] using first
          refine ⟨by simp [resolved], ?_⟩
          intro other isOther
          rcases List.mem_cons.mp isOther with rfl | isLater
          · exact known_iff.mpr ⟨position, resolved⟩
          · exact known other isLater

/-- A file fails at the first of its includes that is not known. -/
theorem targets_eq_error {fault : Failure} (fails : targets files file = .error fault) :
    ∃ included, fault = .unknownInclude file.shortName included ∧ ¬Known files included ∧
      ∃ front rest, file.includes = front ++ included :: rest ∧
        ∀ earlier ∈ front, Known files earlier := by
  rcases exists_failure_of_mapM fails with ⟨front, included, rest, shape, passes, failsThere⟩
  cases resolved : position? files included with
  | some position => simp [resolved] at failsThere
  | none =>
      obtain rfl : Failure.unknownInclude file.shortName included = fault := by
        simpa [resolved] using failsThere
      refine ⟨included, rfl, position?_eq_none_iff.mp resolved, front, rest, shape, ?_⟩
      intro earlier isEarlier
      rcases passes earlier isEarlier with ⟨position, found⟩
      cases resolvedEarlier : position? files earlier with
      | none => simp [resolvedEarlier] at found
      | some position => exact known_iff.mpr ⟨position, resolvedEarlier⟩

/-- A list is turned down at its first file with an include that is not known. -/
theorem firstUnknown_of_mapM {fault : Failure}
    (fails : files.mapM (targets files) = .error fault) :
    ∃ file included, fault = .unknownInclude file.shortName included ∧
      FirstUnknown files file included := by
  rcases exists_failure_of_mapM fails with ⟨front, file, rest, shape, passes, failsThere⟩
  rcases targets_eq_error failsThere with ⟨included, rfl, unknown, isFirst⟩
  refine ⟨file, included, rfl, ⟨front, rest, shape, ?_⟩, isFirst, unknown⟩
  intro earlier isEarlier
  rcases passes earlier isEarlier with ⟨found, passesThere⟩
  exact (targets_eq_ok passesThere).2

/-- The needs of a list of files are the files that they include. -/
structure NeedsOf (files : List SourceFile) (needs : List (List Nat)) : Prop where
  known : ∀ file ∈ files, AllKnown files file
  length : needs.length = files.length
  needs : ∀ position target, Needs needs position target ↔ Includes files position target

/-- If all files pass, what they need are the files that they include. -/
theorem needsOf_of_mapM (passes : files.mapM (targets files) = .ok needs) :
    NeedsOf files needs := by
  rcases List.forall₂_iff_get.mp (forall₂_of_mapM passes) with ⟨length, each⟩
  refine ⟨?_, length.symm, ?_⟩
  · intro file isFile
    rcases List.mem_iff_get.mp isFile with ⟨⟨position, inside⟩, rfl⟩
    exact (targets_eq_ok (each position inside (length ▸ inside))).2
  · intro position target
    by_cases inside : position < files.length
    · have found := (targets_eq_ok (each position inside (length ▸ inside))).1
      have atPosition : files[position]? = some (files.get ⟨position, inside⟩) :=
        List.getElem?_eq_getElem inside
      have needed : needs[position]? = some (needs.get ⟨position, length ▸ inside⟩) :=
        List.getElem?_eq_getElem (length ▸ inside)
      simp only [Needs, needed, found, Includes, atPosition, Option.getD_some, List.mem_filterMap,
        position?_eq_some_iff, Option.some.injEq, exists_eq_left']
    · have outside : needs.length ≤ position := length ▸ Nat.le_of_not_lt inside
      simp [Needs, Includes, inside, outside]

/-- A reading order is the placement of all files by what they need. -/
theorem exists_needsOf_of_positions {order : List Nat} (ordered : positions files = .ok order) :
    ∃ needs, NeedsOf files needs ∧ order = placement needs ∧
      (placement needs).length = needs.length := by
  rw [positions] at ordered
  cases passes : files.mapM (targets files) with
  | error failure => simp [passes, bind, Except.bind] at ordered
  | ok needs =>
      have needsOf := needsOf_of_mapM passes
      simp only [passes, bind, Except.bind] at ordered
      split at ordered
      · next complete =>
          rw [beq_iff_eq, ← needsOf.length] at complete
          exact ⟨needs, needsOf, (Except.ok.inj ordered).symm, complete⟩
      · contradiction

/-- A reading order exists only where all includes are known, and it takes every file once. -/
theorem allKnown_of_positions {order : List Nat} (ordered : positions files = .ok order) :
    (∀ file ∈ files, AllKnown files file) ∧ order.Perm (List.range files.length) := by
  rcases exists_needsOf_of_positions ordered with ⟨needs, needsOf, rfl, complete⟩
  rw [← needsOf.length]
  exact ⟨needsOf.known, perm_placement complete⟩

/-- In a reading order each file stands behind all that it includes. -/
theorem mem_front_of_positions {order front rest : List Nat}
    (ordered : positions files = .ok order) (shape : order = front ++ position :: rest)
    (includes : Includes files position target) : target ∈ front := by
  rcases exists_needsOf_of_positions ordered with ⟨needs, needsOf, rfl, _⟩
  exact (placed_placement needs).ordered front position rest shape target
    ((needsOf.needs position target).mpr includes)

theorem getElem?_filterMap_of_forall {Item Value : Type} {read : Item → Option Value}
    {items : List Item} (all : ∀ item ∈ items, ∃ value, read item = some value) (position : Nat) :
    (items.filterMap read)[position]? = (items[position]?).bind read := by
  induction items generalizing position with
  | nil => simp
  | cons item items ih =>
      simp only [List.forall_mem_cons] at all
      rcases all.1 with ⟨value, found⟩
      rw [List.filterMap_cons_some found]
      cases position with
      | zero => simp [found]
      | succ position => simpa using ih all.2 position

/-- Of the files in a reading order each stands behind one of every name that it includes. The order
was made for the last file of the name, so that one stands before the file, wherever the first one
is. -/
theorem exists_earlier_of_positions {order : List Nat} (ordered : positions files = .ok order)
    (found : (order.filterMap (files[·]?))[position]? = some file)
    (isIncluded : included ∈ file.includes) :
    ∃ earlier < position, ∃ other,
      (order.filterMap (files[·]?))[earlier]? = some other ∧ other.shortName = included := by
  rcases allKnown_of_positions ordered with ⟨known, complete⟩
  have inside : ∀ place ∈ order, ∃ file, files[place]? = some file := by
    intro place isPlace
    have bound := List.mem_range.mp (complete.mem_iff.mp isPlace)
    exact ⟨files[place], List.getElem?_eq_getElem bound⟩
  have arranged := getElem?_filterMap_of_forall inside
  rw [arranged] at found
  rcases Option.bind_eq_some_iff.mp found with ⟨place, isPlaced, isFile⟩
  rcases known_iff.mp (known file (List.mem_of_getElem? isFile) included isIncluded)
    with ⟨last, isLast⟩
  rw [position?_eq_some_iff] at isLast
  rcases isLast.1 with ⟨other, isOther, named⟩
  have shape : order = order.take position ++ place :: order.drop (position + 1) := by
    rcases List.getElem?_eq_some_iff.mp isPlaced with ⟨bound, rfl⟩
    rw [List.getElem_cons_drop, List.take_append_drop]
  have isEarlier := mem_front_of_positions ordered shape
    ⟨file, isFile, included, isIncluded, isLast⟩
  rcases List.mem_take_iff_getElem.mp isEarlier with ⟨earlier, bound, isLast⟩
  rcases Nat.lt_min.mp bound with ⟨isFront, short⟩
  refine ⟨earlier, isFront, other, ?_, named⟩
  rw [arranged, List.getElem?_eq_getElem short, isLast]
  exact isOther

/-! ### What becomes of a list -/

theorem lt_length_of_includes (includes : Includes files position target) :
    target < files.length := by
  rcases includes with ⟨_, _, _, _, ⟨⟨file, found, _⟩, _⟩⟩
  exact (List.getElem?_eq_some_iff.mp found).1

/-- A file is placed unless a cycle of includes can be reached from it. -/
theorem NeedsOf.mem_placement_iff (needsOf : NeedsOf files needs)
    (inside : position < files.length) :
    position ∈ placement needs ↔ ¬ReachesCycle (Includes files) position := by
  have same : Needs needs = Includes files := by
    funext position target
    exact propext (needsOf.needs position target)
  rw [← same]
  apply ReadingOrder.mem_placement_iff
  · intro position target isNeeded
    rw [needsOf.length]
    exact lt_length_of_includes ((needsOf.needs position target).mp isNeeded)
  · rwa [needsOf.length]

theorem filterMap_range {Item : Type} (items : List Item) :
    (List.range items.length).filterMap (items[·]?) = items := by
  have found : (List.range items.length).map (items[·]?) = items.map some := by
    apply List.ext_getElem?
    intro position
    by_cases inside : position < items.length
    · simp [inside]
    · simp [inside]
  have flat := congrArg (List.filterMap id) found
  simpa only [List.filterMap_map, Function.id_comp, List.filterMap_some] using flat

open Classical in
/-- What becomes of a list of files, and when. -/
structure Outcome (files : List SourceFile) (outcome : Except Failure (List SourceFile)) :
    Prop where
  unknown : (∃ shortName included, outcome = .error (.unknownInclude shortName included)) ↔
    ∃ file ∈ files, ¬AllKnown files file
  firstUnknown : ∀ shortName included,
    outcome = .error (.unknownInclude shortName included) →
      ∃ file, file.shortName = shortName ∧ FirstUnknown files file included
  cyclic : (∃ names, outcome = .error (.cyclicIncludes names)) ↔
    (∀ file ∈ files, AllKnown files file) ∧
      ∃ position < files.length, ReachesCycle (Includes files) position
  names : ∀ names, outcome = .error (.cyclicIncludes names) →
    names = (files.zipIdx.filter fun entry => ReachesCycle (Includes files) entry.2).map
      (·.1.shortName)
  ordered : (∃ result, outcome = .ok result) ↔
    (∀ file ∈ files, AllKnown files file) ∧
      ∀ position < files.length, ¬ReachesCycle (Includes files) position
  result : ∀ result, outcome = .ok result → result.Perm files ∧
    ∃ positions : List Nat, positions.Perm (List.range files.length) ∧
      result = positions.filterMap (files[·]?) ∧
        ∀ front position rest, positions = front ++ position :: rest →
          ∀ target, Includes files position target → target ∈ front

theorem not_allKnown_of_firstUnknown (isFirst : FirstUnknown files file included) :
    file ∈ files ∧ ¬AllKnown files file := by
  rcases isFirst with ⟨⟨front, rest, shape, _⟩, ⟨before, after, includes, _⟩, unknown⟩
  refine ⟨by simp [shape], ?_⟩
  intro known
  exact unknown (known included (by simp [includes]))

/-- A list with an unknown include is turned down for the first of those, and the other two reasons
do not apply. -/
theorem outcome_of_firstUnknown (isFirst : FirstUnknown files file included) :
    Outcome files (.error (.unknownInclude file.shortName included)) := by
  rcases not_allKnown_of_firstUnknown isFirst with ⟨isFile, notKnown⟩
  have notAll : ¬∀ file ∈ files, AllKnown files file := fun all => notKnown (all file isFile)
  constructor
  · exact ⟨fun _ => ⟨file, isFile, notKnown⟩, fun _ => ⟨_, _, rfl⟩⟩
  · rintro _ _ ⟨⟩
    exact ⟨file, rfl, isFirst⟩
  · simp [notAll]
  · rintro _ ⟨⟩
  · simp [notAll]
  · rintro _ ⟨⟩

/-- If everything is placed, no cycle can be reached from any file, and the order is one of the
whole list. -/
theorem NeedsOf.outcome_of_complete (needsOf : NeedsOf files needs)
    (complete : (placement needs).length = files.length) :
    Outcome files (.ok ((placement needs).filterMap (files[·]?))) := by
  have acyclic : ∀ position < files.length, ¬ReachesCycle (Includes files) position := by
    intro position inside
    rw [← needsOf.mem_placement_iff inside]
    rw [← needsOf.length] at complete inside
    exact length_placement_iff.mp complete position inside
  have perm : (placement needs).Perm (List.range files.length) := by
    rw [← needsOf.length] at complete ⊢
    exact perm_placement complete
  constructor
  · constructor
    · rintro ⟨_, _, ⟨⟩⟩
    · rintro ⟨file, isFile, notKnown⟩
      exact absurd (needsOf.known file isFile) notKnown
  · rintro _ _ ⟨⟩
  · constructor
    · rintro ⟨_, ⟨⟩⟩
    · rintro ⟨_, position, inside, reaches⟩
      exact absurd reaches (acyclic position inside)
  · rintro _ ⟨⟩
  · exact ⟨fun _ => ⟨needsOf.known, acyclic⟩, fun _ => ⟨_, rfl⟩⟩
  · rintro _ ⟨⟩
    refine ⟨?_, placement needs, perm, rfl, ?_⟩
    · have same := perm.filterMap (files[·]?)
      rwa [filterMap_range] at same
    · intro front position rest shape target includes
      exact (placed_placement needs).ordered front position rest shape target
        ((needsOf.needs position target).mpr includes)

/-- If something is left over, the files that are named are those from which a cycle can be reached,
in the order of the list. -/
theorem NeedsOf.outcome_of_incomplete (needsOf : NeedsOf files needs)
    (incomplete : (placement needs).length ≠ files.length) :
    Outcome files (.error (.cyclicIncludes
      ((files.zipIdx.filter fun entry => !(placement needs).contains entry.2).map
        (·.1.shortName)))) := by
  have reaches : ∃ position < files.length, ReachesCycle (Includes files) position := by
    by_contra none
    apply incomplete
    rw [← needsOf.length]
    apply length_placement_iff.mpr
    intro position inside
    rw [needsOf.length] at inside
    rw [needsOf.mem_placement_iff inside]
    intro reaches
    exact none ⟨position, inside, reaches⟩
  constructor
  · constructor
    · rintro ⟨_, _, ⟨⟩⟩
    · rintro ⟨file, isFile, notKnown⟩
      exact absurd (needsOf.known file isFile) notKnown
  · rintro _ _ ⟨⟩
  · exact ⟨fun _ => ⟨needsOf.known, reaches⟩, fun _ => ⟨_, rfl⟩⟩
  · rintro _ ⟨⟩
    apply congrArg
    apply List.filter_congr
    rintro ⟨file, position⟩ isEntry
    have inside : position < files.length := by
      have found := List.mem_zipIdx_iff_getElem?.mp isEntry
      exact (List.getElem?_eq_some_iff.mp found).1
    have isPlaced := needsOf.mem_placement_iff inside
    by_cases stuck : ReachesCycle (Includes files) position <;> simp [isPlaced, stuck]
  · constructor
    · rintro ⟨_, ⟨⟩⟩
    · rintro ⟨_, acyclic⟩
      rcases reaches with ⟨position, inside, reaches⟩
      exact absurd reaches (acyclic position inside)
  · rintro _ ⟨⟩

/-- Every list of files is turned down for a reason or put in order. Includes are resolved before
anything is placed, which is why an unknown one is reported first. -/
theorem outcome_order (files : List SourceFile) : Outcome files (order files) := by
  cases passes : files.mapM (targets files) with
  | error fault =>
      rcases firstUnknown_of_mapM passes with ⟨file, included, rfl, isFirst⟩
      have outcome : order files = .error (.unknownInclude file.shortName included) := by
        simp [order, positions, passes, bind, Except.bind, Except.map]
      rw [outcome]
      exact outcome_of_firstUnknown isFirst
  | ok needs =>
      have needsOf := needsOf_of_mapM passes
      by_cases complete : (placement needs).length = files.length
      · have outcome : order files = .ok ((placement needs).filterMap (files[·]?)) := by
          simp [order, positions, passes, bind, Except.bind, Except.map, complete, pure,
            Except.pure]
        rw [outcome]
        exact needsOf.outcome_of_complete complete
      · have outcome : order files = .error (.cyclicIncludes
            ((files.zipIdx.filter fun entry => !(placement needs).contains entry.2).map
              (·.1.shortName))) := by
          simp [order, positions, passes, bind, Except.bind, Except.map, complete, throw, throwThe,
            MonadExceptOf.throw]
        rw [outcome]
        exact needsOf.outcome_of_incomplete complete

end TadsReference.ReadingOrder
