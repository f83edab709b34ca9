import Mathlib.Data.List.Basic
import TadsReference.Page.Site
import TadsReference.Storage.FileTree

/-!
# Writing into file trees

A file that is written stands at the place of its path and can be read there. Writing leaves every
directory and every other file as it is, so a sequence of writes keeps what each of them wrote, as
long as their paths lead to different places: `Wrote.read`.
-/

namespace TadsReference

namespace FileTree

variable {tree later : FileTree} {place other start last : Place} {path : String}
  {content : List UInt8}

/-! ### Places -/

/-- Replacing the node at one place leaves all others where they are, and adds none. -/
theorem lookup_map_replace (nodes : List (Place × Node)) (place other : Place) (node : Node) :
    (nodes.map fun entry => if entry.1 == place then (place, node) else entry).lookup other =
      if other = place then (nodes.lookup place).map fun _ => node else nodes.lookup other := by
  induction nodes with
  | nil => simp
  | cons entry nodes ih =>
      rcases entry with ⟨key, value⟩
      rw [List.map_cons]
      by_cases isKey : key = place
      · subst isKey
        rw [if_pos (beq_self_eq_true key)]
        by_cases same : other = key
        · subst same
          simp
        · have differs : (other == key) = false := by simpa using same
          simp only [List.lookup_cons, differs, ih, if_neg same]
      · rw [if_neg (by simpa using isKey)]
        by_cases same : other = place
        · subst same
          have differs : (other == key) = false := by simpa using Ne.symm isKey
          simp only [List.lookup_cons, differs, ih]
        · simp only [List.lookup_cons, ih, if_neg same]

/-- What is put at a place stands there, and nothing else changes. The node is either replaced where
the tree has one at that place, or added at the end. -/
theorem node?_put (filled : place ≠ []) (node : Node) (other : Place) :
    (tree.put place node).node? other = if other = place then some node else tree.node? other := by
  have looked : (tree.put place node).nodes.lookup other =
      if other = place then some node else tree.nodes.lookup other := by
    simp only [put]
    split
    · next found =>
        rw [lookup_map_replace]
        split
        · obtain ⟨old, isOld⟩ := Option.isSome_iff_exists.mp found
          simp [isOld]
        · rfl
    · next absent =>
        have none : tree.nodes.lookup place = none := Option.not_isSome_iff_eq_none.mp absent
        rw [List.lookup_append]
        by_cases same : other = place
        · subst same
          simp [none]
        · have differs : (other == place) = false := by simpa using same
          simp [List.lookup_cons, differs, same]
  simp only [node?, looked]
  by_cases same : other = place
  · subst same
    simp [filled]
  · simp [same]

theorem ne_nil_of_not_directory (free : tree.node? place ≠ some .directory) : place ≠ [] := by
  rintro rfl
  exact free rfl

/-- Walking does not notice a file at a place where no directory stands. All that a walk asks of a
place it comes through is that there is a directory. -/
theorem walk_put_file (free : tree.node? place ≠ some .directory) (content : List UInt8)
    {parts : List String} (walked : tree.walk start parts = .ok last) :
    (tree.put place (.file content)).walk start parts = .ok last := by
  induction parts generalizing start with
  | nil => exact walked
  | cons part parts ih =>
      simp only [walk] at walked
      split at walked
      · next isDirectory =>
          have other : start ≠ place := by
            rintro rfl
            exact free isDirectory
          simp only [walk, node?_put (ne_nil_of_not_directory free), if_neg other, isDirectory]
          split at walked
          · contradiction
          · next fits =>
              rw [if_neg fits]
              exact ih walked
      · contradiction
      · contradiction

/-- A walk that does not fail ends where following its parts leads. -/
theorem walk_eq_foldl {parts : List String} (walked : tree.walk start parts = .ok last) :
    last = parts.foldl follow start := by
  induction parts generalizing start with
  | nil =>
      cases walked
      rfl
  | cons part parts ih =>
      simp only [walk] at walked
      split at walked
      · split at walked
        · contradiction
        · exact ih walked
      · contradiction
      · contradiction

/-- The place to which a path leads, if it leads anywhere. -/
def goal (tree : FileTree) (path : String) : Place :=
  (Path.parts path).foldl follow (tree.start path)

/-- A path that leads somewhere leads to its goal. -/
theorem eq_goal_of_locate (located : tree.locate path = .ok place) : place = tree.goal path := by
  unfold locate at located
  split at located
  · contradiction
  · split at located
    · contradiction
    · split at located
      · contradiction
      · exact walk_eq_foldl located

/-- A file that is put where no directory stands does not change where paths lead. -/
theorem locate_put_file (free : tree.node? place ≠ some .directory) (content : List UInt8)
    (located : tree.locate path = .ok other) :
    (tree.put place (.file content)).locate path = .ok other := by
  unfold locate at located ⊢
  split at located
  · contradiction
  · next noNul =>
      split at located
      · contradiction
      · next filled =>
          split at located
          · contradiction
          · next short =>
              rw [if_neg noNul, if_neg filled, if_neg short]
              exact walk_put_file free content located

/-! ### One file -/

/-- A path that does not end in a slash has none to be taken away. -/
theorem withoutSlashes_eq_self (bare : endsInSlash path = false) : withoutSlashes path = path := by
  have last : path.toList.getLast? ≠ some '/' := by simpa [endsInSlash] using bare
  have kept : path.toList.reverse.dropWhile (· == '/') = path.toList.reverse := by
    cases reversed : path.toList.reverse with
    | nil => rfl
    | cons character rest =>
        have other : character ≠ '/' := by
          rintro rfl
          apply last
          rw [List.getLast?_eq_head?_reverse, reversed]
          rfl
        simp [other]
  unfold withoutSlashes
  split
  · next slashes =>
      simp only [Bool.and_eq_true, bne_iff_ne, List.all_eq_true, beq_iff_eq] at slashes
      rcases isLast : path.toList.getLast? with _ | character
      · rw [List.getLast?_eq_none_iff] at isLast
        exact absurd (String.toList_inj.mp isLast) slashes.1
      · have isSlash := slashes.2 character (List.mem_of_getLast? isLast)
        rw [isLast, isSlash] at last
        exact absurd rfl last
  · rw [kept, List.reverse_reverse, String.ofList_toList]

/-- A file can be written at a path: all places on the way are directories, and where the path leads
there is none. -/
structure Writable (tree : FileTree) (path : String) : Prop where
  bare : endsInSlash path = false
  located : tree.locate path = .ok (tree.goal path)
  free : tree.node? (tree.goal path) ≠ some .directory

theorem writable_iff : tree.Writable path ↔ endsInSlash path = false ∧
    tree.locate path = .ok (tree.goal path) ∧ tree.node? (tree.goal path) ≠ some .directory :=
  ⟨fun writable => ⟨writable.bare, writable.located, writable.free⟩,
    fun ⟨bare, located, free⟩ => ⟨bare, located, free⟩⟩

/-- Whether a file can be written at a path can be checked in the tree. -/
instance : Decidable (tree.Writable path) :=
  decidable_of_iff _ writable_iff.symm

/-- Writing works just where a file can be written, and puts the file at the goal of the path. -/
theorem write_eq_ok_iff : tree.write path content = .ok later ↔
    tree.Writable path ∧ later = tree.put (tree.goal path) (.file content) := by
  constructor
  · intro wrote
    simp only [write, bind, Except.bind] at wrote
    split at wrote
    · contradiction
    · next place located =>
        split at wrote
        · contradiction
        · next usable =>
            simp only [Bool.or_eq_true, not_or, Bool.not_eq_true, beq_eq_false_iff_ne] at usable
            rw [withoutSlashes_eq_self usable.1] at located
            obtain rfl := eq_goal_of_locate located
            cases wrote
            exact ⟨⟨usable.1, located, usable.2⟩, rfl⟩
  · rintro ⟨writable, rfl⟩
    have free : (tree.node? (tree.goal path) == some .directory) = false := by
      simpa using writable.free
    simp [write, withoutSlashes_eq_self writable.bare, writable.bare, writable.located, free, bind,
      Except.bind, pure, Except.pure]

theorem goal_put (place : Place) (node : Node) (path : String) :
    (tree.put place node).goal path = tree.goal path :=
  rfl

/-- Reading gives the content of the file at the goal of a path, if the path leads there. -/
theorem read_eq_ok_iff {path : String} : tree.read path = .ok content ↔
    tree.locate path = .ok (tree.goal path) ∧
      tree.node? (tree.goal path) = some (.file content) := by
  cases located : tree.locate path with
  | error fault => simp [FileTree.read, find, located, bind, Except.bind]
  | ok place =>
      obtain rfl := eq_goal_of_locate located
      rcases stands : tree.node? (tree.goal path) with _ | node
      · simp [FileTree.read, find, located, stands, bind, Except.bind]
      · cases node <;>
          simp [FileTree.read, find, located, stands, bind, Except.bind, pure, Except.pure]

/-- All paths lead where they led before, and nothing has changed but at some of the places. -/
structure ChangedOnlyAt (places : List Place) (tree later : FileTree) : Prop where
  goals : ∀ path, later.goal path = tree.goal path
  located : ∀ path place, tree.locate path = .ok place → later.locate path = .ok place
  nodes : ∀ place, place ∉ places → later.node? place = tree.node? place

namespace Writable

variable (writable : tree.Writable path)

include writable

theorem node?_put (content : List UInt8) (place : Place) :
    (tree.put (tree.goal path) (.file content)).node? place =
      if place = tree.goal path then some (.file content) else tree.node? place :=
  FileTree.node?_put (ne_nil_of_not_directory writable.free) (.file content) place

theorem keeps_put (content : List UInt8) :
    ChangedOnlyAt [tree.goal path] tree (tree.put (tree.goal path) (.file content)) := by
  constructor
  · exact fun _ => rfl
  · exact fun _ _ located => locate_put_file writable.free content located
  · intro place other
    rw [writable.node?_put, if_neg (by simpa using other)]

/-- A file that can be written somewhere can be written there after another one has been written,
even at the same place. -/
theorem put {other : String} (second : tree.Writable other) (content : List UInt8) :
    (tree.put (tree.goal path) (.file content)).Writable other := by
  have kept := writable.keeps_put content
  constructor
  · exact second.bare
  · rw [kept.goals]
    exact kept.located _ _ second.located
  · rw [kept.goals, writable.node?_put]
    split
    · simp
    · exact second.free

end Writable

/-! ### One page after the other -/

/-- Run on a tree, an action does not fail and yields a later one. -/
def Yields (action : ExceptT Failure (StateM FileTree) Unit) (tree later : FileTree) : Prop :=
  (action.run.run tree).run = (.ok (), later)

variable {action next : ExceptT Failure (StateM FileTree) Unit} {text : String}
  {page : String × String} {pages before after : List (String × String)}

theorem yields_bind_iff : Yields (action >>= fun _ => next) tree later ↔
    ∃ middle, Yields action tree middle ∧ Yields next middle later := by
  simp only [Yields, ExceptT.run_bind, StateT.run_bind, Id.run_bind]
  rcases (action.run.run tree).run with ⟨result, middle⟩
  cases result with
  | error failure => simp
  | ok done => simp

theorem run_change (operation : FileTree → Except StorageFault FileTree) (tree : FileTree) :
    ((change operation).run.run tree).run =
      match operation tree with
      | .ok later => (.ok (), later)
      | .error fault => (.error fault, tree) := by
  change ((ofExcept (operation tree) >>= set :
    ExceptT StorageFault (StateM FileTree) Unit).run.run tree).run = _
  cases operation tree <;> rfl

theorem yields_atPath_iff {operation : ExceptT StorageFault (StateM FileTree) Unit} :
    Yields (Site.atPath path operation) tree later ↔
      (operation.run.run tree).run = (.ok (), later) := by
  have ran : ((Site.atPath path operation).run.run tree).run =
      ((operation.run.run tree).run.1.mapError (.storage path),
        (operation.run.run tree).run.2) := rfl
  rw [Yields, ran]
  rcases (operation.run.run tree).run with ⟨fault | done, left⟩ <;> simp [Except.mapError]

theorem yields_writePage_iff : Yields (Site.writePage path text) tree later ↔
    tree.Writable path ∧ later = tree.put (tree.goal path) (.file text.toUTF8.toList) := by
  rw [← write_eq_ok_iff, Site.writePage, yields_atPath_iff]
  change ((change (·.write path text.toUTF8.toList)).run.run tree).run = (.ok (), later) ↔ _
  rw [run_change]
  cases tree.write path text.toUTF8.toList <;> simp

/-- Writing the pages one after the other does not fail and yields a later tree. -/
def Wrote (pages : List (String × String)) (tree later : FileTree) : Prop :=
  Yields (pages.forM fun page => Site.writePage page.1 page.2) tree later

theorem wrote_cons_iff : Wrote (page :: pages) tree later ↔ tree.Writable page.1 ∧
    Wrote pages (tree.put (tree.goal page.1) (.file page.2.toUTF8.toList)) later := by
  rw [Wrote, List.forM_eq_forM, List.forM_cons, yields_bind_iff]
  simp only [yields_writePage_iff, and_assoc, exists_and_left, exists_eq_left]
  rfl

theorem wrote_append_iff : Wrote (before ++ after) tree later ↔
    ∃ middle, Wrote before tree middle ∧ Wrote after middle later := by
  rw [Wrote, List.forM_eq_forM, List.forM_append, yields_bind_iff]
  rfl

/-- Writing several pages changes nothing but what stands at their places. The induction is on the
pages. The goals of the later ones are what they were before the first one was written. -/
theorem Wrote.keeps (wrote : Wrote pages tree later) :
    ChangedOnlyAt (pages.map fun page => tree.goal page.1) tree later := by
  induction pages generalizing tree with
  | nil =>
      cases wrote
      exact ⟨fun _ => rfl, fun _ _ located => located, fun _ _ => rfl⟩
  | cons page pages ih =>
      rw [wrote_cons_iff] at wrote
      have first := wrote.1.keeps_put page.2.toUTF8.toList
      have rest := ih wrote.2
      simp only [first.goals] at rest
      constructor
      · intro path
        rw [rest.goals, first.goals]
      · exact fun path place located => rest.located path place (first.located path place located)
      · intro place others
        rw [List.map_cons, List.mem_cons, not_or] at others
        rw [rest.nodes place others.2, first.nodes place (by simpa using others.1)]

theorem Wrote.located (wrote : Wrote pages tree later) (isPage : page ∈ pages) :
    later.locate page.1 = .ok (later.goal page.1) := by
  rcases List.append_of_mem isPage with ⟨before, after, rfl⟩
  rcases wrote_append_iff.mp wrote with ⟨middle, first, second⟩
  have kept := second.keeps
  rw [wrote_cons_iff] at second
  rw [kept.goals]
  exact kept.located _ _ second.1.located

/-- The last page that goes to a place can be read there by the path of any page that goes there.
What is written behind it goes elsewhere, and what is written before it is replaced. -/
theorem Wrote.read {last : String × String} (wrote : Wrote (before ++ last :: after) tree later)
    (apart : ∀ other ∈ after, tree.goal other.1 ≠ tree.goal last.1)
    (isPage : page ∈ before ++ last :: after) (same : tree.goal page.1 = tree.goal last.1) :
    later.read page.1 = .ok last.2.toUTF8.toList := by
  rw [read_eq_ok_iff]
  refine ⟨wrote.located isPage, ?_⟩
  rw [wrote.keeps.goals, same]
  rcases wrote_append_iff.mp wrote with ⟨middle, first, second⟩
  rw [wrote_cons_iff] at second
  rw [← first.keeps.goals, second.2.keeps.nodes, second.1.node?_put, if_pos rfl]
  simpa only [goal_put, first.keeps.goals, List.mem_map, not_exists, not_and] using apart

/-- Pages can be written where each of them could be written alone. -/
theorem exists_wrote (writable : ∀ page ∈ pages, tree.Writable page.1) :
    ∃ later, Wrote pages tree later := by
  induction pages generalizing tree with
  | nil => exact ⟨tree, rfl⟩
  | cons page pages ih =>
      rw [List.forall_mem_cons] at writable
      rcases ih fun other isLater => writable.1.put (writable.2 other isLater) _ with ⟨later, wrote⟩
      exact ⟨later, wrote_cons_iff.mpr ⟨writable.1, wrote⟩⟩

end FileTree

end TadsReference
