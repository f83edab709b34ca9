import TadsReference.Proofs.Storage.Writing

/-!
# Paths below a directory

Slashes that follow each other have no meaning in a path. Below one directory two plain paths lead
to one place just when the same names stand between their slashes, and just then they have the same
steps: `goal_join_eq_iff`, `components_join_eq_iff`.
-/

namespace TadsReference

namespace Path

variable {directory path first second suffix : String}

/-- The names along a path. -/
def names (path : String) : List String :=
  (parts path).filter (· != "")

/-- The names along a path up to its last slash, and what stands behind it. -/
def trail (path : String) : List String × String :=
  ((parts path).dropLast.filter (· != ""), (parts path).getLast?.getD "")

/-- A path that does not begin at the root and in which every part is a name, if it is not empty. -/
structure Plain (path : String) : Prop where
  relative : isAbsolute path = false
  named : ∀ part ∈ parts path, part ≠ "." ∧ part ≠ ".."

/-! ### Parts -/

theorem parts_below (directory path : String) :
    parts (directory ++ "/" ++ path) = parts directory ++ parts path := by
  simp [parts, List.splitOn_append_cons_self]

theorem parts_eq_singleton (bare : '/' ∉ path.toList) : parts path = [path] := by
  simp [parts, List.splitOn_eq_singleton bare]

/-- What is added to a text without a slash lengthens its last part, and leaves the others alone. -/
theorem exists_splitOn_append (text : List Char) :
    ∃ front last, text.splitOn '/' = front ++ [last] ∧
      ∀ more, '/' ∉ more → (text ++ more).splitOn '/' = front ++ [last ++ more] := by
  induction text with
  | nil => exact ⟨[], [], by simp, fun more bare => by simp [List.splitOn_eq_singleton bare]⟩
  | cons character rest ih =>
      rcases ih with ⟨front, last, split, appended⟩
      by_cases isSlash : character = '/'
      · refine ⟨[] :: front, last, ?_, fun more bare => ?_⟩
        · simp [List.splitOn_cons_eq_if_modifyHead, isSlash, split]
        · simp [List.splitOn_cons_eq_if_modifyHead, isSlash, appended more bare]
      · rcases front with _ | ⟨part, front⟩
        · refine ⟨[], character :: last, ?_, fun more bare => ?_⟩
          · simp [List.splitOn_cons_eq_if_modifyHead, isSlash, split]
          · simp [List.splitOn_cons_eq_if_modifyHead, isSlash, appended more bare]
        · refine ⟨(character :: part) :: front, last, ?_, fun more bare => ?_⟩
          · simp [List.splitOn_cons_eq_if_modifyHead, isSlash, split]
          · simp [List.splitOn_cons_eq_if_modifyHead, isSlash, appended more bare]

/-- What is added to a path without a slash belongs to its last part. -/
theorem parts_append (bare : '/' ∉ suffix.toList) :
    parts (path ++ suffix) =
      (parts path).dropLast ++ [(parts path).getLast?.getD "" ++ suffix] := by
  rcases exists_splitOn_append path.toList with ⟨front, last, split, appended⟩
  simp [parts, split, appended _ bare]

/-! ### Names -/

theorem names_append (bare : '/' ∉ suffix.toList) (filled : suffix ≠ "") :
    names (path ++ suffix) = (trail path).1 ++ [(trail path).2 ++ suffix] := by
  simp [names, trail, parts_append bare, filled]

theorem names_append_eq_iff (bare : '/' ∉ suffix.toList) (filled : suffix ≠ "") :
    names (first ++ suffix) = names (second ++ suffix) ↔ trail first = trail second := by
  simp [names_append bare filled, Prod.ext_iff]

theorem trail_below (directory path : String) :
    trail (directory ++ "/" ++ path) = (names directory ++ (trail path).1, (trail path).2) := by
  have filled : parts path ≠ [] := by
    simp [parts]
  rw [Prod.ext_iff]
  constructor
  · simp [trail, names, parts_below, List.dropLast_append_of_ne_nil filled]
  · simp [trail, parts_below, List.getLast?_append_of_ne_nil _ filled]

theorem trail_eq_of_bare (bare : '/' ∉ path.toList) : trail path = ([], path) := by
  simp [trail, parts_eq_singleton bare]

namespace Plain

theorem filterMap_step? (plain : Plain path) :
    (parts path).filterMap step? = (names path).map .name := by
  rw [names, ← List.filterMap_eq_map, List.filterMap_filter]
  apply List.filterMap_congr
  intro part isPart
  rcases plain.named part isPart with ⟨notCurrent, notParent⟩
  by_cases empty : part = "" <;> simp [step?, notCurrent, notParent, empty]

/-- Following a plain path leads down along its names, wherever it starts. -/
theorem foldl_follow (plain : Plain path) (place : Place) :
    (parts path).foldl FileTree.follow place = place ++ names path := by
  have named := plain.named
  unfold names
  generalize parts path = shown at named ⊢
  induction shown generalizing place with
  | nil => simp
  | cons part rest ih =>
      rw [List.forall_mem_cons] at named
      rw [List.foldl_cons, ih _ named.2]
      by_cases empty : part = "" <;> simp [FileTree.follow, named.1, empty]

end Plain

/-! ### Joined paths -/

/-- What a directory puts before the paths below it. -/
def front (directory : String) : String :=
  if directory = "" then ""
  else if directory.toList.getLast? == some '/' then directory
  else directory ++ "/"

/-- A relative path is put behind the directory, with a slash between them unless the directory ends
in one. -/
theorem join_eq_append (relative : isAbsolute path = false) :
    join directory path = front directory ++ path := by
  unfold join front
  by_cases empty : directory = ""
  · simp [empty]
  · simp only [relative, empty, Bool.false_or, beq_iff_eq, if_false]
    split <;> rfl

/-- What a directory puts before a path is nothing or ends in a slash. -/
theorem front_cases (directory : String) :
    front directory = "" ∨ ∃ outer, front directory = outer ++ "/" := by
  unfold front
  split
  · exact .inl rfl
  · split
    · next last =>
        rcases List.getLast?_eq_some_iff.mp (by simpa using last) with ⟨outer, shape⟩
        refine .inr ⟨String.ofList outer, String.toList_inj.mp ?_⟩
        simpa using shape
    · exact .inr ⟨directory, rfl⟩

theorem isAbsolute_below (outer path : String) :
    isAbsolute (outer ++ "/" ++ path) = isAbsolute (outer ++ "/") := by
  simp [isAbsolute]

theorem Plain.components_eq (plain : Plain path) :
    components path = (names path).map .name := by
  have other : (parts path).head? ≠ some "." := by
    intro isFirst
    exact (plain.named "." (List.mem_of_head? isFirst)).1 rfl
  simp [components, plain.relative, plain.filterMap_step?, other]

/-- Below one directory, paths have the steps of the directory in common, and then those of their
own names. -/
theorem exists_components_join (directory : String) : ∃ lead : List Component,
    ∀ path, Plain path → components (join directory path) = lead ++ (names path).map .name := by
  rcases front_cases directory with empty | ⟨outer, below⟩
  · refine ⟨[], fun path plain => ?_⟩
    simp [join_eq_append plain.relative, empty, plain.components_eq]
  · have filled : parts outer ≠ [] := by
      simp [parts]
    refine ⟨(if isAbsolute (outer ++ "/") then [.root]
      else if (parts outer).head? == some "." then [.current]
      else []) ++ (parts outer).filterMap step?, fun path plain => ?_⟩
    rw [join_eq_append plain.relative, below, components, isAbsolute_below, parts_below,
      List.filterMap_append, plain.filterMap_step?, List.head?_append_of_ne_nil _ filled,
      List.append_assoc]

/-- Below one directory, two plain paths have the same steps if they have the same names. -/
theorem components_join_eq_iff (plain : Plain first) (other : Plain second) :
    components (join directory first) = components (join directory second) ↔
      names first = names second := by
  rcases exists_components_join directory with ⟨lead, shape⟩
  rw [shape first plain, shape second other, List.append_cancel_left_eq]
  exact (List.map_injective_iff.mpr fun _ _ => Component.name.inj).eq_iff

end Path

namespace FileTree

variable {tree : FileTree} {directory first second : String}

/-- Below one directory, paths lead to one place in common, and from there down along their own
names. -/
theorem exists_goal_join (tree : FileTree) (directory : String) : ∃ lead : Place,
    ∀ path, Path.Plain path → tree.goal (Path.join directory path) = lead ++ Path.names path := by
  rcases Path.front_cases directory with empty | ⟨outer, below⟩
  · refine ⟨tree.current, fun path plain => ?_⟩
    simp [Path.join_eq_append plain.relative, empty, goal, start, plain.relative,
      plain.foldl_follow]
  · refine ⟨(Path.parts outer).foldl follow (tree.start (outer ++ "/")), fun path plain => ?_⟩
    rw [Path.join_eq_append plain.relative, below, goal, start, Path.isAbsolute_below,
      Path.parts_below, List.foldl_append, plain.foldl_follow]
    rfl

/-- Below one directory, two plain paths lead to one place if they have the same names. -/
theorem goal_join_eq_iff (plain : Path.Plain first) (other : Path.Plain second) :
    tree.goal (Path.join directory first) = tree.goal (Path.join directory second) ↔
      Path.names first = Path.names second := by
  rcases exists_goal_join tree directory with ⟨lead, shape⟩
  rw [shape first plain, shape second other, List.append_cancel_left_eq]

end FileTree

end TadsReference
