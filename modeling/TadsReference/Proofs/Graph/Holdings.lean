import TadsReference.Proofs.Graph.Collections
import TadsReference.Proofs.Graph.Filing

/-!
# What files hold

While files are read, every group is listed once and has as members the constants that name it,
what a file lists stands in it, and the files together list all declarations of their kinds:
`Grouped`, `AllLocated` and `Filed`, each kept by every step of recording.
-/

namespace TadsReference

open Relation

namespace Decl

theorem isSome_enumGroup? (decl : Decl) :
    decl.enumGroup?.isSome = true ↔ decl.kindLabel = "enum" := by
  rcases decl with ⟨_, _, _, kind⟩
  cases kind <;> simp [enumGroup?, kindLabel]

theorem enumGroup?_of_owner? {decl : Decl} {owner : DeclId} (owned : decl.owner? = some owner) :
    decl.enumGroup? = none := by
  rcases decl with ⟨_, _, _, kind⟩
  cases kind <;> first | rfl | simp [owner?, member?] at owned

end Decl

namespace FileListing

theorem label_ne_enum (listing : FileListing) : listing.listing.label ≠ "enum" := by
  cases listing <;> simp [FileListing.listing, Listing.label]

end FileListing

/-! ### Lists of lists -/

section FlatMap

variable {Item Value : Type} {read : Item → List Value} {change : Item → Item}

/-- What one of the items gets more, all of them together get more. The other items keep what they
have, and the order does not matter. -/
theorem perm_flatMap_modify {added : List Value}
    (adds : ∀ item, read (change item) = read item ++ added) {items : List Item} {index : Nat}
    (inside : index < items.length) :
    ((items.modify index change).flatMap read).Perm (items.flatMap read ++ added) := by
  induction items generalizing index with
  | nil => exact absurd inside (Nat.not_lt_zero _)
  | cons item items ih =>
      cases index with
      | zero =>
          simp only [List.modify_zero_cons, List.flatMap_cons, adds, List.append_assoc]
          exact List.perm_append_comm.append_left (read item)
      | succ index =>
          simp only [List.modify_succ_cons, List.flatMap_cons, List.append_assoc]
          exact (ih (Nat.lt_of_succ_lt_succ inside)).append_left (read item)

theorem perm_flatMap_modify_of_perm (keeps : ∀ item, (read (change item)).Perm (read item))
    (items : List Item) (index : Nat) :
    ((items.modify index change).flatMap read).Perm (items.flatMap read) := by
  induction items generalizing index with
  | nil => simp
  | cons item items ih =>
      cases index with
      | zero =>
          simp only [List.modify_zero_cons, List.flatMap_cons]
          exact (keeps item).append_right _
      | succ index =>
          simp only [List.modify_succ_cons, List.flatMap_cons]
          exact (ih index).append_left (read item)

end FlatMap

namespace Graph

variable {graph before middle after : Graph} {index : Nat} {id : DeclId} {group : GroupId}
  {file : FileRecord} {change : FileRecord → FileRecord}

/-- A record after a change is one of before, or it is the changed record of the file at the
position, which is then one of before as well. -/
theorem mem_files_modifyFile_cases (isFile : file ∈ (graph.modifyFile index change).files) :
    file ∈ graph.files ∨ graph.file index ∈ graph.files ∧ file = change (graph.file index) := by
  rcases List.mem_iff_getElem?.mp isFile with ⟨position, found⟩
  simp only [modifyFile, List.getElem?_modify] at found
  rcases Option.map_eq_some_iff.mp found with ⟨old, isOld, isFile⟩
  have member := List.mem_of_getElem? isOld
  split at isFile
  · next here =>
      have isThere : graph.file index = old := by simp [Graph.file, here, isOld]
      rw [isThere]
      exact .inr ⟨member, isFile.symm⟩
  · exact .inl (isFile ▸ member)

/-- A group adds nothing but constants, so the declarations of every other kind stay as they
were. -/
theorem labelled_recordEnum {label : String} (other : label ≠ "enum") (graph : Graph)
    (index : Nat) (description : String) (location : Location) (names : List String) :
    (graph.recordEnum index description location names).labelled label = graph.labelled label := by
  have size := size_recordEnum graph index description location names
  simp only [labelled, idsWhere, size, List.range_add, List.filter_append]
  refine (congrArg₂ (· ++ ·) ?_ ?_).trans (List.append_nil _)
  · apply List.filter_congr
    intro id inside
    rw [decl_recordEnum_of_lt _ _ _ _ _ (List.mem_range.mp inside)]
  · apply List.filter_eq_nil_iff.mpr
    intro id isNew
    rcases List.mem_map.mp isNew with ⟨offset, inside, rfl⟩
    rcases exists_decl_recordEnum graph index description location names
      (Nat.le_add_right graph.decls.size offset)
      (by simpa [size] using List.mem_range.mp inside) with ⟨name, shape⟩
    simp [shape, Decl.kindLabel, Ne.symm other]

/-- The constants of a new group name it, and each other declaration names the group that it did. -/
theorem enumGroup?_recordEnum (graph : Graph) (index : Nat) (description : String)
    (location : Location) (names : List String) (id : DeclId) :
    ((graph.recordEnum index description location names).decl id).enumGroup? =
      if graph.decls.size ≤ id ∧ id < graph.decls.size + names.length then
        some graph.groups.size
      else (graph.decl id).enumGroup? := by
  have size := size_recordEnum graph index description location names
  by_cases outside : graph.decls.size ≤ id
  · by_cases inside : id < graph.decls.size + names.length
    · rw [if_pos ⟨outside, inside⟩]
      rw [← size] at inside
      rcases exists_decl_recordEnum graph index description location names outside inside
        with ⟨name, shape⟩
      rw [shape]
      rfl
    · have beyond := Nat.le_of_not_lt inside
      rw [← size] at beyond
      rw [decl_of_size_le beyond, decl_of_size_le outside, if_neg fun isNew => inside isNew.2]
  · rw [decl_recordEnum_of_lt _ _ _ _ _ (Nat.lt_of_not_le outside),
      if_neg fun isNew => outside isNew.1]

/-- The members of the new group are the constants that have been added, and each other group keeps
its members. -/
theorem mem_members_recordEnum {graph : Graph} {index : Nat} {description : String}
    {location : Location} {names : List String} :
    id ∈ ((graph.recordEnum index description location names).group group).members ↔
      (group = graph.groups.size ∧ graph.decls.size ≤ id ∧
        id < graph.decls.size + names.length) ∨
        group ≠ graph.groups.size ∧ id ∈ (graph.group group).members := by
  rw [group_recordEnum]
  split
  · next newest =>
      simp only [List.mem_map, List.mem_range, newest, ne_eq, not_true_eq_false, false_and,
        or_false, true_and]
      constructor
      · rintro ⟨offset, inside, rfl⟩
        exact ⟨Nat.le_add_right _ _, Nat.add_lt_add_left inside _⟩
      · rintro ⟨outside, inside⟩
        exact ⟨id - graph.decls.size, Nat.sub_lt_left_of_lt_add outside inside,
          Nat.add_sub_cancel' outside⟩
  · next old => simp [old]

/-! ### Groups -/

/-- Every group is listed once. Its members are the constants that name it, and stand where it
stands. -/
structure Grouped (graph : Graph) : Prop where
  groups : graph.enumGroups.Perm (List.range graph.groups.size)
  members : ∀ group id, id ∈ (graph.group group).members ↔
    (graph.decl id).enumGroup? = some group
  nodup : ∀ group, (graph.group group).members.Nodup
  located : ∀ group, ∀ id ∈ (graph.group group).members,
    (graph.decl id).location = (graph.group group).location

theorem group_of_size_le (outside : graph.groups.size ≤ group) : graph.group group = default := by
  simp [Graph.group, outside]

theorem lt_size_of_enumGroup? (named : (graph.decl id).enumGroup? = some group) :
    id < graph.decls.size := by
  apply lt_size_of_decl_ne
  intro blank
  rw [blank] at named
  contradiction

namespace Grouped

theorem lt_size (grouped : graph.Grouped) (named : (graph.decl id).enumGroup? = some group) :
    group < graph.groups.size := by
  apply Nat.lt_of_not_le
  intro outside
  rw [← grouped.members, group_of_size_le outside] at named
  exact List.not_mem_nil named

/-- A change that neither adds constants nor touches groups. -/
theorem of_grows (grouped : before.Grouped) (grows : GrowsAt index before after)
    (fresh : ∀ id, before.decls.size ≤ id → (after.decl id).enumGroup? = none)
    (groups : after.groups = before.groups) (enumGroups : after.enumGroups = before.enumGroups) :
    after.Grouped where
  groups := by
    rw [enumGroups, groups]
    exact grouped.groups
  members group id := by
    rw [group_of_groups_eq groups, grouped.members]
    by_cases inside : id < before.decls.size
    · rw [Decl.enumGroup?_eq_of_skeleton_eq (grows.skeleton id inside)]
    · have outside := Nat.le_of_not_lt inside
      rw [fresh id outside, decl_of_size_le outside]
      rfl
  nodup group := by
    rw [group_of_groups_eq groups]
    exact grouped.nodup group
  located group id member := by
    rw [group_of_groups_eq groups] at member ⊢
    have inside := lt_size_of_enumGroup? ((grouped.members group id).mp member)
    have head := Decl.head_eq_of_skeleton_eq (grows.skeleton id inside)
    exact (congrArg (·.2.2.1) head).trans (grouped.located group id member)

/-- The new group is listed behind the others, and its members are just the constants that name
it. -/
theorem recordEnum (grouped : graph.Grouped) (index : Nat) (description : String)
    (location : Location) (names : List String) :
    (graph.recordEnum index description location names).Grouped where
  groups := by
    simpa [Graph.recordEnum, modifyFile, List.range_succ] using grouped.groups.append_right _
  members group id := by
    rw [mem_members_recordEnum, enumGroup?_recordEnum, grouped.members]
    split
    · next isNew =>
        have unnamed : (graph.decl id).enumGroup? = none := by
          rw [decl_of_size_le isNew.1]
          rfl
        simp [isNew, unnamed, eq_comm]
    · next isOld =>
        have small (named : (graph.decl id).enumGroup? = some group) :
            group ≠ graph.groups.size :=
          Nat.ne_of_lt (grouped.lt_size named)
        simp only [isOld, and_false, false_or, and_iff_right_iff_imp]
        exact small
  nodup group := by
    rw [group_recordEnum]
    split
    · exact List.nodup_range.map fun _ _ => Nat.add_left_cancel
    · exact grouped.nodup group
  located group id member := by
    rw [mem_members_recordEnum] at member
    rcases member with ⟨newest, outside, inside⟩ | ⟨old, member⟩
    · rw [← size_recordEnum graph index description location names] at inside
      rcases exists_decl_recordEnum graph index description location names outside inside
        with ⟨name, shape⟩
      rw [shape, group_recordEnum, if_pos newest]
    · have inside := lt_size_of_enumGroup? ((grouped.members group id).mp member)
      rw [decl_recordEnum_of_lt _ _ _ _ _ inside, group_recordEnum, if_neg old]
      exact grouped.located group id member

/-- Only one of the steps of recording touches groups. Where one declaration is pushed that is no
constant, there is none to come later either, so the members of each group stay complete. -/
theorem of_step (grouped : before.Grouped) (step : FilingStep index before after) :
    after.Grouped := by
  have grows := GrowsAt.of_step step
  have pushed {decl : Decl} (decls : after.decls = before.decls.push decl)
      (noConstant : decl.enumGroup? = none) (id : DeclId) (outside : before.decls.size ≤ id) :
      (after.decl id).enumGroup? = none := by
    rw [decl_of_push decls]
    split
    · exact noConstant
    · rw [decl_of_size_le outside]
      rfl
  cases step with
  | aside decls files groups enumGroups enums =>
      apply grouped.of_grows grows _ groups enumGroups
      intro id outside
      rw [decl_of_decls_eq decls, decl_of_size_le outside]
      rfl
  | loose decl bare unlisted noConstant decls files groups enumGroups enums =>
      exact grouped.of_grows grows (pushed decls noConstant) groups enumGroups
  | enlist listing decl bare label located rule decls files groups enumGroups enums =>
      apply grouped.of_grows grows (pushed decls _) groups enumGroups
      apply Option.not_isSome_iff_eq_none.mp
      rw [Decl.isSome_enumGroup?, label]
      exact listing.label_ne_enum
  | member owner kind decl unlinked owned kindOf takes =>
      apply grouped.of_grows grows _ rfl rfl
      intro id outside
      rw [Unlinked.view_addMember Decl.enumGroup? fun holder change =>
        Decl.enumGroup?_eq_of_skeleton_eq (Decl.skeleton_mapBody holder change)]
      split
      · exact Decl.enumGroup?_of_owner? owned
      · rw [decl_of_size_le outside]
        rfl
  | join production rule isRule =>
      apply grouped.of_grows grows _ rfl rfl
      intro id outside
      have skeleton := Keeps.modifyDecl (Decl.skeleton_withRule · rule) before production id
      rw [Decl.enumGroup?_eq_of_skeleton_eq skeleton, decl_of_size_le outside]
      rfl
  | describe text =>
      apply grouped.of_grows grows _ rfl rfl
      intro id outside
      have same : (before.modifyFile index fun file =>
          { file with description := text }).decl id = before.decl id := rfl
      rw [same, decl_of_size_le outside]
      rfl
  | group description location names located => exact grouped.recordEnum ..

/-- Every step of recording keeps the groups and their constants in step, by induction on the
steps. -/
theorem of_steps (grouped : before.Grouped)
    (steps : ReflTransGen (FilingStep index) before after) : after.Grouped := by
  induction steps with
  | refl => exact grouped
  | tail _ step ih => exact ih.of_step step

end Grouped

/-! ### What stands in a file -/

/-- What a file lists stands in it, and is of the kind of the list. -/
structure Located (graph : Graph) (file : FileRecord) : Prop where
  decls : ∀ listing, ∀ id ∈ file.list listing,
    id < graph.decls.size ∧ (graph.decl id).kindLabel = listing.listing.label ∧
      (graph.decl id).location.file = file.source.shortName
  groups : ∀ group ∈ file.enumGroups,
    group < graph.groups.size ∧ (graph.group group).location.file = file.source.shortName
  constants : ∀ id ∈ file.enums,
    (graph.decl id).kindLabel = "enum" ∧ (graph.decl id).location.file = file.source.shortName

/-- What the files list stands in them. -/
def AllLocated (graph : Graph) : Prop :=
  ∀ file ∈ graph.files, graph.Located file

theorem inside_of_isEnum (isEnum : (graph.decl id).kindLabel = "enum") :
    id < graph.decls.size := by
  apply lt_size_of_decl_ne
  intro blank
  rw [blank] at isEnum
  contradiction

/-- A file keeps what is located in it while another file is read, since declarations and groups
keep their locations. -/
theorem Located.grow (located : before.Located file) (grows : GrowsAt index before after) :
    after.Located file where
  decls listing id isListed := by
    rcases located.decls listing id isListed with ⟨inside, label, place⟩
    have head := Decl.head_eq_of_skeleton_eq (grows.skeleton id inside)
    exact ⟨Nat.lt_of_lt_of_le inside grows.size, (congrArg (·.2.2.2) head).trans label,
      (congrArg (·.2.2.1.file) head).trans place⟩
  groups group isListed := by
    rcases located.groups group isListed with ⟨inside, place⟩
    rw [grows.group group inside]
    exact ⟨Nat.lt_of_lt_of_le inside grows.groupCount, place⟩
  constants id isListed := by
    rcases located.constants id isListed with ⟨isEnum, place⟩
    have head := Decl.head_eq_of_skeleton_eq (grows.skeleton id (inside_of_isEnum isEnum))
    exact ⟨(congrArg (·.2.2.2) head).trans isEnum, (congrArg (·.2.2.1.file) head).trans place⟩

namespace AllLocated

/-- Only the record of the file that is read has to be looked at. -/
theorem of_grows (located : before.AllLocated) (grows : GrowsAt index before after)
    (files : after.files = (before.modifyFile index change).files)
    (here : after.Located (before.file index) → after.Located (change (before.file index))) :
    after.AllLocated := by
  intro file isFile
  rw [files] at isFile
  rcases mem_files_modifyFile_cases isFile with isOld | ⟨isOld, rfl⟩
  · exact (located file isOld).grow grows
  · exact here ((located _ isOld).grow grows)

/-- What a step lists in the file that is read is declared in that file, and the other files are
left alone. -/
theorem of_step (located : before.AllLocated) (step : FilingStep index before after) :
    after.AllLocated := by
  have grows := GrowsAt.of_step step
  have same (files : after.files = before.files) : after.AllLocated := by
    intro file isFile
    rw [files] at isFile
    exact (located file isFile).grow grows
  cases step with
  | aside decls files groups enumGroups enums => exact same files
  | loose decl bare unlisted noConstant decls files groups enumGroups enums => exact same files
  | member owner kind decl unlinked owned kindOf takes => exact same rfl
  | join production rule isRule => exact same rfl
  | enlist listing decl bare label place rule decls files groups enumGroups enums =>
      apply located.of_grows grows files
      intro here
      constructor
      · intro other id isListed
        rw [FileRecord.list_enlist] at isListed
        rw [FileRecord.source_enlist]
        rcases List.mem_append.mp isListed with isOld | isNew
        · exact here.decls other id isOld
        · split at isNew
          · next isListing =>
              rw [List.mem_singleton.mp isNew, decl_newest_of_push decls, size_of_push decls,
                isListing]
              exact ⟨Nat.lt_succ_self _, label, place⟩
          · exact absurd isNew List.not_mem_nil
      · simpa using here.groups
      · simpa using here.constants
  | describe text =>
      apply located.of_grows grows rfl
      exact fun here => ⟨here.decls, here.groups, here.constants⟩
  | group description location names place =>
      apply located.of_grows grows rfl
      intro here
      refine ⟨here.decls, ?_, here.constants⟩
      intro group isListed
      rcases List.mem_append.mp isListed with isOld | isNew
      · exact here.groups group isOld
      · rw [List.mem_singleton.mp isNew, group_recordEnum, if_pos rfl]
        exact ⟨by simp [Graph.recordEnum, modifyFile], place⟩

theorem of_steps (located : before.AllLocated)
    (steps : ReflTransGen (FilingStep index) before after) : after.AllLocated := by
  induction steps with
  | refl => exact located
  | tail _ step ih => exact ih.of_step step

end AllLocated

/-! ### What the files list together -/

/-- The files together list the declarations of each of their kinds, and the groups. -/
structure Filed (graph : Graph) : Prop where
  listed : ∀ listing : FileListing,
    (graph.files.flatMap (·.list listing)).Perm (graph.labelled listing.listing.label)
  groups : (graph.files.flatMap (·.enumGroups)).Perm (List.range graph.groups.size)

namespace Filed

/-- Whether the files list everything depends only on what is declared of each kind, on the files
and on the groups. -/
theorem of_eq (filed : before.Filed)
    (labelled : ∀ listing : FileListing,
      after.labelled listing.listing.label = before.labelled listing.listing.label)
    (files : after.files = before.files) (groups : after.groups = before.groups) :
    after.Filed where
  listed listing := by
    rw [files, labelled]
    exact filed.listed listing
  groups := by
    rw [files, groups]
    exact filed.groups

/-- A declaration that a file lists is the last of its kind. -/
theorem enlist (filed : before.Filed) (inside : index < before.files.length)
    {listing : FileListing} {decl : Decl} (label : decl.kindLabel = listing.listing.label)
    (decls : after.decls = before.decls.push decl)
    (files : after.files = before.files.modify index (FileRecord.enlist listing before.nextId))
    (groups : after.groups = before.groups) : after.Filed where
  listed other := by
    have adds : ((before.files.modify index (FileRecord.enlist listing before.nextId)).flatMap
        (·.list other)).Perm
          (before.files.flatMap (·.list other) ++
            if other = listing then [before.nextId] else []) :=
      perm_flatMap_modify (FileRecord.list_enlist listing before.nextId · other) inside
    rw [files, labelled, idsWhere_of_push decls]
    apply adds.trans
    by_cases isListing : other = listing
    · simpa [isListing, label, labelled] using (filed.listed listing).append_right _
    · have otherLabel : decl.kindLabel ≠ other.listing.label := by
        rw [label]
        exact fun same => isListing (FileListing.label_injective same).symm
      simpa [isListing, otherLabel, labelled] using filed.listed other
  groups := by
    rw [files, groups]
    refine List.Perm.trans ?_ filed.groups
    apply perm_flatMap_modify_of_perm
    intro file
    rw [FileRecord.enumGroups_enlist]

/-- A group and its constants are listed by the file in which they are declared. -/
theorem recordEnum (filed : before.Filed) (inside : index < before.files.length)
    (description : String) (location : Location) (names : List String) :
    (before.recordEnum index description location names).Filed where
  listed listing := by
    rw [labelled_recordEnum listing.label_ne_enum]
    refine List.Perm.trans ?_ (filed.listed listing)
    apply perm_flatMap_modify_of_perm
    intro file
    cases listing <;> exact .refl _
  groups := by
    have size : (before.recordEnum index description location names).groups.size =
        before.groups.size + 1 := by
      simp [Graph.recordEnum, modifyFile]
    rw [size, List.range_succ]
    refine List.Perm.trans ?_ (filed.groups.append_right _)
    exact perm_flatMap_modify (fun _ => rfl) inside

/-- Whatever a step declares of a kind that files list is put into the list of the file at once, so
nothing is missing from one step to the next. -/
theorem of_step (filed : before.Filed) (inside : index < before.files.length)
    (step : FilingStep index before after) : after.Filed := by
  cases step with
  | aside decls files groups enumGroups enums =>
      apply filed.of_eq _ files groups
      exact fun listing => idsWhere_of_decls_eq decls _
  | loose decl bare unlisted noConstant decls files groups enumGroups enums =>
      apply filed.of_eq _ files groups
      intro listing
      rw [labelled, idsWhere_of_push decls]
      simp [unlisted listing, labelled]
  | member owner kind decl unlinked owned kindOf takes =>
      refine filed.of_eq ?_ rfl rfl
      intro listing
      rw [labelled, Unlinked.idsWhere_addMember]
      · simp [Unlinked.label_ne_of_owner? owned listing.listing, labelled]
      · intro holder change
        exact congrArg (·.2.2.2 == listing.listing.label) (Decl.head_mapBody holder change)
  | join production rule isRule =>
      refine filed.of_eq ?_ rfl rfl
      intro listing
      apply Keeps.labelled
      · exact Keeps.modifyDecl (Decl.head_withRule rule) before production
      · simp [Graph.modifyDecl]
  | enlist listing decl bare label located rule decls files groups enumGroups enums =>
      exact filed.enlist inside label decls files groups
  | describe text =>
      constructor
      · intro listing
        refine List.Perm.trans ?_ (filed.listed listing)
        apply perm_flatMap_modify_of_perm
        intro file
        cases listing <;> exact .refl _
      · refine List.Perm.trans ?_ filed.groups
        apply perm_flatMap_modify_of_perm
        exact fun _ => .refl _
  | group description location names located => exact filed.recordEnum inside ..

theorem of_steps (filed : before.Filed) (inside : index < before.files.length)
    (steps : ReflTransGen (FilingStep index) before after) : after.Filed := by
  induction steps with
  | refl => exact filed
  | tail steps step ih =>
      have count := congrArg List.length (GrowsAt.of_steps steps).sources
      rw [List.length_map, List.length_map] at count
      rw [← count] at inside
      exact ih.of_step inside step

end Filed

end Graph

end TadsReference
