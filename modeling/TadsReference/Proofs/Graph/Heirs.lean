import TadsReference.Proofs.Graph.LoneLines
import TadsReference.Proofs.Graph.Sessions

/-!
# The order of subclasses

Linking notes an heir on a class when it comes to the heir's base list, and it goes through the
classes in the order in which they are shown by then. So the subclasses of a class are those of its
heirs that the sorted list of classes has, in the same order: `subclassesOrdered_of_readings`. They
are in the order of their declarations only where the two orders agree.
-/

namespace TadsReference.Graph

variable {graph : Graph} {base : DeclId} {ids : List DeclId}

/-! ### Noting heirs one after the other -/

theorem insertOnce_of_not_mem {id : DeclId} (fresh : id ∉ ids) :
    insertOnce ids id = ids ++ [id] := by
  rw [insertOnce, if_neg (by simpa using fresh)]

/-- Which names of a base list are resolved depends on the names of the declarations, and resolving
changes none of them. -/
theorem newBases_linkBases (graph : Graph) (id : DeclId) :
    (graph.linkBases id).newBases = graph.newBases := by
  have lists := sameLists_linkBases graph id
  have head := keeps_linkBases (fun _ isChange => isChange.head) graph id
  funext bases
  simp only [newBases, lists.findBlock? head]

/-- Each class or object that has a class as a base is noted behind those noted before it. The
induction goes along the blocks whose bases are resolved. The first of them changes no base list but
its own, so the others still name what they named. -/
theorem heirs_foldl_linkBases (nodup : ids.Nodup) (isClass : (graph.decl base).isClass = true)
    (areClasses : Bool) (fresh : ∀ id ∈ ids, id ∉ (graph.decl base).heirs areClasses) :
    ((ids.foldl linkBases graph).decl base).heirs areClasses =
      (graph.decl base).heirs areClasses ++
        ids.filter fun id =>
          areClasses = (graph.decl id).isClass ∧ base ∈ graph.newBases (graph.decl id).bases := by
  induction ids generalizing graph with
  | nil => simp
  | cons first ids ih =>
      rcases List.nodup_cons.mp nodup with ⟨other, nodupRest⟩
      have head := keeps_linkBases (fun _ isChange => isChange.head) graph first
      have freshRest : ∀ id ∈ ids, id ∉ ((graph.linkBases first).decl base).heirs areClasses := by
        intro id isLater isHeir
        rcases mem_heirs_linkBases.mp isHeir with old | ⟨_, _, rfl⟩
        · exact fresh id (List.mem_cons_of_mem _ isLater) old
        · exact other isLater
      have same : ∀ id ∈ ids,
          decide (areClasses = ((graph.linkBases first).decl id).isClass ∧
            base ∈ (graph.linkBases first).newBases ((graph.linkBases first).decl id).bases) =
          decide (areClasses = (graph.decl id).isClass ∧
            base ∈ graph.newBases (graph.decl id).bases) := by
        intro id isLater
        have differs : id ≠ first := fun eq => other (eq ▸ isLater)
        rw [head.isClass, newBases_linkBases, bases_linkBases, if_neg differs]
      have isStillClass : ((graph.linkBases first).decl base).isClass = true := by
        rwa [head.isClass]
      rw [List.foldl_cons, ih nodupRest isStillClass freshRest, List.filter_congr same,
        heirs_linkBases, List.filter_cons]
      by_cases notes : areClasses = (graph.decl first).isClass ∧
          base ∈ graph.newBases (graph.decl first).bases
      · rw [if_pos ⟨⟨isClass, notes.1⟩, notes.2⟩, if_pos (decide_eq_true notes),
          insertOnce_of_not_mem (fresh first List.mem_cons_self), List.append_assoc]
        rfl
      · rw [if_neg fun all => notes ⟨all.1.2, all.2⟩, if_neg (by simpa using notes)]

/-- The subclasses of a class that has none yet are the classes that name it as a base, in the order
of the list of classes. Objects are noted as well, but in the other list. -/
theorem subclasses_linkAllBases (mirrored : graph.Mirrored)
    (nodup : (graph.classes ++ graph.objects).Nodup) (isClass : (graph.decl base).isClass = true)
    (none : (graph.decl base).heirs true = []) :
    (graph.linkAllBases.decl base).subclasses =
      graph.classes.filter fun id => base ∈ graph.newBases (graph.decl id).bases := by
  have noted := heirs_foldl_linkBases nodup isClass true (by simp [none])
  have noObject : (graph.objects.filter fun id =>
      true = (graph.decl id).isClass ∧ base ∈ graph.newBases (graph.decl id).bases) = [] := by
    apply List.filter_eq_nil_iff.mpr
    intro id isObject
    have notClass : (graph.decl id).isClass = false := by
      rw [Bool.eq_false_iff, ne_eq, Decl.isClass_iff, (mirrored.objects id).mp isObject]
      decide
    simp [notClass]
  rw [none, List.nil_append, List.filter_append, noObject, List.append_nil] at noted
  refine noted.trans (List.filter_congr ?_)
  intro id isListed
  have isClass := (Decl.isClass_iff _).mpr ((mirrored.classes id).mp isListed)
  simp [isClass]

/-! ### Subclasses of a linked graph -/

/-- What is linked behind the bases does not change the subclasses of a class, for sorting what a
block holds leaves them alone. -/
theorem keeps_subclasses_link (graph : Graph) :
    Keeps Decl.subclasses graph.sortCollections.mergeModifications.linkAllBases graph.link := by
  apply keeps_link_of_based
  · rintro change ⟨_, _, _, shape⟩
    cases shape <;> rfl
  · rintro sort ⟨_, _, _, shape⟩
    cases shape <;> rfl
  · rintro ⟨_, _, _, shape⟩
    cases shape <;> rfl

section Unlinked

variable (unlinked : graph.Unlinked) (mirrored : graph.Mirrored)

include unlinked

/-- No class and no object is listed twice, so no block has its bases resolved twice. -/
theorem nodup_blocks_sortCollections :
    (graph.sortCollections.classes ++ graph.sortCollections.objects).Nodup := by
  rw [classes_sortCollections, objects_sortCollections]
  apply List.nodup_append.mpr
  refine ⟨nodup_sorted (unlinked.increasing .classes), nodup_sorted (unlinked.increasing .objects),
    ?_⟩
  rintro id isClass _ isObject rfl
  have classLabel := (unlinked.mem_listed .classes).mp (graph.mem_sorted.mp isClass)
  have objectLabel := (unlinked.mem_listed .objects).mp (graph.mem_sorted.mp isObject)
  exact absurd (classLabel.2.symm.trans objectLabel.2) (by decide)

include mirrored

/-- What a base list names before linking, it has as a base afterwards. -/
theorem mem_newBases_merged {id : DeclId} :
    base ∈ graph.sortCollections.mergeModifications.newBases
        (graph.sortCollections.mergeModifications.decl id).bases ↔
      .decl base ∈ (graph.link.decl id).bases := by
  have merged := sameBases_mergeModifications graph.sortCollections
  have lists := sameLists_mergeModifications graph.sortCollections
  have same : graph.sortCollections.mergeModifications.newBases =
      graph.sortCollections.newBases := by
    funext bases
    simp only [newBases, lists.findBlock? merged.head]
  rw [same, merged.bases, mirrored.bases_link, mem_map_resolveBase, decl_sortCollections]
  constructor
  · exact .inr
  · exact fun isBase => isBase.resolve_left (not_decl_mem_bases (unlinked.decls id) base)

/-- Linking gives a class or an object the bases that the names in its base list denote. -/
theorem mem_bases_link_iff {id : DeclId} :
    .decl base ∈ (graph.link.decl id).bases ↔
      ∃ name, .name name ∈ (graph.decl id).bases ∧ graph.Denotes name base := by
  have written := not_decl_mem_bases (unlinked.decls id) base
  rw [mirrored.bases_link, mem_map_resolveBase, or_iff_right written, newBases, List.mem_filterMap]
  constructor
  · rintro ⟨reference, isNamed, found⟩
    cases reference with
    | decl other => contradiction
    | name name =>
        exact ⟨name, isNamed, (findBlock?_sortCollections_eq_some_iff unlinked).mp found⟩
  · rintro ⟨name, isNamed, denotes⟩
    exact ⟨.name name, isNamed, (findBlock?_sortCollections_eq_some_iff unlinked).mpr denotes⟩

/-- The subclasses of a class are those among the sorted classes that have it as a base. -/
theorem subclasses_link (isClass : (graph.link.decl base).isClass = true) :
    (graph.link.decl base).subclasses =
      graph.link.classes.filter fun heir => .decl base ∈ (graph.link.decl heir).bases := by
  have sorted := sameBases_sortCollections graph
  have merged := sameBases_mergeModifications graph.sortCollections
  have ready := (mirrored.of_sameBases sorted).of_sameBases merged
  have listed := (sameLists_mergeModifications graph.sortCollections).listed
  have classes := (listed .classes).trans (listed_link graph .classes).symm
  have nodup : (graph.sortCollections.mergeModifications.classes ++
      graph.sortCollections.mergeModifications.objects).Nodup := by
    have sameClasses := listed .classes
    have sameObjects := listed .objects
    simp only [Graph.listed] at sameClasses sameObjects
    rw [sameClasses, sameObjects]
    exact nodup_blocks_sortCollections unlinked
  have isClassBefore : (graph.sortCollections.mergeModifications.decl base).isClass = true := by
    rw [(sorted.head.trans merged.head).isClass, ← (keeps_head_link graph).isClass]
    exact isClass
  have none : (graph.sortCollections.mergeModifications.decl base).heirs true = [] := by
    have kept := (merged.heirs base true).trans (sorted.heirs base true)
    rw [heirs_of_unlinked (unlinked.decls base)] at kept
    exact kept.eq_nil
  refine ((keeps_subclasses_link graph) base).trans ?_
  rw [subclasses_linkAllBases ready nodup isClassBefore none]
  simp only [mem_newBases_merged unlinked mirrored]
  exact congrArg (List.filter _) classes

end Unlinked

/-! ### The full account -/

/-- The order in which a declaration of a linked graph lists its subclasses. -/
structure SubclassesOrdered (linked : Graph) (base : DeclId) : Prop where
  filtered : (linked.decl base).isClass = true →
    (linked.decl base).subclasses =
      linked.classes.filter fun heir => .decl base ∈ (linked.decl heir).bases
  ordered : (linked.decl base).subclasses.Pairwise linked.Precedes
  increasing : (linked.decl base).subclasses.Pairwise (· < ·) ↔
    ∀ left ∈ (linked.decl base).subclasses, ∀ right ∈ (linked.decl base).subclasses,
      left < right → linked.displayOrder left right ≠ .gt

theorem precedes_link (graph : Graph) : graph.link.Precedes = graph.Precedes := by
  funext left right
  rw [Precedes, Precedes, (keeps_head_link graph).displayOrder]

/-- Subclasses are taken from the sorted list of classes one by one, so they stand in the order in
which that list has them. -/
theorem pairwise_subclasses_link (unlinked : graph.Unlinked) (mirrored : graph.Mirrored)
    (base : DeclId) : (graph.link.decl base).subclasses.Pairwise graph.link.Precedes := by
  cases isClass : (graph.link.decl base).isClass with
  | false =>
      have none : (graph.link.decl base).subclasses = [] := Decl.heirs_of_not_isClass isClass true
      rw [none]
      exact .nil
  | true =>
      rw [subclasses_link unlinked mirrored isClass, classes_link, precedes_link]
      exact (pairwise_precedes_sorted (unlinked.increasing .classes)).sublist List.filter_sublist

/-- Whatever files are read, linking lists subclasses in display order, and those that compare equal
in the order of their declarations. -/
theorem subclassesOrdered_of_readings (files : List SourceFile) (readings : List FileReading)
    (base : DeclId) : ((ofFiles files).readAll readings).link.SubclassesOrdered base := by
  have unlinked := unlinked_readAll files readings
  have mirrored := mirrored_readAll files readings
  have ordered := pairwise_subclasses_link unlinked mirrored base
  exact ⟨subclasses_link unlinked mirrored, ordered, pairwise_lt_iff ordered⟩

/-! ### Subclasses out of the order of their declarations -/

/-- A header that declares a class and two subclasses of it, not in alphabetical order. -/
def animalsText : List UInt8 :=
  "class Animal: object\nclass Zebra: Animal\nclass Ape: Animal\n".toUTF8.toList

/-- What the header declares. -/
def animalsEntries : List Entry :=
  [.declaration "Animal" "" 1 (.classBlock { bases := ["object"] }),
    .declaration "Zebra" "" 2 (.classBlock { bases := ["Animal"] }),
    .declaration "Ape" "" 3 (.classBlock { bases := ["Animal"] })]

/-- The graph of the header when nothing has been read of it. -/
def animalsUnread : Graph :=
  ofFiles [⟨"animals.h", "animals.h", true, [], 3⟩]

/-- The graph of the header when it has been read. -/
def animals : Graph :=
  animalsUnread.readAll [⟨0, false, "animals.h", animalsText, none, none⟩]

theorem animals_eq : animals = animalsUnread.record 0 animalsEntries := by
  apply readAll_header <;> decide +kernel

theorem denotes_animal : animals.Denotes "Animal" 0 := by
  apply Denotes.firstClass
  rw [animals_eq]
  constructor
  · decide +kernel
  · decide +kernel
  · decide +kernel

/-- Linking lists the second subclass of the header before the first. Display order puts the second
before the first, as its name comes first in the alphabet. -/
theorem not_increasing_subclasses_animals :
    ¬(animals.link.decl 0).subclasses.Pairwise (· < ·) := by
  have unlinked : animals.Unlinked := unlinked_readAll _ _
  have mirrored : animals.Mirrored := mirrored_readAll _ _
  have head := keeps_head_link animals
  have isHeir (heir : DeclId) (isClass : (animals.decl heir).isClass = true)
      (named : .name "Animal" ∈ (animals.decl heir).bases) :
      heir ∈ (animals.link.decl 0).subclasses := by
    apply (mirrored.link.heirs 0 true heir _).mpr
    · rw [head.isClass]
      exact ⟨isClass, (mem_bases_link_iff unlinked mirrored).mpr ⟨_, named, denotes_animal⟩⟩
    · rw [head.isClass, animals_eq]
      decide +kernel
  have zebra : 1 ∈ (animals.link.decl 0).subclasses := by
    apply isHeir <;> rw [animals_eq] <;> decide +kernel
  have ape : 2 ∈ (animals.link.decl 0).subclasses := by
    apply isHeir <;> rw [animals_eq] <;> decide +kernel
  have order : animals.displayOrder 1 2 = .gt := by
    rw [animals_eq]
    decide +kernel
  rw [pairwise_lt_iff (pairwise_subclasses_link unlinked mirrored 0)]
  intro agrees
  apply agrees 1 zebra 2 ape (by decide)
  rw [head.displayOrder, order]

end TadsReference.Graph
