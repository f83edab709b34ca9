import Mathlib.Data.List.Forall2
import TadsReference.Proofs.Graph.Bases

/-!
# Sessions

A graph may be linked more than once, with files read in between. Whatever the order of the steps,
base lists keep what was written in them, but for the names that have been resolved.
`linksBases_of_session` states what holds of bases and heirs after any session that ends with
linking.
-/

namespace TadsReference.Graph

open Relation

/-- A step of a session. -/
inductive SessionStep where
  | read (reading : FileReading)
  | link

/-- Performs a step. -/
def perform (graph : Graph) : SessionStep → Graph
  | .read reading => graph.read reading
  | .link => graph.link

/-- Performs several steps. -/
def run (graph : Graph) (steps : List SessionStep) : Graph :=
  steps.foldl perform graph

variable {graph before middle after : Graph} {id target : DeclId} {name : String}
  {names : List String}

theorem perform_read (graph : Graph) (reading : FileReading) :
    graph.perform (.read reading) = graph.read reading :=
  rfl

theorem perform_link (graph : Graph) : graph.perform .link = graph.link :=
  rfl

theorem run_cons (graph : Graph) (step : SessionStep) (steps : List SessionStep) :
    graph.run (step :: steps) = (graph.perform step).run steps :=
  rfl

theorem run_append (graph : Graph) (first rest : List SessionStep) :
    graph.run (first ++ rest) = (graph.run first).run rest :=
  List.foldl_append

theorem run_reads (graph : Graph) (readings : List FileReading) :
    graph.run (readings.map .read) = graph.readAll readings := by
  rw [run, List.foldl_map]
  rfl

/-! ### Reading adds declarations -/

/-- A graph grows by declarations whose bases have not been resolved. -/
structure Grows (before after : Graph) : Prop where
  size : before.decls.size ≤ after.decls.size
  head : ∀ id < before.decls.size, (after.decl id).head = (before.decl id).head
  bases : ∀ id < before.decls.size, (after.decl id).bases = (before.decl id).bases
  fresh : ∀ id, before.decls.size ≤ id → ∀ base ∈ (after.decl id).bases, base.decl? = none

namespace Grows

theorem refl (graph : Graph) : Grows graph graph where
  size := Nat.le_refl _
  head _ _ := rfl
  bases _ _ := rfl
  fresh id outside base isBase := by
    rw [decl_of_size_le outside] at isBase
    contradiction

/-- A graph that grows twice has grown once. -/
theorem trans (first : Grows before middle) (second : Grows middle after) :
    Grows before after where
  size := Nat.le_trans first.size second.size
  head id inside :=
    (second.head id (Nat.lt_of_lt_of_le inside first.size)).trans (first.head id inside)
  bases id inside :=
    (second.bases id (Nat.lt_of_lt_of_le inside first.size)).trans (first.bases id inside)
  fresh id outside base isBase := by
    by_cases inside : id < middle.decls.size
    · rw [second.bases id inside] at isBase
      exact first.fresh id outside base isBase
    · exact second.fresh id (Nat.le_of_not_lt inside) base isBase

theorem of_keeps (size : after.decls.size = before.decls.size)
    (head : Keeps Decl.head before after) (bases : Keeps Decl.bases before after) :
    Grows before after where
  size := Nat.le_of_eq size.symm
  head id _ := head id
  bases id _ := bases id
  fresh id outside base isBase := by
    rw [bases, decl_of_size_le outside] at isBase
    contradiction

/-- A declaration that is added has written bases only, and the others keep theirs. -/
theorem push {decl : Decl} (unlinked : decl.Unlinked)
    (decls : after.decls = before.decls.push decl) : Grows before after where
  size := by
    rw [size_of_push decls]
    exact Nat.le_succ _
  head id inside := by
    have other : id ≠ before.nextId := Nat.ne_of_lt inside
    rw [decl_of_push decls, if_neg other]
  bases id inside := by
    have other : id ≠ before.nextId := Nat.ne_of_lt inside
    rw [decl_of_push decls, if_neg other]
  fresh id outside base isBase := by
    rw [decl_of_push decls] at isBase
    split at isBase
    · exact unlinked.bases base isBase
    · rw [decl_of_size_le outside] at isBase
      contradiction

/-- Each step of recording adds at most one declaration and touches no base list of the others. A
member that is added, or a rule that joins its production, changes bodies and lists of rules, but no
heads. -/
theorem of_step (step : RecordStep before after) : Grows before after := by
  cases step with
  | aside decls lists =>
      apply of_keeps (by rw [decls])
      · intro id
        rw [decl_of_decls_eq decls]
      · intro id
        rw [decl_of_decls_eq decls]
  | declare decl bare decls lists => exact push bare.toUnlinked decls
  | member owner kind decl unlinked owned kindOf takes last =>
      have pushed : Grows before (before.addDecl decl) := push unlinked rfl
      apply pushed.trans (of_keeps _ _ _)
      · simp [addMember, Graph.modifyDecl]
      · exact Recording.keeps_head_addMember before owner kind decl
      · apply Keeps.modifyDecl
        rintro ⟨_, _, _, shape⟩
        cases shape <;> rfl
  | join production rule isClass =>
      apply of_keeps _ _ _
      · simp [Graph.modifyDecl]
      · exact Keeps.modifyDecl (Decl.head_withRule rule) before production
      · apply Keeps.modifyDecl
        rintro ⟨_, _, _, shape⟩
        cases shape <;> rfl

end Grows

theorem grows_read (graph : Graph) (reading : FileReading) : Grows graph (graph.read reading) := by
  have grows : ∀ after, ReflTransGen RecordStep graph after → Grows graph after := by
    intro after steps
    induction steps with
    | refl => exact Grows.refl graph
    | tail _ step ih => exact ih.trans (.of_step step)
  exact grows _ (steps_read graph reading)

theorem Mirrored.read (mirrored : graph.Mirrored) (reading : FileReading) :
    (graph.read reading).Mirrored := by
  have keeps : ∀ after, ReflTransGen RecordStep graph after → after.Mirrored := by
    intro after steps
    induction steps with
    | refl => exact mirrored
    | tail _ step ih => exact ih.of_step step
  exact keeps _ (steps_read graph reading)

theorem Mirrored.run (mirrored : graph.Mirrored) (steps : List SessionStep) :
    (graph.run steps).Mirrored := by
  apply List.foldlRecOn steps perform mirrored
  intro running ih step _
  cases step with
  | read reading => exact ih.read reading
  | link => exact ih.link

/-! ### How bases stand -/

/-- How a base that was written as a name may stand in a base list: as it was written, or as a class
or an object of that name. -/
inductive Stands (graph : Graph) (name : String) : BaseRef → Prop where
  | written : graph.Stands name (.name name)
  | resolved (target : DeclId) (isBlock : (graph.decl target).isBlock = true)
      (named : graph.name target = name) : graph.Stands name (.decl target)

/-- How it stands once the graph has been linked: no class or object has a name that is left. -/
inductive Resolved (graph : Graph) (name : String) : BaseRef → Prop where
  | decl (target : DeclId) (isBlock : (graph.decl target).isBlock = true)
      (named : graph.name target = name) : graph.Resolved name (.decl target)
  | name (unknown : ∀ id, (graph.decl id).isBlock = true → graph.name id ≠ name) :
      graph.Resolved name (.name name)

theorem Resolved.stands {base : BaseRef} (resolved : graph.Resolved name base) :
    graph.Stands name base := by
  cases resolved with
  | decl target isBlock named => exact .resolved target isBlock named
  | name unknown => exact .written

theorem name_of_findBlock? (found : graph.findBlock? name = some target) :
    graph.name target = name := by
  simp only [findBlock?, findClass?, findNamed?, Option.orElse_eq_orElse, Option.orElse_eq_or,
    Option.or_eq_some_iff] at found
  rcases found with isClass | ⟨_, isObject⟩
  · simpa using List.find?_some isClass
  · simpa using List.find?_some isObject

/-- A name that is left in a base list is looked up whenever the graph is linked, and it is left
once more only if nothing has the name. A base that has been resolved stays with its declaration,
which keeps its name. -/
theorem Stands.link {base : BaseRef} (stands : graph.Stands name base)
    (mirrored : graph.Mirrored) :
    graph.link.Resolved name (graph.sortCollections.resolveBase base) := by
  have head := keeps_head_link graph
  have sorted := mirrored.of_sameBases (sameBases_sortCollections graph)
  cases stands with
  | resolved target isBlock named =>
      apply Resolved.decl target
      · rwa [head.isBlock]
      · rwa [head.name]
  | written =>
      cases found : graph.sortCollections.findBlock? name with
      | some target =>
          simp only [resolveBase, found]
          apply Resolved.decl target
          · rw [head.isBlock]
            exact sorted.mem_blocks.mp (mem_of_findBlock? found)
          · rw [head.name, ← name_sortCollections]
            exact name_of_findBlock? found
      | none =>
          simp only [resolveBase, found]
          apply Resolved.name
          intro id isBlock
          rw [head.isBlock] at isBlock
          rw [head.name]
          exact findBlock?_sortCollections_eq_none_iff.mp found id (mirrored.mem_blocks.mpr isBlock)

/-- A declaration keeps its kind and its name while the graph grows, so a base that refers to it
stands as before. -/
theorem Stands.grow {base : BaseRef} (stands : before.Stands name base)
    (grows : Grows before after) : after.Stands name base := by
  cases stands with
  | written => exact .written
  | resolved target isBlock named =>
      have inside : target < before.decls.size := lt_size_of_view rfl isBlock
      have head := grows.head target inside
      apply Stands.resolved target
      · rwa [Decl.isBlock_eq_of_head_eq head]
      · exact (congrArg (·.1) head).trans named

theorem forall₂_link (mirrored : graph.Mirrored)
    (stand : List.Forall₂ graph.Stands names (graph.decl id).bases) :
    List.Forall₂ graph.link.Resolved names (graph.link.decl id).bases := by
  rw [mirrored.bases_link, List.forall₂_map_right_iff]
  exact stand.imp fun _ _ stands => stands.link mirrored

/-- What was written in a base list stands in it after every session. Reading leaves the base lists
of earlier declarations alone, and linking resolves them. -/
theorem forall₂_run (mirrored : graph.Mirrored) (inside : id < graph.decls.size)
    (stand : List.Forall₂ graph.Stands names (graph.decl id).bases) (steps : List SessionStep) :
    List.Forall₂ (graph.run steps).Stands names ((graph.run steps).decl id).bases := by
  induction steps generalizing graph with
  | nil => exact stand
  | cons step steps ih =>
      cases step with
      | read reading =>
          have grows := grows_read graph reading
          have standLater : List.Forall₂ (graph.read reading).Stands names
              ((graph.read reading).decl id).bases := by
            rw [grows.bases id inside]
            exact stand.imp fun _ _ stands => stands.grow grows
          rw [run_cons, perform_read]
          exact ih (mirrored.read reading) (Nat.lt_of_lt_of_le inside grows.size) standLater
      | link =>
          have insideLater : id < graph.link.decls.size := by
            rwa [size_link]
          have standLater := (forall₂_link mirrored stand).imp fun _ _ => Resolved.stands
          rw [run_cons, perform_link]
          exact ih mirrored.link insideLater standLater

theorem mirrored_readAll (files : List SourceFile) (readings : List FileReading) :
    ((ofFiles files).readAll readings).Mirrored := by
  have mirrored := (mirrored_ofFiles files).run (readings.map .read)
  rwa [run_reads] at mirrored

/-- Every declaration was added when some file was read. -/
theorem exists_read_of_lt_size {steps : List SessionStep} (outside : graph.decls.size ≤ id)
    (inside : id < (graph.run steps).decls.size) :
    ∃ first reading rest, steps = first ++ .read reading :: rest ∧
      (graph.run first).decls.size ≤ id ∧
        id < ((graph.run first).read reading).decls.size := by
  induction steps generalizing graph with
  | nil => exact absurd inside (Nat.not_lt_of_le outside)
  | cons step steps ih =>
      by_cases later : (graph.perform step).decls.size ≤ id
      · rcases ih later inside with ⟨first, reading, rest, rfl, before, after⟩
        exact ⟨step :: first, reading, rest, rfl, before, after⟩
      · cases step with
        | read reading => exact ⟨[], reading, steps, rfl, outside, Nat.lt_of_not_le later⟩
        | link =>
            rw [perform_link, size_link] at later
            exact absurd outside later

/-- A base list that has not been resolved is a list of names. -/
theorem exists_names {bases : List BaseRef}
    (unresolved : ∀ base ∈ bases, base.decl? = none) :
    ∃ names : List String, bases = names.map .name := by
  induction bases with
  | nil => exact ⟨[], rfl⟩
  | cons base bases ih =>
      rcases ih fun other isOther => unresolved other (List.mem_cons_of_mem _ isOther)
        with ⟨names, rfl⟩
      have first := unresolved base List.mem_cons_self
      cases base with
      | name name => exact ⟨name :: names, rfl⟩
      | decl id => contradiction

/-! ### The full account -/

/-- What holds of bases and heirs after a session that ends with linking. -/
structure BasesLinked (files : List SourceFile) (steps : List SessionStep) (linked : Graph) :
    Prop where
  subclasses : ∀ base heir, (linked.decl base).isClass = true →
    (heir ∈ (linked.decl base).subclasses ↔
      (linked.decl heir).isClass = true ∧ .decl base ∈ (linked.decl heir).bases)
  globalObjects : ∀ base heir, (linked.decl base).isClass = true →
    (heir ∈ (linked.decl base).globalObjects ↔
      (linked.decl heir).kindLabel = "object" ∧ .decl base ∈ (linked.decl heir).bases)
  nodup : ∀ base, (linked.decl base).subclasses.Nodup ∧ (linked.decl base).globalObjects.Nodup
  declared : ∀ id, (linked.decl id).isBlock = true → ∃ first reading rest,
    steps = first ++ .read reading :: rest ∧
      ((ofFiles files).run first).decls.size ≤ id ∧
        id < (((ofFiles files).run first).read reading).decls.size
  bases : ∀ first reading rest, steps = first ++ .read reading :: rest → ∀ id,
    ((ofFiles files).run first).decls.size ≤ id →
      id < (((ofFiles files).run first).read reading).decls.size →
        ∃ names, ((((ofFiles files).run first).read reading).decl id).bases = names.map .name ∧
          List.Forall₂ linked.Resolved names (linked.decl id).bases
  once : ∀ readings, steps = readings.map .read → ∀ id,
    ∃ names, (((ofFiles files).readAll readings).decl id).bases = names.map .name ∧
      List.Forall₂ (fun name base => ∀ target, base = .decl target →
        ((ofFiles files).readAll readings).Denotes name target) names (linked.decl id).bases

/-- A declaration that was added by a reading of the session has the names in its base list that
were written, and linking at the end resolves them as far as it can. -/
theorem bases_linked_of_mem {files : List SourceFile} {first rest : List SessionStep}
    {reading : FileReading}
    (outside : ((ofFiles files).run first).decls.size ≤ id)
    (inside : id < (((ofFiles files).run first).read reading).decls.size) :
    ∃ names, ((((ofFiles files).run first).read reading).decl id).bases = names.map .name ∧
      List.Forall₂ ((ofFiles files).run (first ++ .read reading :: rest)).link.Resolved names
        (((ofFiles files).run (first ++ .read reading :: rest)).link.decl id).bases := by
  have mirrored := (mirrored_ofFiles files).run first
  have grows := grows_read ((ofFiles files).run first) reading
  rcases exists_names (grows.fresh id outside) with ⟨names, written⟩
  refine ⟨names, written, ?_⟩
  have stand : List.Forall₂ (((ofFiles files).run first).read reading).Stands names
      ((((ofFiles files).run first).read reading).decl id).bases := by
    rw [written, List.forall₂_map_right_iff]
    exact List.forall₂_same.mpr fun _ _ => .written
  rw [run_append]
  exact forall₂_link (((mirrored.read reading).run rest))
    (forall₂_run (mirrored.read reading) inside stand rest)

/-- If the graph has not been linked before, a base that is resolved is what its name denotes. -/
theorem bases_link_of_readAll (files : List SourceFile) (readings : List FileReading)
    (id : DeclId) :
    ∃ names, (((ofFiles files).readAll readings).decl id).bases = names.map .name ∧
      List.Forall₂ (fun name base => ∀ target, base = .decl target →
        ((ofFiles files).readAll readings).Denotes name target) names
          (((ofFiles files).readAll readings).link.decl id).bases := by
  have unlinked := unlinked_readAll files readings
  have mirrored := mirrored_readAll files readings
  rcases exists_names (unlinked.decls id).bases with ⟨names, written⟩
  refine ⟨names, written, ?_⟩
  rw [mirrored.bases_link, written, List.map_map, List.forall₂_map_right_iff]
  apply List.forall₂_same.mpr
  intro name _ target resolves
  rw [← findBlock?_sortCollections_eq_some_iff unlinked]
  simp only [Function.comp_def, resolveBase] at resolves
  split at resolves
  · next found => rw [found, BaseRef.decl.inj resolves]
  · contradiction

/-- After any session that ends with linking, base lists hold what was written, resolved as far as
it can be, and classes list exactly those that have them as a base. Whatever is declared was added
by one of the readings, and what follows that reading is a session of its own. -/
theorem linksBases_of_session (files : List SourceFile) (steps : List SessionStep) :
    BasesLinked files steps ((ofFiles files).run (steps ++ [.link])) := by
  rw [run_append]
  change BasesLinked files steps ((ofFiles files).run steps).link
  have mirrored := ((mirrored_ofFiles files).run steps).link
  constructor
  · intro base heir isClass
    exact mirrored.heirs base true heir isClass
  · intro base heir isClass
    refine (mirrored.heirs base false heir isClass).trans (and_congr_left ?_)
    intro isBase
    exact Decl.isClass_eq_false_iff_of_base isBase
  · intro base
    exact ⟨mirrored.nodup base true, mirrored.nodup base false⟩
  · intro id isBlock
    apply exists_read_of_lt_size (Nat.zero_le _)
    rw [← size_link]
    exact lt_size_of_view rfl isBlock
  · rintro first reading rest rfl id outside inside
    exact bases_linked_of_mem outside inside
  · rintro readings rfl id
    rw [run_reads]
    exact bases_link_of_readAll files readings id

end TadsReference.Graph
