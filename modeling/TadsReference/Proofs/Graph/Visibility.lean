import TadsReference.Proofs.Graph.DepthFirst
import TadsReference.Proofs.Graph.Scopes

/-!
# Which macros a file sees

A file sees the macros of all files that it includes, directly or not, however they include each
other. They stand in the order in which a walk along the includes comes to the files, and of several
definitions of one name the first counts: `seesInOrder`.
-/

namespace TadsReference

namespace MacroScope

variable {scope : MacroScope} {definition : MacroDefinition} {run : List Char}

/-- Defining a macro makes its definition the one that is found under its name. A definition that is
taken out has the name of the one that was added, so every other name is found as before. -/
theorem lookup?_define :
    (scope.define definition).lookup? run =
      if definition.name == String.ofList run then some definition else scope.lookup? run := by
  simp only [lookup?, define, List.find?_cons]
  cases named : definition.name == String.ofList run with
  | true => rfl
  | false =>
      rw [List.find?_filter]
      apply congrArg (List.find? · scope.definitions)
      funext other
      rw [Bool.eq_iff_iff]
      by_cases same : other.name = definition.name
      · simpa [same] using named
      · simp [same]

/-- A scope that is made of a list of definitions holds the first one of each name. -/
theorem lookup?_ofList (definitions : List MacroDefinition) (run : List Char) :
    (ofList definitions).lookup? run = definitions.find? (·.name == String.ofList run) := by
  induction definitions with
  | nil => rfl
  | cons definition others ih =>
      rw [List.find?_cons, ← ih]
      change ((ofList others).define definition).lookup? run = _
      rw [lookup?_define]
      cases definition.name == String.ofList run <;> rfl

end MacroScope

namespace Graph

open Relation

variable {graph : Graph} {index target : Nat}

theorem lt_length_of_mem_includedFiles (graph : Graph) (source target : Nat)
    (includes : target ∈ graph.includedFiles source) : target < graph.files.length := by
  rcases List.mem_filterMap.mp includes with ⟨name, _, found⟩
  exact (List.findIdx?_eq_some_iff_findIdx_eq.mp found).1

/-- Where there is no file, nothing is included and nothing is defined. -/
theorem file_of_length_le (outside : graph.files.length ≤ index) : graph.file index = default := by
  simp [file, outside]

/-- A file sees its own macros first, as the file itself is where the walk starts. -/
theorem visibleMacros_eq_flatMap (graph : Graph) (index : Nat) :
    graph.visibleMacros index =
      (index :: Walk.preorder graph.includedFiles graph.files.length [index]
        (graph.includedFiles index)).flatMap graph.ownMacros := by
  by_cases inside : index < graph.files.length
  · rw [visibleMacros_eq inside, List.flatMap_cons]
  · have none := file_of_length_le (Nat.le_of_not_lt inside)
    have own : graph.ownMacros index = [] := by
      rw [ownMacros, none]
      rfl
    have included : graph.includedFiles index = [] := by
      rw [includedFiles, none]
      rfl
    rw [visibleMacros, Walk.preorder, dif_neg fun isOpen => inside isOpen.1, included,
      List.flatMap_cons, own]
    simp [Walk.preorder]

/-- The macros that a file sees, if the files that it reaches stand in the given order. -/
structure SeesInOrder (graph : Graph) (index : Nat) (order : List Nat) : Prop where
  /-- The order is that in which the includes are visited depth first, from left to right. -/
  walked : ∀ visits, Walk.DepthFirst graph.includedFiles [] [index] visits ↔ visits = order
  nodup : order.Nodup
  reached : ∀ target, target ∈ order ↔ ReflTransGen graph.IncludesFile index target
  visible : graph.visibleMacros index = order.flatMap graph.ownMacros
  /-- A name means its first definition. -/
  lookup : ∀ name : String, (MacroScope.ofList (graph.visibleMacros index)).lookup? name.toList =
    (graph.visibleMacros index).find? (·.name == name)

/-- Every file of every graph sees the macros of the files that it reaches, each file once, in the
order of a walk along the includes. -/
theorem seesInOrder (graph : Graph) (index : Nat) :
    ∃ order, graph.SeesInOrder index order := by
  have bounded := lt_length_of_mem_includedFiles graph
  have visited (target : Nat) :
      target ∈ Walk.preorder graph.includedFiles graph.files.length [index]
        (graph.includedFiles index) ↔
      target ≠ index ∧ TransGen graph.IncludesFile index target :=
    Walk.mem_preorder_start_iff bounded
  refine ⟨index :: Walk.preorder graph.includedFiles graph.files.length [index]
    (graph.includedFiles index), ?_⟩
  constructor
  · exact fun visits => Walk.depthFirst_start_iff bounded
  · refine List.nodup_cons.mpr ⟨?_, Walk.nodup_preorder _ _ _ _⟩
    exact fun isVisited => ((visited index).mp isVisited).1 rfl
  · intro target
    rw [List.mem_cons, visited, reflTransGen_iff_eq_or_transGen]
    by_cases same : target = index
    · simp [same]
    · simp only [same, ne_eq, not_false_eq_true, true_and, false_or]
  · exact visibleMacros_eq_flatMap graph index
  · intro name
    rw [MacroScope.lookup?_ofList, String.ofList_toList]

end Graph

end TadsReference
