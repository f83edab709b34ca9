import TadsReference.Macro.Definition

/-!
# Macro scopes

A scope holds the macros that are visible at one place, with at most one definition for a name.
-/

namespace TadsReference

/-- The macros that are visible to a line. -/
structure MacroScope where
  definitions : List MacroDefinition
  /-- A name is defined once. -/
  distinct : (definitions.map (·.name)).Nodup := by simp

namespace MacroScope

/-- A scope in which no macro is visible. -/
def empty : MacroScope where
  definitions := []

/-- A scope without macros stands where none is given. -/
instance : Inhabited MacroScope := ⟨empty⟩

/-- Adds a definition, which takes the place of an earlier one of the same name. -/
def define (definition : MacroDefinition) (scope : MacroScope) : MacroScope where
  definitions := definition :: scope.definitions.filter (·.name != definition.name)
  distinct := by
    rw [List.map_cons, List.nodup_cons]
    constructor
    · simp
    · exact scope.distinct.sublist (List.filter_sublist.map _)

/-- The scope of a list of definitions. The first definition of a name counts. -/
def ofList (definitions : List MacroDefinition) : MacroScope :=
  definitions.foldr define empty

/-- The definition that an identifier names. -/
def lookup? (scope : MacroScope) (run : List Char) : Option MacroDefinition :=
  let name := String.ofList run
  scope.definitions.find? (·.name == name)

/-- How many macros are visible in a scope. -/
def size (scope : MacroScope) : Nat :=
  scope.definitions.length

/-- Whether no macro is visible in a scope. -/
def isEmpty (scope : MacroScope) : Bool :=
  scope.definitions.isEmpty

end MacroScope

end TadsReference
