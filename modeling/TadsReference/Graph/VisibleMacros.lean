import TadsReference.Graph.Basic
import TadsReference.Graph.Walk
import TadsReference.Macro.Definition

/-!
# Visible macros

A file sees its own macros and those of every file that it includes, directly or not.
-/

namespace TadsReference.Graph

/-- The definition that a macro declaration gives. -/
def macroDefinition? (graph : Graph) (id : DeclId) : Option MacroDefinition :=
  match (graph.decl id).kind with
  | .macroDecl parameters body => some ⟨graph.name id, parameters, body⟩
  | _ => none

/-- The positions of the files that a file includes. Unknown names are skipped. -/
def includedFiles (graph : Graph) (index : Nat) : List Nat :=
  (graph.file index).source.includes.filterMap graph.fileIndex?

/-- The macros that the file at a position sees, in the order in which they are looked up: its
own, then those of each included file in turn. -/
def visibleMacros (graph : Graph) (index : Nat) : List MacroDefinition :=
  (Walk.preorder graph.includedFiles graph.files.length [] [index]).flatMap fun position =>
    (graph.file position).macros.filterMap graph.macroDefinition?

end TadsReference.Graph
