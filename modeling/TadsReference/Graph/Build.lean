import TadsReference.Graph.Link
import TadsReference.Graph.Record
import TadsReference.Graph.VisibleMacros
import TadsReference.Source.Input
import TadsReference.Source.Order

/-!
# The graph of a library

All input files are read in their reading order, and the graph of what they declare is linked.
-/

namespace TadsReference.Graph

/-- The macros with which the file at a position is read, if macros are expanded. -/
def scopeFor (graph : Graph) (expandsMacros : Bool) (index : Nat) : Option MacroScope :=
  if expandsMacros then some (MacroScope.ofList (graph.visibleMacros index)) else none

/-- Reads the files from a position on. -/
def readFrom (expandsMacros : Bool) (graph : Graph) (languageSeen : Bool) (index : Nat) :
    List InputFile → Except Failure Graph
  | [] => .ok graph
  | input :: inputs => do
      let reader ← input.reader (graph.scopeFor expandsMacros index)
      let reading := graph.classifyFile languageSeen index reader
      let _ ← reading.ending
      readFrom expandsMacros reading.graph reading.languageSeen (index + 1) inputs

/-- The graph of files that are given in their reading order, before it is linked. -/
def ofOrdered (expandsMacros : Bool) (inputs : List InputFile) : Except Failure Graph :=
  readFrom expandsMacros (ofFiles (inputs.map (·.source))) false 0 inputs

/-- The linked graph of a library. -/
def ofInputs (expandsMacros : Bool) (inputs : List InputFile) : Except Failure Graph := do
  let positions ← ReadingOrder.positions (inputs.map (·.source))
  let graph ← ofOrdered expandsMacros (positions.filterMap (inputs[·]?))
  return graph.link

end TadsReference.Graph
