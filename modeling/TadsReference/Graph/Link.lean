import TadsReference.Graph.Link.Collections
import TadsReference.Graph.Link.Modifications

/-!
# Linking

Linking turns the names in a graph into references, once all files have been read. The lists are
sorted first, since the first declaration of a name in display order is the one a name refers to.
`modify` blocks are merged before bases are resolved, so that their members take part in
overriding.
-/

namespace TadsReference.Graph

/-- Links a graph whose files have been read. The passes are made in this order: bases can be
resolved only when the `modify` blocks have brought their members, and flags depend on the bases. -/
def link (graph : Graph) : Graph :=
  graph.sortCollections.mergeModifications.linkAllBases.gatherProductions.sortHolders.finishFiles
    |>.markOverrides
    |>.finishEnums

end TadsReference.Graph
