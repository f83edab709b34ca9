import TadsReference.Graph.DisplayOrder
import TadsReference.Graph.Link.Bases

/-!
# Putting collections in order

All lists of the graph are put into display order. Productions gather the members of their rules,
and the constants of enumeration groups are listed.
-/

namespace TadsReference.Graph

/-- Sorts the files and the graph's lists of declarations. -/
def sortCollections (graph : Graph) : Graph :=
  { graph with
    files := sortedFiles graph.files
    classes := graph.sorted graph.classes
    objects := graph.sorted graph.objects
    productions := graph.sorted graph.productions
    functions := graph.sorted graph.functions
    macros := graph.sorted graph.macros
    templates := graph.sorted graph.templates
    messages := graph.sorted graph.messages }

/-- The members of a production together with those of its rules. -/
def gatheredMembers (graph : Graph) (details : ProductionDecl) (kind : MemberKind) :
    List DeclId :=
  (details.matchClasses.flatMap fun rule => (graph.decl rule).members kind).foldl insertOnce
    (details.body.members kind)

/-- Adds the members of its rules to a production. -/
def gatherProduction (graph : Graph) (id : DeclId) : Graph :=
  graph.modifyDecl id fun decl => decl.mapProduction fun details =>
    { details with
      body :=
        { details.body with
          methods := graph.gatheredMembers details .method
          properties := graph.gatheredMembers details .property } }

/-- Gathers the members of all productions from the classes of their rules. -/
def gatherProductions (graph : Graph) : Graph :=
  graph.productions.foldl gatherProduction graph

/-- Sorts the lists that a declaration holds, but not its subclasses. -/
def sortHolder (graph : Graph) (id : DeclId) : Graph :=
  graph.modifyDecl id fun decl =>
    ((decl.mapBody fun body =>
      { body with
        methods := graph.sorted body.methods
        properties := graph.sorted body.properties }).mapClass fun details =>
          { details with globalObjects := graph.sorted details.globalObjects }).mapProduction
            fun details =>
              { details with matchClasses := graph.sorted details.matchClasses }

/-- Sorts the member lists of all classes, objects and productions. -/
def sortHolders (graph : Graph) : Graph :=
  (graph.classes ++ graph.objects ++ graph.productions).foldl sortHolder graph

/-- Sorts the constants of one enum group. -/
def sortGroup (graph : Graph) (id : GroupId) : Graph :=
  { graph with
    groups := graph.groups.modify id fun group =>
      { group with members := graph.sorted group.members } }

/-- The constants of several groups, sorted. -/
def constants (graph : Graph) (groups : List GroupId) : List DeclId :=
  graph.sorted (groups.flatMap fun group => (graph.group group).members)

/-- Sorts the lists of a file and lists its enumeration constants. -/
def finishFile (graph : Graph) (index : Nat) : Graph :=
  let grouped := (graph.file index).enumGroups.foldl sortGroup graph
  grouped.modifyFile index fun file =>
    { file with
      classes := grouped.sorted file.classes
      objects := grouped.sorted file.objects
      functions := grouped.sorted file.functions
      macros := grouped.sorted file.macros
      templates := grouped.sorted file.templates
      enumGroups := grouped.sortedGroups file.enumGroups
      enums := grouped.constants file.enumGroups }

/-- Brings the lists of all files into the order in which they are shown. -/
def finishFiles (graph : Graph) : Graph :=
  (List.range graph.files.length).foldl finishFile graph

/-- Lists the enumeration constants of all groups, and sorts the groups. -/
def finishEnums (graph : Graph) : Graph :=
  { graph with
    enums := graph.constants graph.enumGroups
    enumGroups := graph.sortedGroups graph.enumGroups }

end TadsReference.Graph
