import TadsReference.Entry.OfFile
import TadsReference.Graph.Basic

/-!
# Recording entries

The entries of a file are added to the graph in order. The members go to the last block of the
file.
-/

namespace TadsReference.Graph

/-- The name of a rule's production: the name of its class up to the first parenthesis. -/
def productionName (className : String) : String :=
  String.ofList (className.toList.takeWhile (· != '('))

/-- Adds a class. The index is the position of its file. -/
def addClass (graph : Graph) (index : Nat) (decl : Decl) : Graph :=
  let id := graph.nextId
  let added := graph.addDecl decl
  { added with classes := added.classes ++ [id] }.modifyFile index fun file =>
    { file with classes := file.classes ++ [id] }

/-- Adds an object to the graph and to the file in which it is declared. -/
def addObject (graph : Graph) (index : Nat) (decl : Decl) : Graph :=
  let id := graph.nextId
  let added := graph.addDecl decl
  { added with objects := added.objects ++ [id] }.modifyFile index fun file =>
    { file with objects := file.objects ++ [id] }

/-- Adds a function to the graph and to the file in which it is declared. -/
def addFunction (graph : Graph) (index : Nat) (decl : Decl) : Graph :=
  let id := graph.nextId
  let added := graph.addDecl decl
  { added with functions := added.functions ++ [id] }.modifyFile index fun file =>
    { file with functions := file.functions ++ [id] }

/-- Adds a macro to the graph and to the file in which it is declared. -/
def addMacro (graph : Graph) (index : Nat) (decl : Decl) : Graph :=
  let id := graph.nextId
  let added := graph.addDecl decl
  { added with macros := added.macros ++ [id] }.modifyFile index fun file =>
    { file with macros := file.macros ++ [id] }

/-- Adds a template to the graph and to the file in which it is declared. -/
def addTemplate (graph : Graph) (index : Nat) (decl : Decl) : Graph :=
  let id := graph.nextId
  let added := graph.addDecl decl
  { added with templates := added.templates ++ [id] }.modifyFile index fun file =>
    { file with templates := file.templates ++ [id] }

/-- Adds a `modify` block. Files do not list it, since linking merges it into its target. -/
def addModification (graph : Graph) (decl : Decl) : Graph :=
  let id := graph.nextId
  let added := graph.addDecl decl
  { added with modifications := added.modifications ++ [id] }

/-- Adds a message. Files do not list it. -/
def addMessage (graph : Graph) (decl : Decl) : Graph :=
  let id := graph.nextId
  let added := graph.addDecl decl
  { added with messages := added.messages ++ [id] }

/-- Adds a member to the graph and to the body that owns it. -/
def addMember (graph : Graph) (owner : DeclId) (kind : MemberKind) (decl : Decl) : Graph :=
  let id := graph.nextId
  (graph.addDecl decl).modifyDecl owner fun holder => holder.mapBody (·.addMember kind id)

/-- The production of a name, which is added if there is none yet. -/
def requireProduction (graph : Graph) (name : String) (location : Location) :
    DeclId × Graph :=
  match graph.findProduction? name with
  | some id => (id, graph)
  | none =>
      let (fileName, named) := graph.takeName name
      let id := named.nextId
      let added := named.addDecl
        { name := name
          description := ""
          location := location
          kind := .production { body := { fileName } } }
      (id, { added with productions := added.productions ++ [id] })

/-- Adds a class. One that is a grammar rule also joins its production. -/
def recordClass (graph : Graph) (index : Nat) (name description : String) (location : Location)
    (head : ClassHead) : Graph :=
  let (fileName, named) := graph.takeName name
  let details (grammar : Option GrammarLink) : ClassDecl :=
    { block := { body := { fileName }, bases := head.bases.map .name }
      intrinsic := head.intrinsic
      action := head.action
      grammar := grammar
      macroCall := head.macroCall }
  match head.rule with
  | none => named.addClass index ⟨name, description, location, .classDecl (details none)⟩
  | some rule =>
      let (production, joined) := named.requireProduction (productionName name) location
      let id := joined.nextId
      (joined.addClass index
        ⟨name, description, location, .classDecl (details (some ⟨rule, production⟩))⟩).modifyDecl
          production fun holder => holder.mapProduction fun details =>
            { details with matchClasses := details.matchClasses ++ [id] }

/-- Records an object under a page name that no other declaration has. -/
def recordObject (graph : Graph) (index : Nat) (name description : String) (location : Location)
    (head : ObjectHead) : Graph :=
  let (fileName, named) := graph.takeName name
  named.addObject index
    ⟨name, description, location, .objectDecl
      { block := { body := { fileName }, bases := head.bases.map .name }
        transient := head.transient
        action := head.action }⟩

/-- Records the constants of an enum together with the group that they make up. The constants get
the next numbers in order. -/
def recordEnum (graph : Graph) (index : Nat) (description : String) (location : Location)
    (members : List String) : Graph :=
  let group := graph.groups.size
  let first := graph.nextId
  let decls := members.map fun name : String =>
    ({ name := name, description := "", location := location, kind := .enumMember group } : Decl)
  { graph with
    decls := graph.decls ++ decls.toArray
    groups := graph.groups.push
      { description := description
        location := location
        members := (List.range members.length).map (first + ·) }
    enumGroups := graph.enumGroups ++ [group] }.modifyFile index fun file =>
      { file with enumGroups := file.enumGroups ++ [group] }

/-- A graph to which the entries of a file are being added. -/
structure Recording where
  graph : Graph
  /-- The last block of the file. -/
  owner : Option DeclId

namespace Recording

/-- Records what is declared at a place. A block becomes the owner of the members behind it, and a
member without an owner is dropped. -/
def declare (state : Recording) (index : Nat) (name description : String) (location : Location) :
    Declared → Recording
  | .classBlock head =>
      let graph := state.graph.recordClass index name description location head
      ⟨graph, some (graph.nextId - 1)⟩
  | .objectBlock head =>
      ⟨state.graph.recordObject index name description location head, some state.graph.nextId⟩
  | .modifyBlock =>
      ⟨state.graph.addModification
          ⟨name, description, location, .modifyDecl { body := { fileName := "" } }⟩,
        some state.graph.nextId⟩
  | .property interfaceOnly =>
      match state.owner with
      | none => state
      | some owner =>
          { state with
            graph := state.graph.addMember owner .property
              ⟨name, description, location, .property { owner, interfaceOnly }⟩ }
  | .method parameters interfaceOnly =>
      match state.owner with
      | none => state
      | some owner =>
          { state with
            graph := state.graph.addMember owner .method
              ⟨name, description, location, .method { owner, interfaceOnly } parameters⟩ }
  | .function parameters =>
      { state with
        graph := state.graph.addFunction index
          ⟨name, description, location, .function parameters⟩ }
  | .macroDefinition parameters body =>
      { state with
        graph := state.graph.addMacro index
          ⟨name, description, location, .macroDecl parameters body⟩ }
  | .template body =>
      { state with
        graph := state.graph.addTemplate index ⟨name, description, location, .template body⟩ }
  | .message kind text =>
      { state with
        graph := state.graph.addMessage ⟨name, description, location, .message kind text⟩ }

/-- Adds an entry of the file at a position. -/
def add (index : Nat) (shortName : String) (state : Recording) : Entry → Recording
  | .fileDescription text =>
      { state with
        graph := state.graph.modifyFile index fun file => { file with description := text } }
  | .declaration name description line declared =>
      state.declare index name description ⟨shortName, line⟩ declared
  | .enumGroup description line members =>
      { state with graph := state.graph.recordEnum index description ⟨shortName, line⟩ members }

end Recording

/-- Adds the entries of the file at a position. -/
def record (graph : Graph) (index : Nat) (entries : List Entry) : Graph :=
  (entries.foldl (Recording.add index (graph.file index).source.shortName)
    ⟨graph, none⟩).graph

/-- What became of reading a file: the graph, whether the language directory has been declared by
now, and the number of the last line read. -/
structure Reading where
  graph : Graph
  languageSeen : Bool
  ending : Except Failure Nat

/-- Reads the file at a position. What it declares before a failure is kept. -/
def classifyFile (graph : Graph) (languageSeen : Bool) (index : Nat) (reader : Reader) : Reading :=
  let outcome := FileOutcome.ofFile (graph.file index).source.isHeader languageSeen reader
  ⟨graph.record index outcome.entries, outcome.languageSeen, outcome.ending⟩

end TadsReference.Graph
