import Std.Data.HashSet
import TadsReference.Graph.Decl
import TadsReference.Source.File
import TadsReference.Text.LowerCase

/-!
# The symbol graph

The graph holds all declarations in the order in which they were added, and lists of their numbers
by kind and by source file.
-/

namespace TadsReference

/-- What the graph knows of a source file: the file, its description, and what it declares at top
level. -/
structure FileRecord where
  source : SourceFile
  /-- The first comment of the file. -/
  description : String := ""
  classes : List DeclId := []
  objects : List DeclId := []
  functions : List DeclId := []
  macros : List DeclId := []
  templates : List DeclId := []
  enumGroups : List GroupId := []
  /-- The enumeration constants of all groups, listed by linking. -/
  enums : List DeclId := []
deriving Repr, DecidableEq, Inhabited

/-- All declarations of the sources. Elsewhere they are referred to by their numbers, and the lists
are those of one kind each. -/
structure Graph where
  decls : Array Decl := #[]
  groups : Array EnumGroup := #[]
  files : List FileRecord := []
  classes : List DeclId := []
  objects : List DeclId := []
  productions : List DeclId := []
  functions : List DeclId := []
  macros : List DeclId := []
  templates : List DeclId := []
  /-- The `modify` blocks in the order in which they were read. -/
  modifications : List DeclId := []
  messages : List DeclId := []
  enumGroups : List GroupId := []
  /-- The enumeration constants of all groups, listed by linking. -/
  enums : List DeclId := []
  /-- The lower-case forms of the page names that are taken. -/
  takenNames : Std.HashSet String := ∅
deriving Repr, Inhabited

namespace Graph

/-- The graph of files of which nothing has been read. -/
def ofFiles (files : List SourceFile) : Graph where
  files := files.map fun source => { source }

/-! ### Looking things up -/

/-- The declaration with a number. A number that is not given out stands for a default one. -/
def decl (graph : Graph) (id : DeclId) : Decl :=
  graph.decls.getD id default

/-- The name of the declaration with a number. -/
def name (graph : Graph) (id : DeclId) : String :=
  (graph.decl id).name

/-- The enum group with a number. -/
def group (graph : Graph) (id : GroupId) : EnumGroup :=
  graph.groups.getD id default

/-- The first declaration of a list that has a name. -/
def findNamed? (graph : Graph) (ids : List DeclId) (name : String) : Option DeclId :=
  ids.find? (graph.name · == name)

/-- The first class of a name. -/
def findClass? (graph : Graph) (name : String) : Option DeclId :=
  graph.findNamed? graph.classes name

/-- The first class of a name, or else the first object. -/
def findBlock? (graph : Graph) (name : String) : Option DeclId :=
  graph.findClass? name <|> graph.findNamed? graph.objects name

/-- The first production of a name. -/
def findProduction? (graph : Graph) (name : String) : Option DeclId :=
  graph.findNamed? graph.productions name

/-- The first member of a kind and a name that a declaration shows. -/
def findMember? (graph : Graph) (id : DeclId) (name : String) (kind : MemberKind) :
    Option DeclId :=
  graph.findNamed? ((graph.decl id).members kind) name

/-- The position of the first file of a short name. -/
def fileIndex? (graph : Graph) (shortName : String) : Option Nat :=
  graph.files.findIdx? (·.source.shortName == shortName)

/-- What the graph knows of the file at an index. -/
def file (graph : Graph) (index : Nat) : FileRecord :=
  (graph.files[index]?).getD default

/-! ### Adding and changing -/

/-- Changes one declaration and leaves the others as they are. -/
def modifyDecl (graph : Graph) (id : DeclId) (change : Decl → Decl) : Graph :=
  { graph with decls := graph.decls.modify id change }

/-- Changes what the graph knows of one file. -/
def modifyFile (graph : Graph) (index : Nat) (change : FileRecord → FileRecord) : Graph :=
  { graph with files := graph.files.modify index change }

/-- The number that the next declaration will get. -/
def nextId (graph : Graph) : DeclId :=
  graph.decls.size

/-- Adds a declaration at the end. -/
def addDecl (graph : Graph) (decl : Decl) : Graph :=
  { graph with decls := graph.decls.push decl }

/-! ### Names of pages -/

/-- The names tried for a page in order: the plain one, then the one with a number behind it. -/
def candidateName (name : String) : Nat → String
  | 0 => name
  | suffix + 1 => name ++ toString (suffix + 1)

/-- Whether a name for a page is taken, but for the case of letters. -/
def isTaken (graph : Graph) (name : String) : Bool :=
  graph.takenNames.contains (Text.lowerCase name)

/-- The first name for a page that is not taken. There are more candidates than names taken, so one
of them is free. -/
def freeName (graph : Graph) (name : String) : String :=
  candidateName name
    (((List.range (graph.takenNames.size + 1)).find? fun suffix =>
      !graph.isTaken (candidateName name suffix)).getD 0)

/-- Takes a name for a page. -/
def takeName (graph : Graph) (name : String) : String × Graph :=
  let free := graph.freeName name
  (free, { graph with takenNames := graph.takenNames.insert (Text.lowerCase free) })

end Graph

end TadsReference
