import TadsReference.Entry.Basic

/-!
# Declarations of the symbol graph

Every declaration has a name, a description and a location. What else is known of it depends on
its kind. Declarations refer to one another by their numbers in the graph.
-/

namespace TadsReference

/-- The number of a declaration: that of the declarations added to the graph before it. -/
abbrev DeclId := Nat

/-- The number of an enumeration group: that of the groups added to the graph before it. -/
abbrev GroupId := Nat

/-- A line of a source file, which is named by its short name. -/
structure Location where
  file : String
  line : Nat
deriving Repr, DecidableEq, Inhabited

namespace Location

/-- A place as it is shown on a page. -/
def text (location : Location) : String :=
  s!"{location.file}:{location.line}"

end Location

/-- The two kinds of members. A body lists each of them on its own. -/
inductive MemberKind where
  | method
  | property
deriving Repr, DecidableEq

/-- The members of a declaration, and the name of the page that shows them. -/
structure Body where
  /-- The name of the page, unique but for the case of letters. -/
  fileName : String
  methods : List DeclId := []
  properties : List DeclId := []
deriving Repr, DecidableEq, Inhabited

namespace Body

/-- The members of one kind that a body lists. -/
def members (body : Body) : MemberKind → List DeclId
  | .method => body.methods
  | .property => body.properties

/-- A body with other members of one kind. -/
def setMembers (body : Body) (kind : MemberKind) (ids : List DeclId) : Body :=
  match kind with
  | .method => { body with methods := ids }
  | .property => { body with properties := ids }

/-- The body with one more member of a kind. -/
def addMember (body : Body) (kind : MemberKind) (id : DeclId) : Body :=
  body.setMembers kind (body.members kind ++ [id])

end Body

/-- A reference to a base class, which is a name until it is resolved. -/
inductive BaseRef where
  | name (name : String)
  | decl (id : DeclId)
deriving Repr, DecidableEq

/-- What classes and objects have in common. -/
structure Block where
  body : Body
  bases : List BaseRef
  /-- The locations of the `modify` blocks for this declaration. -/
  modifiedAt : List Location := []
  modifications : List DeclId := []
deriving Repr, DecidableEq, Inhabited

/-- How a class that was made of a grammar rule belongs to its production. -/
structure GrammarLink where
  rule : String
  production : DeclId
deriving Repr, DecidableEq

/-- What is particular to a class. -/
structure ClassDecl where
  block : Block
  intrinsic : Bool
  action : Bool
  grammar : Option GrammarLink
  /-- The macro call that the class was written as, if that is known. -/
  macroCall : Option String
  /-- The classes that have this one as a base. -/
  subclasses : List DeclId := []
  /-- The objects that have this class as a base. -/
  globalObjects : List DeclId := []
deriving Repr, DecidableEq

/-- What is particular to an object. -/
structure ObjectDecl where
  block : Block
  transient : Bool
  action : Bool
deriving Repr, DecidableEq

/-- A grammar production: the rules of one name. -/
structure ProductionDecl where
  body : Body
  matchClasses : List DeclId := []
deriving Repr, DecidableEq

/-- A `modify` block. -/
structure ModifyDecl where
  body : Body
  /-- The class or object that it modifies, once that is known. -/
  target : Option DeclId := none
deriving Repr, DecidableEq

/-- What methods and properties have in common. -/
structure MemberDecl where
  /-- The class, object or `modify` block in which the member was declared. -/
  owner : DeclId
  overridden : Bool := false
  interfaceOnly : Bool
  modifiedAt : List Location := []
  modifications : List DeclId := []
deriving Repr, DecidableEq

/-- What is known of a declaration by its kind. -/
inductive DeclKind where
  | classDecl (details : ClassDecl)
  | objectDecl (details : ObjectDecl)
  | production (details : ProductionDecl)
  | modifyDecl (details : ModifyDecl)
  | function (parameters : List String)
  | macroDecl (parameters : List String) (body : String)
  | template (body : String)
  | method (details : MemberDecl) (parameters : List String)
  | property (details : MemberDecl)
  | enumMember (group : GroupId)
  | message (kind : MessageKind) (text : String)
deriving Repr, DecidableEq

/-- A declaration of the sources, with all that is shown of it. -/
structure Decl where
  name : String
  /-- The comment before the declaration. -/
  description : String
  location : Location
  kind : DeclKind
deriving Repr, DecidableEq

/-- A declaration that stands where a number is not given out. -/
instance : Inhabited Decl where
  default := ⟨"", "", default, .function []⟩

/-- Enumeration constants that one line declares. -/
structure EnumGroup where
  description : String
  location : Location
  members : List DeclId
deriving Repr, DecidableEq, Inhabited

namespace Decl

/-- The kind of a declaration in words. -/
def kindLabel (decl : Decl) : String :=
  match decl.kind with
  | .classDecl _ => "class"
  | .objectDecl _ => "object"
  | .production _ => "grammar"
  | .modifyDecl _ => "modify"
  | .function _ => "function"
  | .macroDecl _ _ => "macro"
  | .template _ => "template"
  | .method _ _ => "method"
  | .property _ => "property"
  | .enumMember _ => "enum"
  | .message _ _ => "message"

/-- What is particular to a class, if the declaration is one. -/
def class? (decl : Decl) : Option ClassDecl :=
  match decl.kind with
  | .classDecl details => some details
  | _ => none

/-- Whether a declaration is a class. -/
def isClass (decl : Decl) : Bool :=
  decl.class?.isSome

/-- What a class or an object has in common with the other kind. -/
def block? (decl : Decl) : Option Block :=
  match decl.kind with
  | .classDecl details => some details.block
  | .objectDecl details => some details.block
  | _ => none

/-- The body of a declaration that has members. -/
def body? (decl : Decl) : Option Body :=
  match decl.kind with
  | .classDecl details => some details.block.body
  | .objectDecl details => some details.block.body
  | .production details => some details.body
  | .modifyDecl details => some details.body
  | _ => none

/-- What is particular to a member, if the declaration is a method or a property. -/
def member? (decl : Decl) : Option MemberDecl :=
  match decl.kind with
  | .method details _ => some details
  | .property details => some details
  | _ => none

/-- The parameters of a function, a method or a macro. -/
def parameters? (decl : Decl) : Option (List String) :=
  match decl.kind with
  | .function parameters => some parameters
  | .method _ parameters => some parameters
  | .macroDecl parameters _ => some parameters
  | _ => none

/-- The members of a kind that a declaration shows. -/
def members (decl : Decl) (kind : MemberKind) : List DeclId :=
  (decl.body?.map (·.members kind)).getD []

/-- The bases of a class or an object. -/
def bases (decl : Decl) : List BaseRef :=
  (decl.block?.map (·.bases)).getD []

/-- Changes what is particular to a class. Other declarations stay as they are. -/
def mapClass (change : ClassDecl → ClassDecl) (decl : Decl) : Decl :=
  match decl.kind with
  | .classDecl details => { decl with kind := .classDecl (change details) }
  | _ => decl

/-- Changes what is particular to a production. Other declarations stay as they are. -/
def mapProduction (change : ProductionDecl → ProductionDecl) (decl : Decl) : Decl :=
  match decl.kind with
  | .production details => { decl with kind := .production (change details) }
  | _ => decl

/-- Changes what is particular to a `modify` block. Other declarations stay as they are. -/
def mapModify (change : ModifyDecl → ModifyDecl) (decl : Decl) : Decl :=
  match decl.kind with
  | .modifyDecl details => { decl with kind := .modifyDecl (change details) }
  | _ => decl

/-- Changes what classes and objects have in common. -/
def mapBlock (change : Block → Block) (decl : Decl) : Decl :=
  match decl.kind with
  | .classDecl details =>
      { decl with kind := .classDecl { details with block := change details.block } }
  | .objectDecl details =>
      { decl with kind := .objectDecl { details with block := change details.block } }
  | _ => decl

/-- Changes the body of a declaration that has members. -/
def mapBody (change : Body → Body) (decl : Decl) : Decl :=
  match decl.kind with
  | .production details =>
      { decl with kind := .production { details with body := change details.body } }
  | .modifyDecl details =>
      { decl with kind := .modifyDecl { details with body := change details.body } }
  | _ => decl.mapBlock fun block => { block with body := change block.body }

/-- Changes what is particular to a member. Other declarations stay as they are. -/
def mapMember (change : MemberDecl → MemberDecl) (decl : Decl) : Decl :=
  match decl.kind with
  | .method details parameters => { decl with kind := .method (change details) parameters }
  | .property details => { decl with kind := .property (change details) }
  | _ => decl

end Decl

end TadsReference
