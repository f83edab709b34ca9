import TadsReference.Graph.Basic
import TadsReference.Text.Search

/-!
# Addresses of pages

A page is known by its stem, its path below the root of the site without the extension. Classes,
objects and productions have pages of their own, members are shown on their owner's page, and all
else on the page of its source file.
-/

namespace TadsReference

namespace Page

/-- The directory of the pages of declarations. -/
def objectDirectory : String := "objects"

/-- The directory of the pages of source files. -/
def fileDirectory : String := "files"

/-- The address of the index. -/
def index : String := "index"

/-- The stem of a source file's page. -/
def ofFile (shortName : String) : String :=
  fileDirectory ++ "/" ++ shortName

/-- The stem of the page of a declaration that has one of its own. -/
def ofBody (body : Body) : String :=
  objectDirectory ++ "/" ++ body.fileName

/-- The path from one page to another one. -/
def relativeLink (source target extension : String) : String :=
  String.join (List.replicate (source.toList.count '/') "../") ++ target ++ "." ++ extension

end Page

namespace Decl

/-- The stem of a declaration's own page. -/
def ownPage? (decl : Decl) : Option String :=
  match decl.kind with
  | .classDecl details => some (Page.ofBody details.block.body)
  | .objectDecl details => some (Page.ofBody details.block.body)
  | .production details => some (Page.ofBody details.body)
  | _ => none

end Decl

namespace Graph

/-- The stem of the page for the members of a block. A `modify` block has the page of its target,
if that is known. -/
def blockPage? (graph : Graph) (id : DeclId) : Option String :=
  match (graph.decl id).kind with
  | .modifyDecl details => details.target.bind fun target => (graph.decl target).ownPage?
  | _ => (graph.decl id).ownPage?

/-- The stem of the page that shows a declaration. -/
def page? (graph : Graph) (id : DeclId) : Option String :=
  match (graph.decl id).kind with
  | .classDecl _ | .objectDecl _ | .production _ | .modifyDecl _ => graph.blockPage? id
  | .method details _ => graph.blockPage? details.owner
  | .property details => graph.blockPage? details.owner
  | _ => some (Page.ofFile (graph.decl id).location.file)

/-- The descriptions of the `modify` blocks for a declaration, with their locations. Empty ones are
left out. -/
def modificationNotes (graph : Graph) (id : DeclId) : List (Location × String) :=
  ((((graph.decl id).block?.map (·.modifications)).getD []).map fun modification =>
    ((graph.decl modification).location, (graph.decl modification).description)).filter
      (·.2 != "")

/-- The name that a base reference shows. -/
def baseName (graph : Graph) : BaseRef → String
  | .name name => name
  | .decl id => graph.name id

/-- The classes that are actions. -/
def actions (graph : Graph) : List DeclId :=
  graph.classes.filter fun id => (graph.decl id).class?.any (·.action)

end Graph

/-- A name with its parameters as they are written in a call. -/
def signature (name : String) (parameters : List String) : String :=
  name ++ "(" ++ Text.join ", " parameters ++ ")"

/-- What the index page says of the library as a whole. -/
structure SiteInfo where
  /-- The version of the library, or nothing. -/
  version : String
  introduction : String
deriving Repr, DecidableEq, Inhabited

namespace SiteInfo

/-- The version of the library as it is shown. Without one, its general name is shown. -/
def shownVersion (info : SiteInfo) : String :=
  if info.version == "" then "3" else info.version

/-- The introduction with the version in the place of its mark. -/
def introductionText (info : SiteInfo) : String :=
  String.ofList (Text.replaceAll "$$VERSION$$".toList info.shownVersion.toList
    info.introduction.toList)

end SiteInfo

end TadsReference
