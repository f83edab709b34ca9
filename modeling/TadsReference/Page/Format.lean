import TadsReference.Failure
import TadsReference.Page.Json
import TadsReference.Page.Markdown

/-!
# Formats of pages

The pages of a site can be written in two formats.
-/

namespace TadsReference

/-- The formats in which pages can be written. -/
inductive PageFormat where
  | markdown
  | json
deriving Repr, DecidableEq

namespace PageFormat

/-- The format of a name that is given on the command line. -/
def ofName (name : String) : Except Failure PageFormat :=
  match name with
  | "markdown" | "md" => .ok .markdown
  | "json" => .ok .json
  | _ => .error (.unknownFormat name)

/-- The extension of the files in which pages of a format are written. -/
def extension : PageFormat → String
  | markdown => Markdown.extension
  | json => JsonPage.extension

/-- The page of a declaration in a format. -/
def declarationPage (format : PageFormat) (graph : Graph) (id : DeclId) : String :=
  match format with
  | markdown => Markdown.declarationPage graph id
  | json => JsonPage.declarationPage graph id

/-- The page of a source file in a format. -/
def filePage (format : PageFormat) (graph : Graph) (file : FileRecord) : String :=
  match format with
  | markdown => Markdown.filePage graph file
  | json => JsonPage.filePage graph file

/-- The index page in a format. -/
def indexPage (format : PageFormat) (graph : Graph) (info : SiteInfo) : String :=
  match format with
  | markdown => Markdown.indexPage graph info
  | json => JsonPage.indexPage graph info

/-- The page of a declaration with its stem, if it is shown on a page. -/
def declarationEntry? (format : PageFormat) (graph : Graph) (id : DeclId) :
    Option (String × String) :=
  (graph.page? id).map fun page => (page, format.declarationPage graph id)

/-- The pages of the declarations that have their own, with their stems. -/
def declarationPages (format : PageFormat) (graph : Graph) : List (String × String) :=
  (graph.classes ++ graph.objects ++ graph.productions).filterMap
    (format.declarationEntry? graph)

/-- All pages of a site with their stems, in the order in which they are written. -/
def pages (format : PageFormat) (graph : Graph) (info : SiteInfo) : List (String × String) :=
  format.declarationPages graph ++
    graph.files.map (fun file =>
      (Page.ofFile file.source.shortName, format.filePage graph file)) ++
    [(Page.index, format.indexPage graph info)]

end PageFormat

end TadsReference
