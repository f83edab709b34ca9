import TadsReference.Page.Format
import TadsReference.Storage.Basic

/-!
# Sites

A site is the set of all pages of a graph in one format, written below a directory.
-/

namespace TadsReference.Site

variable {m : Type → Type} [Monad m] [Storage m]

/-- Names a path in the failure of an operation on it. -/
def atPath {Result : Type} (path : String) (operation : ExceptT StorageFault m Result) :
    ExceptT Failure m Result :=
  operation.adapt (Failure.storage path)

/-- Makes the directories that all sites have. -/
def makeDirectories (directory : String) : ExceptT Failure m Unit :=
  [Page.objectDirectory, Page.fileDirectory].forM fun name =>
    let path := Path.join directory name
    atPath path (Storage.makeDirectories path)

/-- Writes one page to a path. -/
def writePage (path text : String) : ExceptT Failure m Unit :=
  atPath path (Storage.write path text.toUTF8.toList)

/-- The paths and the texts of the pages of a site. -/
def pages (directory : String) (format : PageFormat) (graph : Graph) (info : SiteInfo) :
    List (String × String) :=
  (format.pages graph info).map fun page =>
    (Path.join directory (page.1 ++ "." ++ format.extension), page.2)

/-- Writes a site, page by page. -/
def write (directory : String) (format : PageFormat) (graph : Graph) (info : SiteInfo) :
    ExceptT Failure m Unit := do
  makeDirectories directory
  (pages directory format graph info).forM fun page => writePage page.1 page.2

end TadsReference.Site
