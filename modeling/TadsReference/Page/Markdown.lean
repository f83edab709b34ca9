import TadsReference.Graph.Inheritance
import TadsReference.Page.Address
import TadsReference.Text.Alphanumeric
import TadsReference.Text.Blank

/-!
# Pages in Markdown

A page is a list of lines, and a line is a sequence of plain text and of links to other pages. The
links become relative paths when the page is written.
-/

namespace TadsReference.Markdown

/-- The extension of files in this format. -/
def extension : String := "md"

/-- A part of a line: a text, or a link to a page or to a heading on it. -/
inductive Inline where
  | text (shown : String)
  | link (label page : String) (heading : Option String)
deriving Repr, DecidableEq

/-- A line of a page. It may hold line feeds. -/
abbrev Line := List Inline

/-- A line of one text. -/
def plain (text : String) : Line :=
  [.text text]

/-- A line without anything on it. -/
def emptyLine : Line := plain ""

/-- The text of a part of a line. Links are relative to the page on which they are written. -/
def Inline.write (source : String) : Inline → String
  | .text shown => shown
  | .link label page heading =>
      let mark :=
        match heading with
        | some heading => "#" ++ heading
        | none => ""
      "[" ++ label ++ "](" ++ Page.relativeLink source page extension ++ mark ++ ")"

/-- The text of lines on a page. -/
def write (source : String) (lines : List Line) : String :=
  Text.join "\n" (lines.map fun line => String.join (line.map (·.write source)))

/-- The mark by which a heading is linked to: its letters, digits, hyphens and spaces in lower
case, with the spaces as hyphens. -/
def headingMark (heading : String) : String :=
  String.ofList (((Text.lowerCase heading).toList.filter fun character =>
    Text.isAlphanumeric character || character == ' ' || character == '-').map fun character =>
      if character == ' ' then '-' else character)

/-- A text that is set as code. -/
def code (text : String) : String :=
  "`" ++ text ++ "`"

/-- A text that is set as code in lines of its own. -/
def codeBlock (text : String) : List Line :=
  [plain "```", plain text, plain "```"]

/-- A heading of a level. An empty line follows it. -/
def heading (level : Nat) (text : String) : Line :=
  plain (String.ofList (List.replicate level '#') ++ " " ++ text ++ "\n")

/-- The line that stands where a list has no items. -/
def noItems : Line := plain "_(none)_"

/-- A description, or a note that there is none. -/
def descriptionOrNote (description : String) : List Line :=
  [plain (if description == "" then "_no description available_" else description), emptyLine]

/-- A description, or nothing if there is none. -/
def descriptionIfAny (description : String) : List Line :=
  if description == "" then [] else [plain description, emptyLine]

/-- A link to a declaration's page, or its bare name if it has none. -/
def linkTo (graph : Graph) (id : DeclId) : Inline :=
  match graph.page? id with
  | some page => .link (graph.name id) page none
  | none => .text (graph.name id)

/-- A location with a link to the page of its file. -/
def locationLink (location : Location) : Line :=
  [.link location.file (Page.ofFile location.file) none,
   .text (" line " ++ toString location.line)]

/-- Lines in one, with a text between neighbours. -/
def joinLines (separator : String) (lines : List Line) : Line :=
  [Inline.text separator].intercalate lines

/-- A declaration's location, and where it was modified. -/
def sourceLine (label : String) (location : Location) (modifiedAt : List Location) : Line :=
  let modified :=
    if modifiedAt.isEmpty then []
    else .text "; modified in " :: joinLines ", " (modifiedAt.map locationLink)
  .text label :: locationLink location ++ modified

/-- Links to declarations in one line, or a note that there are none. -/
def linkList (graph : Graph) (ids : List DeclId) : List Line :=
  let links := joinLines " &nbsp; " (ids.map fun id => [linkTo graph id])
  [if ids.isEmpty then noItems else links, emptyLine]

/-- A class or an object as it would be written in a source file. -/
def declarationText (graph : Graph) (decl : Decl) : String :=
  match decl.class?.bind (·.macroCall) with
  | some macroCall => macroCall
  | none =>
      let opening :=
        match decl.kind with
        | .classDecl details => if details.intrinsic then "intrinsic class " else "class "
        | .objectDecl details => if details.transient then "transient " else ""
        | _ => ""
      let bases :=
        if decl.bases.isEmpty then ""
        else ": " ++ Text.join ", " (decl.bases.map graph.baseName)
      opening ++ decl.name ++ bases

/-! ### Trees -/

/-- A line of a tree of declarations. The declaration at the top is not linked. -/
def treeLine (graph : Graph) (line : Walk.OutlineLine String) : Line :=
  let bullet := Inline.text (String.join (List.replicate line.depth "  ") ++ "* ")
  match line.item with
  | .inl id =>
      if line.depth == 0 then [bullet, .text ("**" ++ graph.name id ++ "**")]
      else [bullet, linkTo graph id]
  | .inr name => [bullet, .text name]

/-- The neighbours of a declaration in the tree of its bases. -/
def parents (graph : Graph) (id : DeclId) : List (Nat ⊕ String) :=
  (graph.decl id).bases.map fun base =>
    match base with
    | .decl parent => .inl parent
    | .name name => .inr name

/-- The neighbours of a class in the tree of its subclasses. -/
def children (graph : Graph) (id : DeclId) : List (Nat ⊕ String) :=
  (((graph.decl id).class?.map (·.subclasses)).getD []).map .inl

/-- The tree of a declaration. Neighbours are shown only where a declaration occurs for the first
time. -/
def tree (graph : Graph) (next : DeclId → List (Nat ⊕ String)) (id : DeclId) : List Line :=
  (Walk.outline next graph.decls.size [] [⟨0, .inl id⟩]).map (treeLine graph)

/-- The section with the tree of the ancestors of a declaration. -/
def superclassTree (graph : Graph) (id : DeclId) : List Line :=
  heading 2 "Superclass Tree" :: tree graph (parents graph) id ++ [emptyLine]

/-! ### Members -/

/-- The title of the sections about members of a kind. -/
def kindTitle : MemberKind → String
  | .method => "Methods"
  | .property => "Properties"

/-- Links to the details of some members further down on the page. -/
def ownMembers (graph : Graph) (members : List DeclId) : List Line :=
  if members.isEmpty then []
  else
    [plain (Text.join " " (members.map fun member =>
      "[" ++ code (graph.name member) ++ "](#" ++ headingMark (graph.name member) ++ ")")),
     emptyLine]

/-- Links to the members that are inherited from an ancestor. -/
def inheritedMembers (graph : Graph) (ancestor : DeclId) (members : List DeclId) : List Line :=
  match graph.page? ancestor with
  | none => []
  | some page =>
      [plain ("Inherited from " ++ code (graph.name ancestor) ++ ":\n"),
       joinLines " " (members.map fun member =>
        [.link (code (graph.name member)) page (some (headingMark (graph.name member)))]),
       emptyLine]

/-- The section that lists the members of a kind, with those that are inherited. -/
def memberSummary (graph : Graph) (id : DeclId) (kind : MemberKind) : List Line :=
  let own := (graph.decl id).members kind
  let inherited := graph.inheritedMembers id kind
  let lists :=
    if own.isEmpty && inherited.isEmpty then [noItems, emptyLine]
    else
      ownMembers graph own ++
        inherited.flatMap fun group => inheritedMembers graph group.1 group.2
  heading 2 ("Summary of " ++ kindTitle kind) :: lists

/-- All that is shown of one member: its signature, its flags, where it stands, and its
description. -/
def memberDetails (decl : Decl) : List Line :=
  let shown :=
    match decl.parameters? with
    | some parameters => signature decl.name parameters
    | none => decl.name
  let badges :=
    (if decl.member?.any (·.overridden) then ["_overridden_"] else []) ++
      (if decl.member?.any (·.interfaceOnly) then ["_interface only_"] else [])
  [heading 3 decl.name, plain (Text.join " " (code shown :: badges)), emptyLine,
   sourceLine "Defined in " decl.location ((decl.member?.map (·.modifiedAt)).getD []),
   emptyLine] ++ descriptionIfAny decl.description

/-- The section with the details of all members of a kind. -/
def memberSection (graph : Graph) (id : DeclId) (kind : MemberKind) : List Line :=
  let members :=
    match (graph.decl id).body? with
    | none => []
    | some body =>
        if (body.members kind).isEmpty then [noItems, emptyLine]
        else (body.members kind).flatMap fun member => memberDetails (graph.decl member)
  heading 2 (kindTitle kind) :: members

/-! ### Pages of declarations -/

/-- The comments of the `modify` blocks of a declaration, each with its place. -/
def modificationNotes (graph : Graph) (id : DeclId) : List Line :=
  (graph.modificationNotes id).flatMap fun note =>
    [.text "_Modified in " :: locationLink note.1 ++ [.text ":_\n"], plain note.2, emptyLine]

/-- The declaration of a class or an object as code. An empty line follows it. -/
def declarationBlock (graph : Graph) (decl : Decl) : List Line :=
  [plain "```", plain (declarationText graph decl), plain "```\n"]

/-- What is shown of a class apart from its members. -/
def classSections (graph : Graph) (id : DeclId) (details : ClassDecl) : List Line :=
  let subclassTree :=
    if details.subclasses.isEmpty then [noItems] else tree graph (children graph) id
  declarationBlock graph (graph.decl id) ++ superclassTree graph id ++
    heading 2 "Subclass Tree" :: subclassTree ++ [emptyLine] ++
    heading 2 "Global Objects" :: linkList graph details.globalObjects

/-- A class of a production, with the grammar rule of which it was made. -/
def matchRule (graph : Graph) (id : DeclId) : List Line :=
  let rule :=
    match (graph.decl id).class?.bind (·.grammar) with
    | some grammar => codeBlock grammar.rule
    | none => []
  [.text "### ", linkTo graph id, .text "\n"] :: rule ++ [emptyLine]

/-- What is shown of a production apart from its members. -/
def productionSections (graph : Graph) (details : ProductionDecl) : List Line :=
  heading 2 "Match Rules" ::
    if details.matchClasses.isEmpty then [noItems]
    else details.matchClasses.flatMap (matchRule graph)

/-- All lines on the page of a declaration. -/
def declarationLines (graph : Graph) (id : DeclId) : List Line :=
  let decl := graph.decl id
  let sections :=
    match decl.kind with
    | .classDecl details => classSections graph id details
    | .objectDecl _ => declarationBlock graph decl ++ superclassTree graph id
    | .production details => productionSections graph details
    | _ => []
  heading 1 (decl.kindLabel ++ " " ++ decl.name) ::
    sourceLine "Declared in " decl.location ((decl.block?.map (·.modifiedAt)).getD []) ::
    emptyLine ::
    descriptionOrNote decl.description ++ modificationNotes graph id ++ sections ++
    memberSummary graph id .property ++ memberSummary graph id .method ++
    memberSection graph id .property ++ memberSection graph id .method

/-- The page of a declaration. It is empty if the declaration is shown on no page. -/
def declarationPage (graph : Graph) (id : DeclId) : String :=
  match graph.page? id with
  | some source => write source (declarationLines graph id)
  | none => ""

/-! ### Pages of source files -/

/-- The section with the symbols of a kind that a file declares. -/
def symbolSection (graph : Graph) (title : String) (ids : List DeclId)
    (codeOf : Decl → Option String) : List Line :=
  if ids.isEmpty then []
  else
    heading 2 title :: ids.flatMap fun id =>
      let decl := graph.decl id
      heading 3 decl.name :: ((codeOf decl).map codeBlock).getD [] ++
        plain ("_line " ++ toString decl.location.line ++ "_\n") ::
        descriptionIfAny decl.description

/-- A function as it is shown as code. -/
def functionCode (decl : Decl) : Option String :=
  decl.parameters?.map (signature decl.name)

/-- A macro as it is shown as code. -/
def macroCode (decl : Decl) : Option String :=
  match decl.kind with
  | .macroDecl parameters body =>
      let shown := if parameters.isEmpty then decl.name else signature decl.name parameters
      some ("#define " ++ shown ++ " " ++ body)
  | _ => none

/-- A template as it is shown as code. -/
def templateCode (decl : Decl) : Option String :=
  match decl.kind with
  | .template body => some (decl.name ++ " template " ++ body)
  | _ => none

/-- What the page of a file shows of an enum group, with an anchor for each constant. -/
def enumGroup (graph : Graph) (id : GroupId) : List Line :=
  let group := graph.group id
  let names := group.members.map graph.name
  names.map (fun name => plain ("<a id=\"" ++ headingMark name ++ "\"></a>")) ++
    heading 3 (Text.join ", " names) ::
    plain ("_line " ++ toString group.location.line ++ "_\n") ::
    descriptionIfAny group.description

/-- The section with links to the files that a file includes. -/
def includeSection (includes : List String) : List Line :=
  if includes.isEmpty then []
  else
    heading 2 "Includes" ::
      includes.map (fun name => [.text "* ", .link name (Page.ofFile name) none]) ++ [emptyLine]

/-- All lines on the page of a source file. -/
def fileLines (graph : Graph) (file : FileRecord) : List Line :=
  let enums :=
    if file.enumGroups.isEmpty then []
    else heading 2 "Enums" :: file.enumGroups.flatMap (enumGroup graph)
  heading 1 file.source.shortName ::
    plain ("_" ++ toString file.source.lineCount ++ " lines_\n") ::
    descriptionOrNote file.description ++ includeSection file.source.includes ++
    heading 2 "Classes" :: linkList graph file.classes ++
    heading 2 "Objects" :: linkList graph file.objects ++
    symbolSection graph "Functions" file.functions functionCode ++
    symbolSection graph "Macros" file.macros macroCode ++ enums ++
    symbolSection graph "Templates" file.templates templateCode

/-- The page of a source file as a text. -/
def filePage (graph : Graph) (file : FileRecord) : String :=
  write (Page.ofFile file.source.shortName) (fileLines graph file)

/-! ### The index -/

/-- A declaration on the index. On the page of a file the link goes to its heading. -/
def indexEntry (graph : Graph) (id : DeclId) : Line :=
  let decl := graph.decl id
  let label :=
    match graph.page? id with
    | some page =>
        if Page.fileDirectory.toList.isPrefixOf page.toList then
          Inline.link decl.name page (some (headingMark decl.name))
        else linkTo graph id
    | none => linkTo graph id
  [.text "* ", label, .text (" (" ++ decl.location.file ++ ")")]

/-- A section of the index with one entry for each declaration, or nothing if there is none. -/
def indexSection (graph : Graph) (title : String) (ids : List DeclId) : List Line :=
  if ids.isEmpty then []
  else heading 2 title :: ids.map (indexEntry graph) ++ [emptyLine]

/-- The introduction on the index, unless it is blank. -/
def introductionLines (info : SiteInfo) : List Line :=
  let text := info.introductionText.toList
  if Text.isBlankText text then [] else [plain (String.ofList (Text.trimEnd text)), emptyLine]

/-- All lines of the index. -/
def indexLines (graph : Graph) (info : SiteInfo) : List Line :=
  let files := graph.files.map fun file =>
    [Inline.text "* ", .link file.source.shortName (Page.ofFile file.source.shortName) none]
  heading 1 ("TADS " ++ info.shownVersion ++ " Library Reference") ::
    introductionLines info ++
    heading 2 "Files" :: files ++ [emptyLine] ++
    indexSection graph "Classes" graph.classes ++
    indexSection graph "Actions" graph.actions ++
    indexSection graph "Grammar" graph.productions ++
    indexSection graph "Objects" graph.objects ++
    indexSection graph "Functions" graph.functions ++
    indexSection graph "Macros" graph.macros ++
    indexSection graph "Enums" graph.enums ++
    indexSection graph "Templates" graph.templates

/-- The index as a text. -/
def indexPage (graph : Graph) (info : SiteInfo) : String :=
  write Page.index (indexLines graph info)

end TadsReference.Markdown
