import TadsReference.Graph.Inheritance
import TadsReference.Page.Address
import TadsReference.Page.JsonValue

/-!
# Pages in JSON

Every page is one object. References to other declarations carry the stems of their pages.
-/

namespace TadsReference.JsonPage

open JsonValue (ofFields ofList ofStrings ofOption)

/-- The extension of files in this format. -/
def extension : String := "json"

/-- A place in the sources. -/
def location (location : Location) : JsonValue :=
  ofFields [("file", .string location.file), ("line", .number location.line)]

/-- The name, the location and the page of a declaration, with further fields. -/
def referenceWith (graph : Graph) (id : DeclId) (more : List (String × JsonValue)) : JsonValue :=
  let decl := graph.decl id
  ofFields ([("name", .string decl.name), ("source", location decl.location),
    ("page", ofOption .string (graph.page? id))] ++ more)

/-- A reference to a declaration. -/
def reference (graph : Graph) (id : DeclId) : JsonValue :=
  referenceWith graph id []

/-- References to declarations, in order. -/
def references (graph : Graph) (ids : List DeclId) : JsonValue :=
  ofList (reference graph) ids

/-- A method, a property or a function with its details. -/
def memberDetails (decl : Decl) : JsonValue :=
  let parameters :=
    match decl.parameters? with
    | some parameters => [("params", ofStrings parameters)]
    | none => []
  let member :=
    match decl.member? with
    | some member =>
        [("overridden", JsonValue.bool member.overridden),
         ("interface_only", .bool member.interfaceOnly),
         ("modified_in", ofList location member.modifiedAt)]
    | none => []
  ofFields ([("name", .string decl.name), ("description", .string decl.description),
    ("source", location decl.location)] ++ parameters ++ member)

/-- The details of members, in order. -/
def members (graph : Graph) (ids : List DeclId) : JsonValue :=
  ofList (fun id => memberDetails (graph.decl id)) ids

/-- The members that a declaration inherits, grouped by the ancestor in which they are found. -/
def inherited (graph : Graph) (id : DeclId) (kind : MemberKind) : JsonValue :=
  ofList (fun group : DeclId × List DeclId =>
      ofFields [("from", reference graph group.1),
        ("names", ofStrings (group.2.map graph.name))])
    (graph.inheritedMembers id kind)

/-- A message with the call by which it is written. Another declaration would be shown without a
kind. -/
def message (graph : Graph) (id : DeclId) : JsonValue :=
  let decl := graph.decl id
  let (kind, text) :=
    match decl.kind with
    | .message kind text => (JsonValue.string kind.callName, text)
    | _ => (JsonValue.null, "")
  ofFields [("kind", kind), ("name", .string decl.name), ("text", .string text),
    ("source", location decl.location)]

/-! ### Pages of declarations -/

/-- The fields of a declaration that has members. -/
def bodyFields (graph : Graph) (id : DeclId) (body : Body) : List (String × JsonValue) :=
  [("file_name", .string body.fileName),
   ("properties", members graph body.properties),
   ("methods", members graph body.methods),
   ("inherited_properties", inherited graph id .property),
   ("inherited_methods", inherited graph id .method)]

/-- A base class: a reference, or a bare name. -/
def base (graph : Graph) : BaseRef → JsonValue
  | .name name => ofFields [("name", .string name)]
  | .decl id => reference graph id

/-- The fields that classes and objects have in common. -/
def blockFields (graph : Graph) (id : DeclId) (block : Block) : List (String × JsonValue) :=
  [("bases", ofList (base graph) block.bases),
   ("modified_in", ofList location block.modifiedAt),
   ("modifications", ofList (fun note : Location × String =>
      ofFields [("source", location note.1), ("description", .string note.2)])
    (graph.modificationNotes id))]

/-- A reference to a class of a production, with the grammar rule of which it was made. -/
def matchClass (graph : Graph) (id : DeclId) : JsonValue :=
  referenceWith graph id
    (match (graph.decl id).class?.bind (·.grammar) with
    | some grammar => [("rule", .string grammar.rule)]
    | none => [])

/-- The fields of a declaration that only its kind has. -/
def kindFields (graph : Graph) (kind : DeclKind) : List (String × JsonValue) :=
  match kind with
  | .classDecl details =>
      let grammar :=
        match details.grammar with
        | some grammar =>
            [("rule", JsonValue.string grammar.rule),
             ("production", reference graph grammar.production)]
        | none => []
      [("intrinsic", .bool details.intrinsic), ("action", .bool details.action),
       ("original_definition", ofOption .string details.macroCall),
       ("subclasses", references graph details.subclasses),
       ("global_objects", references graph details.globalObjects)] ++ grammar
  | .objectDecl details =>
      [("transient", .bool details.transient), ("action", .bool details.action)]
  | .production details =>
      [("match_classes", ofList (matchClass graph) details.matchClasses)]
  | _ => []

/-- All that the page of a declaration shows. -/
def declarationValue (graph : Graph) (id : DeclId) : JsonValue :=
  let decl := graph.decl id
  ofFields
    ([("kind", .string decl.kindLabel), ("name", .string decl.name),
      ("description", .string decl.description), ("source", location decl.location)] ++
      (decl.body?.map (bodyFields graph id)).getD [] ++
      (decl.block?.map (blockFields graph id)).getD [] ++ kindFields graph decl.kind)

/-- The page of a declaration as a text. -/
def declarationPage (graph : Graph) (id : DeclId) : String :=
  (declarationValue graph id).write

/-! ### Pages of source files -/

/-- The fields of a symbol on the page of its file. -/
def symbolFields (decl : Decl) (body : String) : List (String × JsonValue) :=
  [("name", .string decl.name), ("body", .string body),
   ("description", .string decl.description), ("line", .number decl.location.line)]

/-- What the page of a file shows of a macro. -/
def macroDetails (decl : Decl) : JsonValue :=
  let body :=
    match decl.kind with
    | .macroDecl _ body => body
    | _ => ""
  ofFields (("params", ofOption ofStrings decl.parameters?) :: symbolFields decl body)

/-- What the page of a file shows of a template. -/
def templateDetails (decl : Decl) : JsonValue :=
  let body :=
    match decl.kind with
    | .template body => body
    | _ => ""
  ofFields (symbolFields decl body)

/-- What the page of a file shows of an enum group. -/
def enumGroup (graph : Graph) (id : GroupId) : JsonValue :=
  let group := graph.group id
  ofFields [("names", ofStrings (group.members.map graph.name)),
    ("description", .string group.description), ("line", .number group.location.line)]

/-- All that the page of a source file shows. -/
def fileValue (graph : Graph) (file : FileRecord) : JsonValue :=
  ofFields
    [("name", .string file.source.shortName), ("header", .bool file.source.isHeader),
     ("lines", .number file.source.lineCount), ("description", .string file.description),
     ("includes", ofStrings file.source.includes),
     ("classes", references graph file.classes), ("objects", references graph file.objects),
     ("functions", members graph file.functions),
     ("macros", ofList (fun id => macroDetails (graph.decl id)) file.macros),
     ("enums", ofList (enumGroup graph) file.enumGroups),
     ("templates", ofList (fun id => templateDetails (graph.decl id)) file.templates)]

/-- The page of a source file as a text. -/
def filePage (graph : Graph) (file : FileRecord) : String :=
  (fileValue graph file).write

/-! ### The index -/

/-- What the index shows of a source file. -/
def indexFile (file : FileRecord) : JsonValue :=
  ofFields [("name", .string file.source.shortName), ("header", .bool file.source.isHeader)]

/-- All that the index shows. -/
def indexValue (graph : Graph) (info : SiteInfo) : JsonValue :=
  ofFields
    [("version", .string info.shownVersion), ("introduction", .string info.introductionText),
     ("files", ofList indexFile graph.files), ("classes", references graph graph.classes),
     ("actions", references graph graph.actions),
     ("grammar", references graph graph.productions),
     ("objects", references graph graph.objects),
     ("functions", references graph graph.functions),
     ("macros", references graph graph.macros), ("enums", references graph graph.enums),
     ("templates", references graph graph.templates),
     ("messages", ofList (message graph) graph.messages)]

/-- The index as a text. -/
def indexPage (graph : Graph) (info : SiteInfo) : String :=
  (indexValue graph info).write

end TadsReference.JsonPage
