/-!
# Entries

What the lines of a source file declare, in the order in which they declare it.
-/

namespace TadsReference

/-- The two calls that define a message. -/
inductive MessageKind where
  | basic
  | default
deriving Repr, DecidableEq

namespace MessageKind

/-- The name by which a message of a kind is called in the sources. -/
def callName : MessageKind → String
  | basic => "BMsg"
  | default => "DMsg"

end MessageKind

/-- What is known of a class from its declaration. -/
structure ClassHead where
  bases : List String
  intrinsic : Bool := false
  action : Bool := false
  /-- The macro call that the class was written as, if that is known. -/
  macroCall : Option String := none
  /-- The alternatives of a grammar rule, if the class is one. -/
  rule : Option String := none
deriving Repr, DecidableEq

/-- What is known of an object from its declaration. -/
structure ObjectHead where
  bases : List String
  transient : Bool := false
  action : Bool := false
deriving Repr, DecidableEq

/-- What a declaration declares under its name. -/
inductive Declared where
  | classBlock (head : ClassHead)
  | objectBlock (head : ObjectHead)
  /-- A block of members for a class or an object declared elsewhere. -/
  | modifyBlock
  | property (interfaceOnly : Bool)
  | method (parameters : List String) (interfaceOnly : Bool)
  | function (parameters : List String)
  | macroDefinition (parameters : List String) (body : String)
  | template (body : String)
  | message (kind : MessageKind) (text : String)
deriving Repr, DecidableEq

/-- What one line of a file, with the lines read for it, adds to the graph. -/
inductive Entry where
  /-- The first comment of the file. -/
  | fileDescription (text : String)
  | declaration (name description : String) (line : Nat) (declared : Declared)
  /-- The enumeration constants that one line declares. -/
  | enumGroup (description : String) (line : Nat) (members : List String)
deriving Repr, DecidableEq

end TadsReference
