import TadsReference.Entry.Basic

/-!
# Contexts

What the lines of a file before a given one determine for it: where it stands, which comment is
waiting for a declaration, and whether a block is open that can take members.
-/

namespace TadsReference

/-- The surroundings of a line. -/
inductive Region where
  | topLevel
  /-- The body of a class, an object or a `modify` block. -/
  | blockBody
  /-- The body of a function, which lasts up to a closing brace at the left margin. -/
  | functionBody
  /-- A set of intrinsic functions, in which calls at any depth declare functions. -/
  | functionSet
deriving Repr, DecidableEq

/-- What is known of the lines before the one that is classified. -/
structure Context where
  region : Region
  /-- The last comment, if nothing has been declared since. -/
  comment : String
  /-- Whether a comment has been seen. The first one describes the file. -/
  commentSeen : Bool
  /-- Whether a block has been opened. The last one takes the members. -/
  blockOpen : Bool
deriving Repr, DecidableEq

namespace Context

/-- What is known at the beginning of a file. -/
def start : Context where
  region := .topLevel
  comment := ""
  commentSeen := false
  blockOpen := false

/-- Whether members are recognised at an indentation. -/
def acceptsMembers (context : Context) (indent : Nat) : Bool :=
  indent == 4 && context.region != .functionBody

/-- Behind the end of a body, with all else as it was. -/
def leaveBody (context : Context) : Context :=
  { context with region := .topLevel }

/-- Records a declaration, which takes the waiting comment. The comment is gone even if there is
nothing to record. -/
def record (context : Context) (line : Nat) (found : Option (String × Declared)) :
    Option Entry × Context :=
  (found.map fun declaration =>
      .declaration declaration.1 context.comment line declaration.2,
    { context with comment := "" })

/-- Records a declaration that opens a block. -/
def openBlock (context : Context) (line : Nat) (found : Option (String × Declared)) :
    Option Entry × Context :=
  let (entry, later) := context.record line found
  (entry,
    if found.isSome then { later with region := .blockBody, blockOpen := true } else later)

/-- Records the names of an enumeration, which take the waiting comment. -/
def recordEnum (context : Context) (line : Nat) (found : Option (List String)) :
    Option Entry × Context :=
  (found.map (.enumGroup context.comment line), { context with comment := "" })

/-- Keeps a comment. The first one of a file is an entry of its own, later ones wait. -/
def keepComment (context : Context) (text : String) : Option Entry × Context :=
  if context.commentSeen then (none, { context with comment := text })
  else (some (.fileDescription text), { context with comment := "", commentSeen := true })

end Context

end TadsReference
