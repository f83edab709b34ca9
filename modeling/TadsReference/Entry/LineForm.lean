import TadsReference.Token

/-!
# Forms of lines

The form of a line is what its first tokens alone tell about it, before it is known where the line
stands. Every recogniser works on the text behind those tokens.
-/

namespace TadsReference

/-- The forms that may declare something. The text is what stands behind the tokens of the form. -/
inductive LineForm where
  | intrinsicClass (rest : List Char)
  | functionSet
  | classHead (rest : List Char)
  | grammarRule (rest : List Char)
  | modifyBlock (rest : List Char)
  | comment (rest : List Char)
  | enumeration (rest : List Char)
  | macroDefinition (rest : List Char)
  | template (name : String) (rest : List Char)
  /-- A name with an equals sign. -/
  | assignment (name : String) (interfaceOnly : Bool)
  /-- A name with a colon. -/
  | objectHead (name : String) (rest : List Char) (transient : Bool)
  /-- A name with an opening parenthesis. -/
  | call (name : String) (rest : List Char) (interfaceOnly : Bool)
  /-- A name with an opening brace. -/
  | braced (name : String) (rest : List Char) (interfaceOnly : Bool)
  | other
deriving Repr, DecidableEq

/-- A line as its first tokens show it. -/
structure LineShape where
  /-- The line begins with a brace that closes a body at the left margin. -/
  closesBody : Bool
  form : LineForm
deriving Repr, DecidableEq

namespace LineShape

/-- The shape of a line that no keyword begins: a name and the token behind it. In a member's
place, two slashes before the name make it part of the interface only. -/
def ofName (isHeader : Bool) (indent : Nat) (transient : Bool) (token : String)
    (rest : List Char) : LineShape :=
  let interfaceOnly := token == "//" && indent == 4
  let (name, behind) := if interfaceOnly then Token.next rest else (token, rest)
  let (second, remaining) := Token.next behind
  { closesBody := name == "\x7d" && indent == 0
    form :=
      if second == "=" then .assignment name interfaceOnly
      else if second == "(" then .call name remaining interfaceOnly
      else if second == "\x7b" then .braced name remaining interfaceOnly
      else if interfaceOnly then .other
      else if isHeader && second == "template" then .template name remaining
      else if second == ":" then .objectHead name remaining transient
      else .other }

/-- The shape of a line with a given first token. -/
def ofFirst (isHeader : Bool) (indent : Nat) (transient : Bool) (token : String)
    (rest : List Char) : LineShape :=
  let keyword (form : LineForm) : LineShape := { closesBody := false, form := form }
  match token with
  | "intrinsic" =>
      match Token.next rest with
      | ("class", rest) => keyword (.intrinsicClass rest)
      | ("'", _) => keyword .functionSet
      | _ => keyword .other
  | "class" => keyword (.classHead rest)
  | "grammar" | "VerbRule" => keyword (.grammarRule rest)
  | "modify" => keyword (.modifyBlock rest)
  | "/*" => keyword (.comment rest)
  | "enum" =>
      if isHeader then keyword (.enumeration rest)
      else ofName isHeader indent transient token rest
  | "#" =>
      match Token.next rest with
      | (directive, rest) =>
          if isHeader && directive == "define" then keyword (.macroDefinition rest)
          else ofName isHeader indent transient directive rest
  | _ => ofName isHeader indent transient token rest

/-- The shape of a line behind its indentation. -/
def ofLine (isHeader : Bool) (indent : Nat) (body : List Char) : LineShape :=
  match Token.next body with
  | ("transient", rest) =>
      let (token, rest) := Token.next rest
      ofFirst isHeader indent true token rest
  | (token, rest) => ofFirst isHeader indent false token rest

end LineShape

end TadsReference
