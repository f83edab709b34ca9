import TadsReference.Text.Search

/-!
# Options

Arguments are read from left to right. An option takes its value from the same argument or from
the next one, and everything that is no option is the path of an input.
-/

namespace TadsReference.CommandLine

/-- The options that take a value. -/
inductive ValueOption where
  | output
  | introduction
  | mirrorDirectory
  | version
  | versionFile
  | dump
  | format
deriving Repr, DecidableEq

/-- The options that take no value. -/
inductive Switch where
  | expandMacros
  | verbose
  | help
deriving Repr, DecidableEq

/-- What an argument that begins with a hyphen stands for. -/
inductive Flag where
  | value (option : ValueOption)
  | switch (switch : Switch)
deriving Repr, DecidableEq

namespace Flag

/-- The option with a long name, which is written behind two hyphens. -/
def ofName : String → Option Flag
  | "output" => some (.value .output)
  | "intro" => some (.value .introduction)
  | "mirror-dir" => some (.value .mirrorDirectory)
  | "tads-version" => some (.value .version)
  | "version-file" => some (.value .versionFile)
  | "dump" => some (.value .dump)
  | "format" => some (.value .format)
  | "expand-macros" => some (.switch .expandMacros)
  | "verbose" => some (.switch .verbose)
  | "help" => some (.switch .help)
  | _ => none

/-- The option with a letter, which is written behind one hyphen. Options that are seldom used have
none. -/
def ofLetter : Char → Option Flag
  | 'o' => some (.value .output)
  | 'i' => some (.value .introduction)
  | 'm' => some (.value .mirrorDirectory)
  | 'd' => some (.value .dump)
  | 'f' => some (.value .format)
  | 'v' => some (.switch .verbose)
  | 'h' => some (.switch .help)
  | _ => none

end Flag

namespace ValueOption

/-- Whether the value of an option is a path. Paths must not be empty. -/
def isPath : ValueOption → Bool
  | version | format => false
  | _ => true

end ValueOption

/-- Why the program does not run. -/
inductive Stop where
  | help
  /-- The arguments are not used as they must be. -/
  | misuse
deriving Repr, DecidableEq

/-- What has been read of the arguments. -/
structure Draft where
  paths : List String := []
  values : List (ValueOption × String) := []
  switches : List Switch := []
  /-- The option whose value must be the next argument. -/
  awaiting : Option ValueOption := none
  onlyPaths : Bool := false
deriving Repr, DecidableEq

namespace Draft

/-- The value that has been given for an option so far. -/
def value? (draft : Draft) (option : ValueOption) : Option String :=
  draft.values.lookup option

/-- A draft with one more path, behind those that were given before. -/
def addPath (draft : Draft) (path : String) : Draft :=
  { draft with paths := draft.paths ++ [path] }

/-- Gives an option its value. An option can be given once. -/
def setValue (draft : Draft) (option : ValueOption) (value : String) : Except Stop Draft :=
  if (draft.value? option).isSome || (option.isPath && value == "") then .error .misuse
  else .ok { draft with values := draft.values ++ [(option, value)], awaiting := none }

/-- Adds an option without a value, which can be given once. -/
def setSwitch (draft : Draft) (switch : Switch) : Except Stop Draft :=
  if switch == .help then .error .help
  else if draft.switches.contains switch then .error .misuse
  else .ok { draft with switches := draft.switches ++ [switch] }

/-- Reads an option with a long name and, behind an equality sign, its value. -/
def readLong (draft : Draft) (name : String) (value : Option String) : Except Stop Draft :=
  match Flag.ofName name, value with
  | some (.value option), some value => draft.setValue option value
  | some (.value option), none => .ok { draft with awaiting := some option }
  | some (.switch switch), none => draft.setSwitch switch
  | _, _ => .error .misuse

/-- Reads the letters of options. The text behind an option with a value is its value. -/
def readLetters (draft : Draft) : List Char → Except Stop Draft
  | [] => .ok draft
  | letter :: rest =>
      match Flag.ofLetter letter with
      | some (.switch switch) => do readLetters (← draft.setSwitch switch) rest
      | some (.value option) =>
          match rest with
          | [] => .ok { draft with awaiting := some option }
          | '=' :: value => draft.setValue option (String.ofList value)
          | value => draft.setValue option (String.ofList value)
      | none => .error .misuse

/-- Reads an argument that begins with a hyphen. -/
def readOption (draft : Draft) : List Char → Except Stop Draft
  | ['-'] => .ok { draft with onlyPaths := true }
  | '-' :: long =>
      let name := String.ofList (long.takeWhile (· != '='))
      match long.dropWhile (· != '=') with
      | [] => draft.readLong name none
      | _ :: value => draft.readLong name (some (String.ofList value))
  | letters => draft.readLetters letters

/-- Reads an argument. A hyphen alone is a value or a path. -/
def read (draft : Draft) (argument : String) : Except Stop Draft :=
  if draft.onlyPaths then .ok (draft.addPath argument)
  else
    match argument.toList, draft.awaiting with
    | '-' :: _ :: _, some _ => .error .misuse
    | '-' :: first :: rest, none => draft.readOption (first :: rest)
    | _, some option => draft.setValue option argument
    | _, none => .ok (draft.addPath argument)

end Draft

/-- What the arguments of the program ask for, once all that is required has been found among
them. -/
structure Options where
  /-- Files, directories and patterns of input files. -/
  paths : List String
  output : String
  /-- The file with the introduction for the index. -/
  introduction : String
  mirrorDirectory : Option String
  version : Option String
  /-- The file whose first line is the version of the library. -/
  versionFile : Option String
  dump : Option String
  format : String
  expandsMacros : Bool
deriving Repr, DecidableEq

namespace Options

/-- The options of a draft that is complete. -/
def ofDraft (draft : Draft) : Except Stop Options :=
  match draft.value? .output, draft.value? .introduction with
  | some output, some introduction =>
      if draft.paths.isEmpty || draft.awaiting.isSome ||
          ((draft.value? .version).isSome && (draft.value? .versionFile).isSome) then
        .error .misuse
      else
        .ok {
          paths := draft.paths
          output := output
          introduction := introduction
          mirrorDirectory := draft.value? .mirrorDirectory
          version := draft.value? .version
          versionFile := draft.value? .versionFile
          dump := draft.value? .dump
          format := (draft.value? .format).getD "markdown"
          expandsMacros := draft.switches.contains .expandMacros }
  | _, _ => .error .misuse

/-- The options that the arguments of the program stand for, or the reason not to run. -/
def ofArguments (arguments : List String) : Except Stop Options := do
  ofDraft (← arguments.foldlM Draft.read {})

end Options

end TadsReference.CommandLine
