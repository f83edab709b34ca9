import TadsReference.CommandLine.Inputs
import TadsReference.CommandLine.Options
import TadsReference.Graph.Build
import TadsReference.Page.Dump
import TadsReference.Page.Site

/-!
# Running the program

A run reads the input files, makes their graph, and writes the site. The first failure ends it;
what has been written by then stays.
-/

namespace TadsReference.CommandLine

variable {m : Type → Type} [Monad m] [Storage m]

/-- The content of a file that has to be a text. Bytes that are no text are a fault. -/
def readText (path : String) : ExceptT StorageFault m String := do
  match Text.Utf8.decode? (← Storage.read path) with
  | some text => return String.ofList text
  | none => throw .notText

/-- A text without the white space at its ends. -/
def trimmed (text : List Char) : String :=
  String.ofList (Text.trim text)

/-- The version of the library, or nothing. -/
def versionOf (options : Options) : ExceptT RunFailure m String := do
  match options.version, options.versionFile with
  | some version, _ => return trimmed version.toList
  | none, some path =>
      let text ← ExceptT.adapt (RunFailure.versionFile path)
        (readText path : ExceptT StorageFault m String)
      return trimmed ((Text.lines text.toList).headD [])
  | none, none => return ""

/-- Writes all declarations of a graph to one file as plain text. -/
def writeDump (path : String) (graph : Graph) : ExceptT RunFailure m Unit :=
  ExceptT.adapt (RunFailure.dump path)
    (Storage.write path (Dump.text graph).toUTF8.toList : ExceptT StorageFault m Unit)

/-- One run of the program: it reads all inputs, makes the graph of them, writes the dump if one is
asked for, and then the site. The first failure ends it. -/
def run (options : Options) : ExceptT RunFailure m Unit := do
  let format ← ofExcept ((PageFormat.ofName options.format).mapError RunFailure.library)
  let introduction ← ExceptT.adapt (RunFailure.introduction options.introduction)
    (readText options.introduction : ExceptT StorageFault m String)
  let version ← versionOf options
  let paths ← inputPaths options.paths
  if paths.isEmpty then throw .noInput
  let inputs ← ExceptT.adapt RunFailure.input
    (paths.mapM (readInput options.mirrorDirectory) : ExceptT Failure m (List InputFile))
  let graph ← ofExcept
    ((Graph.ofInputs options.expandsMacros inputs).mapError RunFailure.library)
  if let some path := options.dump then writeDump path graph
  ExceptT.adapt (RunFailure.output options.output)
    (Storage.makeDirectories options.output : ExceptT StorageFault m Unit)
  ExceptT.adapt RunFailure.library
    (Site.write options.output format graph ⟨version, introduction⟩ : ExceptT Failure m Unit)

/-- How the program can come to its end. -/
inductive Ending where
  | finished
  | failed (failure : RunFailure)
  | stopped (stop : Stop)
deriving Repr, DecidableEq

namespace Ending

/-- The exit code by which an ending is reported to the caller of the program. -/
def code : Ending → Nat
  | finished | stopped .help => 0
  | failed _ => 1
  | stopped .misuse => 2

end Ending

/-- Runs the program on its arguments. Nothing is read or written unless they can be understood. -/
def execute (arguments : List String) : m Ending := do
  match Options.ofArguments arguments with
  | .error stop => return .stopped stop
  | .ok options =>
      match ← (run options : ExceptT RunFailure m Unit).run with
      | .ok _ => return .finished
      | .error failure => return .failed failure

end TadsReference.CommandLine
