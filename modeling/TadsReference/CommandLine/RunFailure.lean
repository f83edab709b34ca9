import TadsReference.Failure
import TadsReference.Glob.Pattern

/-!
# Failures of a run

A failure is reported together with the failures that caused it.
-/

namespace TadsReference

namespace Failure

/-- What is reported about a failure: the failure itself and, behind it, the fault that caused
it. -/
def messages : Failure → List String
  | storage path fault => [(storage path fault).message, fault.message]
  | failure => [failure.message]

end Failure

namespace CommandLine

/-- Why a run of the program can fail. Each failure says what was being done when it occurred. -/
inductive RunFailure where
  | introduction (path : String) (fault : StorageFault)
  | versionFile (path : String) (fault : StorageFault)
  | directory (path : String) (fault : StorageFault)
  | pattern (text : String) (error : Glob.PatternError)
  | noInput
  /-- An input file cannot be read. -/
  | input (failure : Failure)
  /-- The graph or the site cannot be made. -/
  | library (failure : Failure)
  | dump (path : String) (fault : StorageFault)
  | output (path : String) (fault : StorageFault)
deriving Repr, DecidableEq

namespace RunFailure

/-- The wording of a failure and of its causes, the last cause last. -/
def messages : RunFailure → List String
  | introduction path fault => ["failed to read introduction: " ++ path, fault.message]
  | versionFile path fault => ["failed to read version file: " ++ path, fault.message]
  | directory path fault => ["failed to read directory: " ++ path, fault.message]
  | pattern text error => ["invalid glob pattern: " ++ text, error.message]
  | noInput => ["no input files found"]
  | input failure => "failed to read input files" :: failure.messages
  | library failure => failure.messages
  | dump path fault => ["failed to create dump file: " ++ path, fault.message]
  | output path fault => ["failed to create output directory: " ++ path, fault.message]

/-- The lines of a text, all but the first of them indented. -/
def hanging (indentation text : String) : String :=
  String.ofList (Text.replaceAll ['\n'] ('\n' :: indentation.toList) text.toList)

/-- The causes of a failure. Several ones are numbered. -/
def causes : List String → String
  | [] => ""
  | [cause] => "\n\nCaused by:\n    " ++ hanging "    " cause
  | causes =>
      "\n\nCaused by:" ++ String.join (causes.zipIdx.map fun entry =>
        "\n    " ++ toString entry.2 ++ ": " ++ hanging "       " entry.1)

/-- The text in which the program reports a failure. -/
def report (failure : RunFailure) : String :=
  match failure.messages with
  | [] => "Error: "
  | message :: others => "Error: " ++ message ++ causes others

end RunFailure

end CommandLine

end TadsReference
