import FieldPatch.Format
import FieldPatch.Selector.Fault
import FieldPatch.Text.Utf8
import FieldPatch.Tree.Basic

/-! Why an operation fails, and the message of each cause. -/

namespace FieldPatch

/-- What was looked for and is not there. -/
inductive Missing where
  | field (name : String)
  | variable (name : String)
  | function (name : String)
  | script (command : String) (roots : List String)
  | file (source app : String)
  | environment (name : String)
  deriving DecidableEq

def Missing.message : Missing → String
  | .field name => "field " ++ quoted name
  | .variable name => "variable " ++ quoted name
  | .function name => "function " ++ quoted name
  | .script command roots => "script " ++ quoted command ++ " in " ++ ", ".intercalate roots
  | .file source app => "file " ++ quoted source ++ " for app " ++ quoted app
  | .environment name => "environment variable " ++ quoted name

/-- Why a document cannot be read or written. -/
inductive DocumentFault where
  /-- The text is not a document of its format. -/
  | malformed
  | unrepresentableNumber (text : String)
  | nullInToml
  | compoundKey
  | oneDocumentOnly (format : Format)
  deriving DecidableEq

/-- No wording is promised for a malformed document. -/
def DocumentFault.message : DocumentFault → String
  | .malformed => ""
  | .unrepresentableNumber text => "cannot represent number " ++ text
  | .nullInToml => "TOML cannot represent null values"
  | .compoundKey => "map keys must be scalars"
  | .oneDocumentOnly format => format.name ++ " cannot hold more than one document"

/-- Why a value cannot be computed. -/
inductive EvaluationFault where
  | notALocation (selector : String)
  | noSource
  | fileSelectorUnsupported
  | noDocument
  | missingParameter (parameter function : String)
  | defaultOfRequired (parameter function : String)
  | emptyPipeline
  | outsideRoot (what name : String)
  | notText (path : String) (fault : Utf8Fault)
  | nestedTooDeeply
  deriving DecidableEq

def EvaluationFault.message : EvaluationFault → String
  | .notALocation selector =>
    "selector " ++ quoted selector ++ " does not select a location in the document"
  | .noSource => "no value source specified"
  | .fileSelectorUnsupported => "fileSelector is not supported on a documentRef value"
  | .noDocument => "no current document available"
  | .missingParameter parameter function =>
    "missing required parameter " ++ quoted parameter ++ " for function " ++ quoted function
  | .defaultOfRequired parameter function =>
    "parameter " ++ quoted parameter ++ " of function " ++ quoted function ++
      " is required and must not have a default"
  | .emptyPipeline => "empty call pipeline"
  | .outsideRoot what name =>
    what ++ " " ++ quoted name ++ " must be a relative path inside the files root"
  | .notText path fault => path ++ " is not valid UTF-8: " ++ fault.message
  | .nestedTooDeeply => "nested too deeply"

/-- Why the operating system refuses. -/
inductive SystemFault where
  | noSuchFile
  | permissionDenied
  | notADirectory
  | isADirectory
  | notExecutable
  | invalidData
  | nulInArgument
  deriving DecidableEq

def SystemFault.message : SystemFault → String
  | .noSuchFile => "No such file or directory (os error 2)"
  | .permissionDenied => "Permission denied (os error 13)"
  | .notADirectory => "Not a directory (os error 20)"
  | .isADirectory => "Is a directory (os error 21)"
  | .notExecutable => "Exec format error (os error 8)"
  | .invalidData => "stream did not contain valid UTF-8"
  | .nulInArgument => "nul byte found in provided data"

/-- How a script ended. -/
inductive ExitStatus where
  | exited (code : Nat)
  | killed (signal : Nat)
  deriving DecidableEq

/-- The names of the signals, from the first on. -/
def ExitStatus.signalNames : List String :=
  ["SIGHUP", "SIGINT", "SIGQUIT", "SIGILL", "SIGTRAP", "SIGABRT", "SIGBUS", "SIGFPE", "SIGKILL",
    "SIGUSR1", "SIGSEGV", "SIGUSR2", "SIGPIPE", "SIGALRM", "SIGTERM", "SIGSTKFLT", "SIGCHLD",
    "SIGCONT", "SIGSTOP", "SIGTSTP", "SIGTTIN", "SIGTTOU", "SIGURG", "SIGXCPU", "SIGXFSZ",
    "SIGVTALRM", "SIGPROF", "SIGWINCH", "SIGIO", "SIGPWR", "SIGSYS"]

def ExitStatus.message : ExitStatus → String
  | .exited code => "exit status: " ++ toString code
  | .killed signal =>
    "signal: " ++ toString signal ++
      (match signalNames[signal - 1]? with
        | some name => " (" ++ name ++ ")"
        | none => "")

inductive Error where
  | unsupportedFormat (name : String)
  | noExtension
  | unknownExtension (extension : String)
  | document (fault : DocumentFault)
  | badSelector (source : String) (position : Nat) (fault : Selector.Fault)
  | notFound (what : Missing)
  | indexOutOfBounds (index : Int) (length : Nat)
  | typeMismatch (expected : String) (found : Kind)
  | noMatch (selector : String)
  | evaluation (fault : EvaluationFault)
  | execution (command : String) (status : ExitStatus) (stdout stderr : String)
  | system (fault : SystemFault)
  deriving DecidableEq

namespace Error

def message : Error → String
  | .unsupportedFormat name => "unsupported format: " ++ name
  | .noExtension => "cannot detect format: no file extension"
  | .unknownExtension extension => "unknown file extension: ." ++ extension
  | .document fault => "document error: " ++ fault.message
  | .badSelector source position fault =>
    "syntax error in selector " ++ quoted source ++ " at position " ++ toString position ++ ": " ++
      fault.message
  | .notFound what => "not found: " ++ what.message
  | .indexOutOfBounds index length =>
    "index out of bounds: " ++ toString index ++ " (length " ++ toString length ++ ")"
  | .typeMismatch expected found =>
    "type mismatch: expected " ++ expected ++ " but found " ++ found.name
  | .noMatch selector => "no match for selector " ++ quoted selector
  | .evaluation fault => "evaluation error: " ++ fault.message
  | .execution command status stdout stderr =>
    "script " ++ command ++ " failed (" ++ status.message ++ "): stdout: " ++ quoted stdout ++
      ", stderr: " ++ quoted stderr
  | .system fault => "I/O error: " ++ fault.message

/-- Whether the selector was well formed and the tree has nothing at that place. -/
def isUnresolved : Error → Bool
  | .notFound _ | .noMatch _ | .typeMismatch _ _ | .indexOutOfBounds _ _ => true
  | _ => false

end Error

end FieldPatch
