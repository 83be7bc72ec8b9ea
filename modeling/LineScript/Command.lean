import LineScript.FileTree
import LineScript.Session

/-!
# Commands

`runFile` runs the program in a file and `listFile` prints its listing. Both take the way in which
files are read as an argument and report failures instead of acting on them.
-/

namespace LineScript

/-- Why a command failed. -/
inductive CommandError where
  | unreadable (path : String) (fault : ReadFault)
  /-- The listing could not be written. -/
  | unwritable (cause : IoFault)
  | program (error : RunError)
  deriving DecidableEq, Repr, Inhabited

namespace CommandError

def message : CommandError → String
  | unreadable path .notFound => "cannot find file '" ++ path ++ "'"
  | unreadable path .permissionDenied => "permission denied reading '" ++ path ++ "'"
  | unreadable path .invalidUtf8 => "'" ++ path ++ "' contains invalid UTF-8 data"
  | unreadable path (.io cause) => "error reading '" ++ path ++ "': " ++ cause.message
  | unwritable cause => "cannot write output: " ++ cause.message
  | program (.parse error) => "parse error: " ++ error.message
  | program (.failed failure) => "runtime error: " ++ failure.message

end CommandError

abbrev Reader := String → Except ReadFault String

variable {δ : Type} [Device δ]

/-- Runs the program in a file, on a session of its own with the standard library. -/
def runFile (depth : Nat) (read : Reader) (path : String) (debug : Bool) (sink : Sink δ) :
    Outcome CommandError (Sink δ) :=
  match read path with
  | .error fault => .failed (.unreadable path fault) sink
  | .ok source =>
    let session := { (Session.new sink).defineStandard with debug }
    ((session.run depth source).mapError .program).map fun session => session.services.sink

def listFile (read : Reader) (path : String) (sink : Sink δ) : Outcome CommandError (Sink δ) :=
  match read path with
  | .error fault => .failed (.unreadable path fault) sink
  | .ok source =>
    match Statement.parseAll source with
    | .error error => .failed (.program (.parse error)) sink
    | .ok statements =>
      match sink.print (Statement.listAll statements) with
      | (.ok (), sink) => .done sink
      | (.error cause, sink) => .failed (.unwritable cause) sink

end LineScript
