import LineScript.CommandLine

/-!
# The program

The outer layer of the command line: it reads the file that the arguments name and writes what
the request is answered with.
-/

namespace LineScript

/-- The number of a system error, which some operations report negated. -/
def errorNumber (code : UInt32) : UInt32 :=
  min code (0 - code)

/-- The cause behind the number of a system error, described by `text` if it has no name here. -/
def ioFault (code : UInt32) (text : String) : IoFault :=
  match errorNumber code with
  | 20 => .notDirectory
  | 21 => .isDirectory
  | 28 => .deviceFull
  | 36 => .nameTooLong
  | _ => .host text

/-- The reason for which the system refused to read a file. -/
def readFault (error : IO.Error) : ReadFault :=
  match error with
  | .noFileOrDirectory .. => .notFound
  | .permissionDenied .. => .permissionDenied
  | .inappropriateType _ code _ => .io (ioFault code (toString error))
  | .invalidArgument _ code _ => .io (ioFault code (toString error))
  | _ => .io (.host (toString error))

def readText (path : String) : IO (Except ReadFault String) := do
  try
    return decodeText (← IO.FS.readBinFile path)
  catch error =>
    return .error (readFault error)

def depthLimit : Nat := 1000000000

/-- Answers a request, given the text of the file that it is about and a console that has room or
has none. -/
def answer (request : CommandLine.Request) (source : Except ReadFault String) (full : Bool) :
    CommandLine.Response :=
  (request.respond depthLimit (fun _ => source) (.console full "")).getD ⟨1, "", ""⟩

end LineScript

open LineScript in
/-- Runs the program. When the standard output takes no text, the answer is the one for a full
console. -/
def main (arguments : List String) : IO UInt32 := do
  let request := CommandLine.Request.ofArguments arguments
  let source ← match request.path? with
    | some path => readText path
    | none => pure (.error .notFound)
  let response := answer request source false
  let response ←
    try
      let out ← IO.getStdout
      out.putStr response.out
      out.flush
      pure response
    catch _ => pure (answer request source true)
  IO.eprint response.err
  return response.status.toUInt32
