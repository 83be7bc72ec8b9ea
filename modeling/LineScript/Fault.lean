import LineScript.Value

/-!
# Faults

A run fails for a `Fault`, and a `Failure` pairs it with the source of the statement that
failed. The statement is attached on the way out of the run, so that the first attachment names
the innermost statement and later ones change nothing.
-/

namespace LineScript

/-- Why an operation on a device or a file failed. -/
inductive IoFault where
  | shortWrite
  /-- The device took nothing of what a buffer held back. -/
  | stalledBuffer
  | deviceFull
  | isDirectory
  /-- The path goes on below something that is no directory. -/
  | notDirectory
  | nameTooLong
  | nulInPath
  | host (text : String)
  deriving DecidableEq, Repr, Inhabited

def IoFault.message : IoFault → String
  | shortWrite => "failed to write whole buffer"
  | stalledBuffer => "failed to write the buffered data"
  | deviceFull => "No space left on device (os error 28)"
  | isDirectory => "Is a directory (os error 21)"
  | notDirectory => "Not a directory (os error 20)"
  | nameTooLong => "File name too long (os error 36)"
  | nulInPath => "file name contained an unexpected NUL byte"
  | host text => text

/-- Why a statement failed. -/
inductive Fault where
  | missingOperands (got : Nat)
  | extraOperands (got : Nat)
  | unboundVariable (name : String)
  | unknownFunction (name : String)
  | notCallable (name : String)
  /-- A value that is no string stands where a name is needed. -/
  | notAName (found : ValueType)
  | unsupported (feature : String)
  | unknownKind (kind : String)
  | wrongArity (name : String) (expected got : Nat)
  /-- A call would exceed the limit on active calls. -/
  | tooDeep (limit : Nat)
  | output (cause : IoFault)
  | host (message : String)
  deriving DecidableEq, Repr, Inhabited

def Fault.message : Fault → String
  | missingOperands got =>
    "too few expressions in variable assignment (expected 2, got " ++ got.repr ++ ")"
  | extraOperands got =>
    "too many expressions in variable assignment (expected 2, got " ++ got.repr ++ ")"
  | unboundVariable name => "'" ++ name ++ "' is not a variable"
  | unknownFunction name => "'" ++ name ++ "' is not a function (variable not found)"
  | notCallable name => "'" ++ name ++ "' is not a function"
  | notAName found => "expected a name, found a " ++ found.name
  | unsupported feature => feature ++ " not yet implemented"
  | unknownKind kind => "unknown statement type: " ++ kind
  | wrongArity name expected got =>
    "`" ++ name ++ "` takes exactly " ++ expected.repr ++ " argument(s), got " ++ got.repr
  | tooDeep limit => "maximum call depth exceeded (limit: " ++ limit.repr ++ ")"
  | output cause => "cannot write output: " ++ cause.message
  | host message => message

/-- A fault, with the source of the statement that it arose in once that is known. -/
structure Failure where
  fault : Fault
  statement : Option String := none
  deriving DecidableEq, Repr, Inhabited

namespace Failure

/-- The failure with the statement that it arose in; a statement that is known already stays. -/
def attach (failure : Failure) (source : String) : Failure :=
  { failure with statement := failure.statement <|> some source }

def message (failure : Failure) : String :=
  match failure.statement with
  | none => failure.fault.message
  | some source => failure.fault.message ++ " (in '" ++ source ++ "')"

end Failure

end LineScript
