import LineScript.Execution
import LineScript.Services.Reply
import LineScript.Statement.Listing

/-!
# Sessions

A session keeps variables, primitives and a sink from one run to the next. With `debug` on, the
listing of a program is printed before it runs.
-/

namespace LineScript

/-- Why running a source text failed. -/
inductive RunError where
  | parse (error : ParseError)
  /-- A statement failed, or the listing could not be printed. -/
  | failed (failure : Failure)
  deriving DecidableEq, Repr, Inhabited

def RunError.message : RunError → String
  | parse error => error.message
  | failed failure => failure.message

/-- The state that lasts between runs. -/
structure Session (δ : Type := Writer) where
  calls : ActiveCalls := .idle none
  env : Environment := .empty
  services : Services δ := {}
  debug : Bool := false

namespace Session

variable {δ : Type}

instance : Inhabited (Session δ) := ⟨{}⟩

/-- A session without variables that prints to a sink. Where there is another session already, its
registrations are numbered from the next number of that one on. -/
def new (sink : Sink δ) (next : Nat := 0) : Session δ :=
  { services := { sink, next } }

def define (session : Session δ) (name : String) (behavior : Behavior) : Session δ :=
  match session.services.define session.env name behavior with
  | (env, services) => { session with env, services }

def defineStandard (session : Session δ) : Session δ :=
  match session.services.defineStandard session.env with
  | (env, services) => { session with env, services }

/-- The session in which no call is active and calls are limited anew. -/
def withLimit (session : Session δ) (limit : Option Nat) : Session δ :=
  { session with calls := .idle limit }

/-- Defines a procedure whose body is given as source text. -/
def defineProcedure (session : Session δ) (name body : String) :
    Except ParseError (Session δ) := do
  let body ← Statement.parseAll body
  return { session with env := session.env.assign name (.procedure ⟨name, body⟩) }

/-- The machine that runs the statements of a session. -/
def machine (session : Session δ) : Machine (Services δ) :=
  ⟨session.calls, session.env, session.services⟩

/-- The session after a run that left this machine. -/
def withMachine (session : Session δ) (machine : Machine (Services δ)) : Session δ :=
  { session with calls := machine.calls, env := machine.env, services := machine.host }

variable [Device δ]

def execute (depth : Nat) (statements : List Statement) (session : Session δ) :
    Outcome Failure (Session δ) :=
  (LineScript.execute Services.reply depth statements session.machine).map session.withMachine

/-- Prints the listing of a program if `debug` is on. -/
def printListing (statements : List Statement) (session : Session δ) :
    Outcome Failure (Session δ) :=
  if session.debug then
    match session.services.sink.print (Statement.listAll statements) with
    | (.ok (), sink) => .done { session with services := { session.services with sink } }
    | (.error cause, sink) =>
      .failed { fault := .output cause }
        { session with services := { session.services with sink } }
  else .done session

/-- Reads a source text and runs it. -/
def run (depth : Nat) (source : String) (session : Session δ) : Outcome RunError (Session δ) :=
  match Statement.parseAll source with
  | .error error => .failed (.parse error) session
  | .ok statements =>
    ((session.printListing statements).andThen (execute depth statements)).mapError .failed

end Session

end LineScript
