import LineScript.Environment
import LineScript.Sink

/-!
# Primitives and their services

`Behavior` lists what a primitive can do. The first four behaviors make up the standard library;
the others let a host look at calls, store values, fail, and run source text. `Services` is the
state behind all primitives: the behaviors under their registration numbers, the sink to print to,
and a log.

Registering a primitive gives it a number of its own, which is what tells two primitives of one name
apart. Tables that take up the number where another one stopped have no number in common, so that
this is true of the primitives of several tables as well.
-/

namespace LineScript

inductive Behavior where
  | noop
  /-- Prints its arguments, with spaces between them, and a newline. -/
  | println
  /-- Prints its arguments, with spaces between them. -/
  | print
  /-- Stores the list of all variable names under the name that its argument gives. -/
  | vars
  /-- Logs its arguments as they stand. -/
  | peek
  /-- Logs the values of its arguments. -/
  | record
  /-- Stores a value under each name that an argument gives. -/
  | store (value : Value)
  /-- Fails with a message, and names a statement if one is given. -/
  | fail (message : String) (statement : Option String)
  /-- Counts calls down; a call that leaves none over makes `target` a primitive that does
  nothing. -/
  | countdown (remaining : Nat) (target : String)
  /-- Defines the procedure with the name and the body that its two arguments give. -/
  | define
  /-- Runs the source text that each argument gives, with calls of its own under a limit. -/
  | evaluate (limit : Option Nat)
  deriving Inhabited

inductive LogEntry where
  | peeked (arguments : List Expression)
  | recorded (values : List Value)
  deriving Inhabited

/-- The state behind the primitives. -/
structure Services (δ : Type := Writer) where
  /-- The behavior of each primitive under its registration number. -/
  behaviors : Std.TreeMap Nat Behavior := ∅
  /-- The number of the next registration. -/
  next : Nat := 0
  sink : Sink δ := .buffer ""
  /-- What primitives logged, latest first. -/
  log : List LogEntry := []

namespace Services

variable {δ : Type}

instance : Inhabited (Services δ) := ⟨{}⟩

def register (services : Services δ) (name : String) (behavior : Behavior) :
    Primitive × Services δ :=
  (⟨name, services.next⟩,
    { services with
      behaviors := services.behaviors.insert services.next behavior
      next := services.next + 1 })

/-- Registers a primitive and stores it in the variable of its name. -/
def define (services : Services δ) (env : Environment) (name : String) (behavior : Behavior) :
    Environment × Services δ :=
  match services.register name behavior with
  | (primitive, services) => (env.assign name (.primitive primitive), services)

/-- Registers primitives in order, each in the variable of its name. -/
def defineAll (services : Services δ) (env : Environment) :
    List (String × Behavior) → Environment × Services δ
  | [] => (env, services)
  | (name, behavior) :: rest =>
    match services.define env name behavior with
    | (env, services) => services.defineAll env rest

def standardLibrary : List (String × Behavior) :=
  [("noop", .noop), ("println", .println), ("print", .print), ("vars", .vars)]

def defineStandard (services : Services δ) (env : Environment) : Environment × Services δ :=
  services.defineAll env standardLibrary

end Services

end LineScript
