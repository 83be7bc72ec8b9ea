import LineScript.Evaluation
import LineScript.Machine
import LineScript.Services
import LineScript.Statement.Parser

/-!
# Replies of primitives

What each behavior replies to a call. `Services.reply` is the host that programs run on.
-/

namespace LineScript.Services

variable {δ : Type}

def succeed (env : Environment) (services : Services δ) : Reply (Services δ) :=
  .finish (.ok ()) env services

def refuse (fault : Fault) (env : Environment) (services : Services δ) : Reply (Services δ) :=
  .finish (.error { fault }) env services

/-- The texts of the values of the arguments, with a space between each two. -/
def joined (arguments : List Expression) (env : Environment) : Except Fault String := do
  let values ← Expression.evalAll env arguments
  return " ".intercalate (values.map Value.display)

/-- Hands the joined arguments to the sink by way of `deliver`. -/
def emit (deliver : Sink δ → String → Attempt (Sink δ)) (arguments : List Expression)
    (env : Environment) (services : Services δ) : Reply (Services δ) :=
  match joined arguments env with
  | .error fault => refuse fault env services
  | .ok text =>
    match deliver services.sink text with
    | (.ok (), sink) => succeed env { services with sink }
    | (.error cause, sink) => refuse (.output cause) env { services with sink }

/-- The list of all variable names, as a positional mapping. -/
def nameList (env : Environment) : Value :=
  .mapping (OrderedMap.ofList (env.names.map Value.string))

/-- Stores the list of all variable names. It is taken before the store, so a new target is not
in its own list. -/
def storeNames (arguments : List Expression) (env : Environment) : Except Fault Environment :=
  match arguments with
  | [target] => do
    let name ← target.evalName env
    return env.assign name (nameList env)
  | _ => .error (.wrongArity "vars" 1 arguments.length)

/-- Stores a value under the name that each argument gives, up to the first that gives none. -/
def storeAll (value : Value) (services : Services δ) :
    List Expression → Environment → Reply (Services δ)
  | [], env => succeed env services
  | argument :: rest, env =>
    match argument.evalName env with
    | .ok name => storeAll value services rest (env.assign name value)
    | .error fault => refuse fault env services

/-- Defines a procedure from the name and the body that two arguments give. -/
def defineProcedure (arguments : List Expression) (env : Environment) :
    Except Fault Environment :=
  match arguments with
  | [first, second] => do
    let name ← first.evalName env
    let source ← second.evalName env
    match Statement.parseAll source with
    | .ok body => return env.assign name (.procedure ⟨name, body⟩)
    | .error error => .error (.host error.message)
  | _ => .error (.wrongArity "def" 2 arguments.length)

/-- Asks for the source text that each argument gives to be run, up to the first that fails. -/
def evaluateAll (limit : Option Nat) :
    List Expression → Environment → Services δ → Reply (Services δ)
  | [], env, services => succeed env services
  | argument :: rest, env, services =>
    match argument.evalName env with
    | .error fault => refuse fault env services
    | .ok source =>
      match Statement.parseAll source with
      | .error error => refuse (.host error.message) env services
      | .ok statements =>
        .execute limit statements env services fun result env services =>
          match result with
          | .ok () => evaluateAll limit rest env services
          | .error failure => .finish (.error failure) env services

/-- Lowers the count of a countdown, and at the end of it makes `target` a primitive that does
nothing. -/
def countDown (id remaining : Nat) (target : String) (env : Environment) (services : Services δ) :
    Reply (Services δ) :=
  let left := remaining - 1
  let counted := { services with
    behaviors := services.behaviors.insert id (.countdown left target) }
  if left = 0 then
    match counted.define env target .noop with
    | (env, services) => succeed env services
  else succeed env counted

/-- The reply of a behavior that only changes the variables. -/
def update (result : Except Fault Environment) (env : Environment) (services : Services δ) :
    Reply (Services δ) :=
  match result with
  | .ok env => succeed env services
  | .error fault => refuse fault env services

variable [Device δ]

/-- The reply of the primitive with registration number `id` and this behavior. -/
def respond (id : Nat) (behavior : Behavior) (arguments : List Expression) (env : Environment)
    (services : Services δ) : Reply (Services δ) :=
  match behavior with
  | .noop => succeed env services
  | .println => emit Sink.println arguments env services
  | .print => emit Sink.print arguments env services
  | .vars => update (storeNames arguments env) env services
  | .peek => succeed env { services with log := .peeked arguments :: services.log }
  | .record =>
    match Expression.evalAll env arguments with
    | .ok values => succeed env { services with log := .recorded values :: services.log }
    | .error fault => refuse fault env services
  | .store value => storeAll value services arguments env
  | .fail message statement =>
    .finish (.error ⟨.host message, statement⟩) env services
  | .countdown remaining target => countDown id remaining target env services
  | .define => update (defineProcedure arguments env) env services
  | .evaluate limit => evaluateAll limit arguments env services

/-- The host whose primitives are those registered with it. A primitive that is not registered
does nothing. -/
def reply : Host (Services δ) := fun primitive arguments env services =>
  match services.behaviors[primitive.id]? with
  | some behavior => respond primitive.id behavior arguments env services
  | none => succeed env services

end LineScript.Services
