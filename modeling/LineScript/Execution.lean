import LineScript.Evaluation
import LineScript.Machine
import LineScript.Outcome

/-!
# Execution

Statements run one after the other and the first failure ends the run. `step` executes a single
statement, `sequence` a list of them, and `execute` ties the two together: the body of a
procedure runs like any other list of statements.

A procedure can call itself, so a run need not end. `execute` therefore takes the greatest depth
to which lists of statements may be nested, and a run that goes deeper is `exhausted`. The depth
is no part of the language, unlike the limit on active calls: a run that ends is the same under
every depth that suffices for it.
-/

namespace LineScript

variable {σ : Type}

/-- The environment after an assignment with these expressions. -/
def assignment (expressions : List Expression) (env : Environment) : Except Fault Environment :=
  match expressions with
  | [target, value] => do
    let name ← target.evalTarget env
    let value ← value.eval env
    return env.assign name value
  | expressions =>
    if expressions.length < 2 then .error (.missingOperands expressions.length)
    else .error (.extraOperands expressions.length)

/-- A function that can be called, with the arguments that it gets. -/
inductive Callee where
  | procedure (procedure : Procedure)
  | primitive (primitive : Primitive) (arguments : List Expression)
  deriving DecidableEq, Repr, Inhabited

/-- The function that a call with these expressions enters. -/
def callee (expressions : List Expression) (env : Environment) : Except Fault Callee :=
  match expressions with
  | [] => .error (.unknownFunction "")
  | first :: arguments => do
    let name ← first.evalName env
    match env.get? name with
    | some (.primitive primitive) => return .primitive primitive arguments
    | some (.procedure procedure) => return .procedure procedure
    | some _ => .error (.notCallable name)
    | none => .error (.unknownFunction name)

abbrev Runner (σ : Type) :=
  List Statement → Machine σ → Outcome Failure (Machine σ)

/-- The outcome of a call that a primitive replied to, with `run` for the statements it asks for.
The active calls are not the primitive's to change. -/
def settle (run : Runner σ) (calls : ActiveCalls) : Reply σ → Outcome Failure (Machine σ)
  | .finish (.ok ()) env host => .done ⟨calls, env, host⟩
  | .finish (.error failure) env host => .failed failure ⟨calls, env, host⟩
  | .execute limit statements env host resume =>
    match run statements ⟨.idle limit, env, host⟩ with
    | .done machine => settle run calls (resume (.ok ()) machine.env machine.host)
    | .failed failure machine =>
      settle run calls (resume (.error failure) machine.env machine.host)
    | .exhausted => .exhausted

/-- The outcome of a call of a procedure, with `run` for its body. -/
def enter (run : Runner σ) (procedure : Procedure) (machine : Machine σ) :
    Outcome Failure (Machine σ) :=
  match machine.calls.push procedure.name with
  | .error fault => .failed { fault } machine
  | .ok calls =>
    (run procedure.body { machine with calls }).map fun machine =>
      { machine with calls := machine.calls.pop }

/-- Executes a single statement, with `run` for the bodies of procedures. The failure of the
statement does not name it yet. -/
def step (host : Host σ) (run : Runner σ) (statement : Statement) (machine : Machine σ) :
    Outcome Failure (Machine σ) :=
  match statement.kind with
  | .assignment =>
    match assignment statement.expressions machine.env with
    | .ok env => .done { machine with env }
    | .error fault => .failed { fault } machine
  | .operator => .failed { fault := .unsupported "operators" } machine
  | .call =>
    match callee statement.expressions machine.env with
    | .ok (.primitive primitive arguments) =>
      settle run machine.calls (host primitive arguments machine.env machine.host)
    | .ok (.procedure procedure) => enter run procedure machine
    | .error fault => .failed { fault } machine

/-- Executes statements in order, with `one` for each, up to the first that fails. The failure
names that statement unless it names one further inside. -/
def sequence (one : Statement → Machine σ → Outcome Failure (Machine σ)) : Runner σ
  | [], machine => .done machine
  | statement :: rest, machine =>
    match one statement machine with
    | .done machine => sequence one rest machine
    | .failed failure machine => .failed (failure.attach statement.source) machine
    | .exhausted => .exhausted

/-- Executes statements, where lists of statements are nested at most `depth` deep. -/
def execute (host : Host σ) : (depth : Nat) → Runner σ
  | 0, _, _ => .exhausted
  | depth + 1, statements, machine =>
    sequence (step host (execute host depth)) statements machine

/-- Executes a single statement, where lists of statements are nested at most `depth` deep. -/
def executeStatement (host : Host σ) (depth : Nat) (statement : Statement)
    (machine : Machine σ) : Outcome Failure (Machine σ) :=
  step host (execute host depth) statement machine

end LineScript
