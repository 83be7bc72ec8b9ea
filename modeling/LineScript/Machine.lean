import LineScript.ActiveCalls
import LineScript.Environment

/-!
# Machines and hosts

A machine is all that a run can change: the active calls, the variables, and the state of the
host. The host supplies the primitives. A primitive gets its argument expressions as they stand;
it replies with a result, or it first asks for statements to be run, against the same variables
but with calls of their own, and goes on from what came of them.
-/

namespace LineScript

/-- The state of a run: the active calls, the variables, and the state `σ` of the host. -/
structure Machine (σ : Type) where
  calls : ActiveCalls
  env : Environment
  host : σ

/-- What a primitive replies to a call. -/
inductive Reply (σ : Type) where
  | finish (result : Except Failure Unit) (env : Environment) (host : σ)
  /-- The statements are to be run with no active calls under `limit`; `resume` goes on from
  their result. -/
  | execute (limit : Option Nat) (statements : List Statement) (env : Environment) (host : σ)
      (resume : Except Failure Unit → Environment → σ → Reply σ)

/-- The primitives of a host: what each replies to a call with these arguments. -/
abbrev Host (σ : Type) :=
  Primitive → List Expression → Environment → σ → Reply σ

end LineScript
