import LineScript.Execution
import Mathlib.Tactic

/-!
# Histories of runs

The history of a run lists what happens in it, in order: which statements are started and which
of them end well, what primitives reply, and which procedures are entered and left. `events`
watches `execute` itself and takes every outcome from it, so a history is that of the run it
stands beside. What a primitive runs with calls of its own is not part of the history.
-/

namespace LineScript.Proofs

variable {σ : Type}

/-- Something that happens during a run: a statement is started in a machine; the primitive that
it called gives its result; a procedure is entered and makes these calls active; a procedure is
left with these calls still active; a statement started in `before` ends well and leaves
`after`. -/
inductive Event (σ : Type) where
  | start (statement : Statement) (machine : Machine σ)
  | reply (result : Except Failure Unit)
  | enter (calls : ActiveCalls)
  | leave (calls : ActiveCalls)
  | finish (statement : Statement) (before after : Machine σ)

abbrev Watcher (σ : Type) :=
  List Statement → Machine σ → List (Event σ)

def replyEvents : Outcome Failure (Machine σ) → List (Event σ)
  | .done _ => [.reply (.ok ())]
  | .failed failure _ => [.reply (.error failure)]
  | .exhausted => []

def leaveEvents : Outcome Failure (Machine σ) → List (Event σ)
  | .done machine => [.leave machine.calls]
  | .failed _ machine => [.leave machine.calls]
  | .exhausted => []

def enterEvents (run : Runner σ) (watch : Watcher σ) (procedure : Procedure)
    (machine : Machine σ) : List (Event σ) :=
  match machine.calls.push procedure.name with
  | .error _ => []
  | .ok calls =>
    .enter calls :: watch procedure.body { machine with calls } ++
      leaveEvents (run procedure.body { machine with calls })

/-- What happens between the start of a statement and its end. -/
def stepEvents (host : Host σ) (run : Runner σ) (watch : Watcher σ) (statement : Statement)
    (machine : Machine σ) : List (Event σ) :=
  match statement.kind with
  | .assignment => []
  | .operator => []
  | .call =>
    match callee statement.expressions machine.env with
    | .ok (.primitive primitive arguments) =>
      replyEvents (settle run machine.calls (host primitive arguments machine.env machine.host))
    | .ok (.procedure procedure) => enterEvents run watch procedure machine
    | .error _ => []

def sequenceEvents (one : Statement → Machine σ → Outcome Failure (Machine σ))
    (watch : Statement → Machine σ → List (Event σ)) : Watcher σ
  | [], _ => []
  | statement :: rest, machine =>
    .start statement machine :: watch statement machine ++
      match one statement machine with
      | .done after => .finish statement machine after :: sequenceEvents one watch rest after
      | .failed _ _ => []
      | .exhausted => []

/-- The history of `execute`. -/
def events (host : Host σ) : (depth : Nat) → Watcher σ
  | 0, _, _ => []
  | depth + 1, statements, machine =>
    sequenceEvents (step host (execute host depth))
      (stepEvents host (execute host depth) (events host depth)) statements machine

/-! ### What a history shows -/

/-- The statements that were started, each with the machine it was started in. -/
def starts (history : List (Event σ)) : List (Statement × Machine σ) :=
  history.filterMap fun event =>
    match event with
    | .start statement machine => some (statement, machine)
    | _ => none

/-- The machine that the last statement to end well left, and `machine` if none has. -/
def settled (machine : Machine σ) : List (Event σ) → Machine σ
  | [] => machine
  | .finish _ _ after :: rest => settled after rest
  | .start _ _ :: rest => settled machine rest
  | .reply _ :: rest => settled machine rest
  | .enter _ :: rest => settled machine rest
  | .leave _ :: rest => settled machine rest

/-- The greatest number of calls that were active at once. -/
def peak : List (Event σ) → Nat
  | [] => 0
  | .enter calls :: rest => max calls.depth (peak rest)
  | .start _ _ :: rest => peak rest
  | .reply _ :: rest => peak rest
  | .leave _ :: rest => peak rest
  | .finish _ _ _ :: rest => peak rest

@[simp] lemma starts_nil : starts ([] : List (Event σ)) = [] := rfl

@[simp] lemma starts_start (statement : Statement) (machine : Machine σ)
    (history : List (Event σ)) :
    starts (.start statement machine :: history) = (statement, machine) :: starts history := rfl

@[simp] lemma starts_reply (result : Except Failure Unit) (history : List (Event σ)) :
    starts (.reply result :: history) = starts history := rfl

@[simp] lemma starts_enter (calls : ActiveCalls) (history : List (Event σ)) :
    starts (.enter calls :: history) = starts history := rfl

@[simp] lemma starts_leave (calls : ActiveCalls) (history : List (Event σ)) :
    starts (.leave calls :: history) = starts history := rfl

@[simp] lemma starts_finish (statement : Statement) (before after : Machine σ)
    (history : List (Event σ)) :
    starts (.finish statement before after :: history) = starts history := rfl

@[simp] lemma starts_append (first second : List (Event σ)) :
    starts (first ++ second) = starts first ++ starts second :=
  List.filterMap_append ..

@[simp] lemma starts_replyEvents (outcome : Outcome Failure (Machine σ)) :
    starts (replyEvents outcome) = [] := by
  cases outcome <;> rfl

lemma settled_append (machine : Machine σ) (first second : List (Event σ)) :
    settled machine (first ++ second) = settled (settled machine first) second := by
  induction first generalizing machine with
  | nil => rfl
  | cons event rest ih =>
    cases event <;> exact ih _

@[simp] lemma settled_replyEvents (machine : Machine σ) (outcome : Outcome Failure (Machine σ)) :
    settled machine (replyEvents outcome) = machine := by
  cases outcome <;> rfl

end LineScript.Proofs
