/-!
# Outcomes

A computation ends well, or fails and leaves a state behind all the same, or is broken off because
it needs more than the depth that it was given.
-/

namespace LineScript

/-- What came of a computation on states of type `τ`. -/
inductive Outcome (ε τ : Type) where
  | done (state : τ)
  /-- It failed, and left a state behind. -/
  | failed (error : ε) (state : τ)
  /-- It was broken off, and nothing is known of it. -/
  | exhausted
  deriving DecidableEq, Repr, Inhabited

namespace Outcome

variable {ε τ υ : Type}

def map (f : τ → υ) : Outcome ε τ → Outcome ε υ
  | done state => done (f state)
  | failed error state => failed error (f state)
  | exhausted => exhausted

def mapError {δ : Type} (f : ε → δ) : Outcome ε τ → Outcome δ τ
  | done state => done state
  | failed error state => failed (f error) state
  | exhausted => exhausted

/-- The outcome of a computation followed, if it ends well, by another one. -/
def andThen (outcome : Outcome ε τ) (next : τ → Outcome ε τ) : Outcome ε τ :=
  match outcome with
  | done state => next state
  | failed error state => failed error state
  | exhausted => exhausted

end Outcome

end LineScript
