import LineScript.Fault

/-!
# Active calls

The names of the procedures that are being run, with a limit on their number. This is bookkeeping
only: entering a procedure makes no scope for variables.
-/

namespace LineScript

/-- The active calls and how many of them are allowed. -/
structure ActiveCalls where
  /-- The names of the procedures being run, innermost first. -/
  frames : List String := []
  depth : Nat := frames.length
  /-- The greatest number of active calls, if there is one. -/
  limit : Option Nat := none
  /-- The number of active calls is kept rather than counted. -/
  depth_eq : depth = frames.length := by rfl
  deriving DecidableEq, Repr

namespace ActiveCalls

def idle (limit : Option Nat) : ActiveCalls :=
  { limit }

instance : Inhabited ActiveCalls := ⟨idle none⟩

def enter (calls : ActiveCalls) (name : String) : ActiveCalls where
  frames := name :: calls.frames
  depth := calls.depth + 1
  limit := calls.limit
  depth_eq := by simp [calls.depth_eq]

/-- Enters a procedure, unless that would exceed the limit. -/
def push (calls : ActiveCalls) (name : String) : Except Fault ActiveCalls :=
  match calls.limit with
  | some limit =>
    if limit ≤ calls.depth then .error (.tooDeep limit) else .ok (calls.enter name)
  | none => .ok (calls.enter name)

def pop (calls : ActiveCalls) : ActiveCalls where
  frames := calls.frames.tail
  depth := calls.depth - 1
  limit := calls.limit
  depth_eq := by simp [calls.depth_eq]

/-- Leaving a procedure undoes entering it. -/
theorem pop_enter (calls : ActiveCalls) (name : String) : (calls.enter name).pop = calls := by
  cases calls
  simp [enter, pop]

end ActiveCalls

end LineScript
