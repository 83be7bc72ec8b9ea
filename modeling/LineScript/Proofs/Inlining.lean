import LineScript.Proofs.FailureSite

/-!
# A call is its body

Without a limit on active calls, a call of a procedure means the statements of its body, spliced
in where the call stands. Three facts make this up: a list of statements runs as its parts do, the
calls that are active do not matter to a body (`EndsIn.move`), and the failure of a body names a
statement already, so that the call does not attach its own.
-/

namespace LineScript.Proofs

variable {σ : Type}

/-! ### Lists run as their parts do -/

lemma sequence_append (one : Statement → Machine σ → Outcome Failure (Machine σ))
    (first second : List Statement) (machine : Machine σ) :
    sequence one (first ++ second) machine =
      (sequence one first machine).andThen (sequence one second) := by
  induction first generalizing machine with
  | nil => rfl
  | cons statement rest ih =>
    simp only [List.cons_append, sequence]
    cases one statement machine with
    | done after => exact ih after
    | failed failure after => rfl
    | exhausted => rfl

lemma execute_append (host : Host σ) (depth : Nat) (first second : List Statement)
    (machine : Machine σ) :
    execute host depth (first ++ second) machine =
      (execute host depth first machine).andThen (execute host depth second) := by
  cases depth with
  | zero => rfl
  | succ depth => exact sequence_append _ first second machine

/-- Two lists in a row end as the second does after the first, or as the first fails. -/
theorem endsIn_append_iff (host : Host σ) (first second : List Statement) (machine : Machine σ)
    (outcome : Outcome Failure (Machine σ)) :
    EndsIn host (first ++ second) machine outcome ↔
      (∃ after, EndsIn host first machine (.done after) ∧ EndsIn host second after outcome) ∨
      (∃ failure after, EndsIn host first machine (.failed failure after) ∧
        outcome = .failed failure after) := by
  constructor
  · rintro ⟨hne, depth, rfl⟩
    rw [execute_append] at hne ⊢
    cases hfirst : execute host depth first machine with
    | done after =>
      simp only [hfirst, Outcome.andThen] at hne
      exact .inl ⟨after, ⟨by simp, depth, hfirst⟩, hne, depth, rfl⟩
    | failed failure after => exact .inr ⟨failure, after, ⟨by simp, depth, hfirst⟩, rfl⟩
    | exhausted => exact absurd (by rw [hfirst]; rfl) hne
  · rintro (⟨after, hfirst, hsecond⟩ | ⟨failure, after, hfirst, rfl⟩)
    · obtain ⟨d, hfirst'⟩ := hfirst.from_depth
      obtain ⟨e, hsecond'⟩ := hsecond.from_depth
      refine ⟨hsecond.1, max d e, ?_⟩
      rw [execute_append, hfirst' _ (by omega)]
      exact hsecond' _ (by omega)
    · obtain ⟨-, depth, hfirst'⟩ := hfirst
      refine ⟨by simp, depth, ?_⟩
      rw [execute_append, hfirst']
      rfl

/-! ### Calls without a limit -/

lemma push_of_unlimited {calls : ActiveCalls} (hlimit : calls.limit = none) (name : String) :
    calls.push name = .ok (calls.enter name) :=
  (push_eq_ok_iff _ _ _).2 ⟨rfl, by simp [hlimit]⟩

/-- A run without a limit is the same whatever calls are active. -/
lemma EndsIn.move {host : Host σ} {statements : List Statement} {machine : Machine σ}
    {outcome : Outcome Failure (Machine σ)} (hends : EndsIn host statements machine outcome)
    (hlimit : machine.calls.limit = none) {calls : ActiveCalls} (hcalls : calls.limit = none) :
    EndsIn host statements (withCalls calls machine) (outcome.map (withCalls calls)) := by
  obtain ⟨history, hrun⟩ := (endsIn_iff_run _ _ _ _).1 hends
  exact hrun.move (.inl hlimit) calls (fits_of_limit_eq_none hcalls history)

/-- A list of statements that fails names a statement. -/
lemma EndsIn.statement_isSome {host : Host σ} {statements : List Statement}
    {machine after : Machine σ} {failure : Failure}
    (hends : EndsIn host statements machine (.failed failure after)) :
    failure.statement.isSome := by
  obtain ⟨history, hrun⟩ := (endsIn_iff_run _ _ _ _).1 hends
  obtain ⟨site, hsite⟩ := hrun.exists_failureSite
  rw [hsite.failure_eq]
  exact attach_isSome _ _

/-- How a call that is let in ends: as its body and then the rest, or as its body fails. -/
theorem endsIn_call_iff (host : Host σ) {call : Statement} {procedure : Procedure}
    (post : List Statement) {machine : Machine σ} (henters : Enters call machine.env procedure)
    (hpush : machine.calls.push procedure.name = .ok (machine.calls.enter procedure.name))
    (outcome : Outcome Failure (Machine σ)) :
    EndsIn host (call :: post) machine outcome ↔
      (∃ after, EndsIn host procedure.body
          (withCalls (machine.calls.enter procedure.name) machine) (.done after) ∧
        EndsIn host post (withCalls machine.calls after) outcome) ∨
      (∃ failure after, EndsIn host procedure.body
          (withCalls (machine.calls.enter procedure.name) machine) (.failed failure after) ∧
        outcome = .failed failure (withCalls machine.calls after)) := by
  constructor
  · rintro ⟨hne, depth, rfl⟩
    cases depth with
    | zero => exact absurd rfl hne
    | succ depth =>
      simp only [execute, sequence, step_of_enters henters, enter, hpush] at hne ⊢
      cases hbody : execute host depth procedure.body
          { machine with calls := machine.calls.enter procedure.name } with
      | done after =>
        have hends : EndsIn host procedure.body
            (withCalls (machine.calls.enter procedure.name) machine) (.done after) :=
          ⟨by simp, depth, hbody⟩
        have hcalls : after.calls = machine.calls.enter procedure.name := hends.leaves
        simp only [hbody, Outcome.map, hcalls, ActiveCalls.pop_enter] at hne ⊢
        exact .inl ⟨after, hends, hne, depth + 1, rfl⟩
      | failed failure after =>
        have hends : EndsIn host procedure.body
            (withCalls (machine.calls.enter procedure.name) machine) (.failed failure after) :=
          ⟨by simp, depth, hbody⟩
        have hcalls : after.calls = machine.calls.enter procedure.name := hends.leaves
        refine .inr ⟨failure, after, hends, ?_⟩
        simp only [Outcome.map, hcalls, ActiveCalls.pop_enter,
          attach_of_isSome hends.statement_isSome, withCalls]
      | exhausted => simp [hbody, Outcome.map] at hne
  · rintro (⟨after, hbody, hpost⟩ | ⟨failure, after, hbody, rfl⟩)
    · exact .enter henters hpush hbody hpost
    · have hends : EndsIn host (call :: post) machine _ := .enterFail henters hpush hbody
      rwa [attach_of_isSome hbody.statement_isSome] at hends

lemma enters_of_bound {call : Statement} {first : Expression} {arguments : List Expression}
    {env : Environment} {name : String} {procedure : Procedure} (hkind : call.kind = .call)
    (hexpressions : call.expressions = first :: arguments) (hname : first.evalName env = .ok name)
    (hbound : env.get? name = some (.procedure procedure)) : Enters call env procedure := by
  refine ⟨hkind, ?_⟩
  simp only [hexpressions, callee, hname, Bind.bind, Except.bind, hbound, Pure.pure, Except.pure]

/-- Without a limit, a call and its body spliced in end in the same outcomes. -/
lemma endsIn_call_iff_body (host : Host σ) {call : Statement} {procedure : Procedure}
    (post : List Statement) {machine : Machine σ} (henters : Enters call machine.env procedure)
    (hlimit : machine.calls.limit = none) (outcome : Outcome Failure (Machine σ)) :
    EndsIn host (call :: post) machine outcome ↔
      EndsIn host (procedure.body ++ post) machine outcome := by
  have hlimit' : (machine.calls.enter procedure.name).limit = none := hlimit
  rw [endsIn_call_iff host post henters (push_of_unlimited hlimit _), endsIn_append_iff]
  constructor
  · rintro (⟨after, hbody, hpost⟩ | ⟨failure, after, hbody, rfl⟩)
    · exact .inl ⟨withCalls machine.calls after, hbody.move hlimit' hlimit, hpost⟩
    · exact .inr ⟨failure, withCalls machine.calls after, hbody.move hlimit' hlimit, rfl⟩
  · rintro (⟨after, hbody, hpost⟩ | ⟨failure, after, hbody, rfl⟩)
    · have hcalls : after.calls = machine.calls := hbody.leaves
      refine .inl ⟨_, hbody.move hlimit hlimit', ?_⟩
      rwa [← hcalls]
    · have hcalls : after.calls = machine.calls := hbody.leaves
      refine .inr ⟨failure, _, hbody.move hlimit hlimit', ?_⟩
      rw [← hcalls]
      rfl

/-- Without a limit on active calls, a call of a procedure and the body of the procedure in its
place both diverge, or end in the same way: with the same result, the same variables, and the same
state of the host. The arguments of the call do not matter, nor what the body does to the variable
that it was called through. -/
theorem call_means_body (host : Host σ) (call : Statement) (first : Expression)
    (arguments : List Expression) (name : String) (procedure : Procedure) (post : List Statement)
    (machine : Machine σ) (hlimit : machine.calls.limit = none) (hkind : call.kind = .call)
    (hexpressions : call.expressions = first :: arguments)
    (hname : first.evalName machine.env = .ok name)
    (hbound : machine.env.get? name = some (.procedure procedure)) :
    (Diverges host (call :: post) machine ∧ Diverges host (procedure.body ++ post) machine) ∨
    ∃ outcome, EndsIn host (call :: post) machine outcome ∧
      EndsIn host (procedure.body ++ post) machine outcome := by
  have henters := enters_of_bound hkind hexpressions hname hbound
  have hiff := endsIn_call_iff_body host post henters hlimit
  rcases diverges_or_endsIn host (call :: post) machine with hcall | ⟨outcome, hcall⟩
  · rcases diverges_or_endsIn host (procedure.body ++ post) machine with hbody | ⟨outcome, hbody⟩
    · exact .inl ⟨hcall, hbody⟩
    · exact .inr ⟨outcome, (hiff outcome).2 hbody, hbody⟩
  · exact .inr ⟨outcome, hcall, (hiff outcome).1 hcall⟩

/-- A procedure that overwrites the variable that holds it, and then calls it. -/
def overwriting : Procedure :=
  ⟨"f", [⟨.assignment, "var f x", [.literal "f" "f", .literal "x" "x"]⟩, callOf "f"]⟩

def overwritingMachine : Machine Services :=
  ⟨.idle none, Environment.empty.assign "f" (.procedure overwriting), {}⟩

def overwritingCall : Statement :=
  ⟨.call, "f $y", [.literal "f" "f", .reference "$y" "y"]⟩

theorem call_means_body_overwriting :
    (∃ final, EndsIn Services.reply [overwritingCall, callOf "g"] overwritingMachine
      (.failed ⟨.notCallable "f", some "f"⟩ final)) ∧
    ((Diverges Services.reply [overwritingCall, callOf "g"] overwritingMachine ∧
      Diverges Services.reply (overwriting.body ++ [callOf "g"]) overwritingMachine) ∨
    ∃ outcome, EndsIn Services.reply [overwritingCall, callOf "g"] overwritingMachine outcome ∧
      EndsIn Services.reply (overwriting.body ++ [callOf "g"]) overwritingMachine outcome) :=
  ⟨⟨_, nofun, 2, rfl⟩, call_means_body Services.reply overwritingCall (.literal "f" "f")
    [.reference "$y" "y"] "f" overwriting [callOf "g"] overwritingMachine rfl rfl rfl rfl rfl⟩

end LineScript.Proofs
