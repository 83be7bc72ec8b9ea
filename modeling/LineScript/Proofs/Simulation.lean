import LineScript.Execution
import Mathlib.Tactic

/-!
# Runs on hosts that behave alike

A run sees nothing of its host but the replies of primitives. Where two hosts give the same replies
in states that a relation connects, and leave states that it connects again, their runs have the
same outcome, under every depth (`execute_alike`).
-/

namespace LineScript.Proofs

variable {σ τ : Type}

/-- The outcomes are the same up to their final states, which `R` connects. -/
inductive OutcomesAlike {ε α β : Type} (R : α → β → Prop) : Outcome ε α → Outcome ε β → Prop
  | done {first : α} {second : β} (h : R first second) :
      OutcomesAlike R (.done first) (.done second)
  | failed {error : ε} {first : α} {second : β} (h : R first second) :
      OutcomesAlike R (.failed error first) (.failed error second)
  | exhausted : OutcomesAlike R .exhausted .exhausted

/-- The replies are the same up to the states of the hosts, which `R` connects. Where a primitive
asks for statements to be run, it goes on alike from all states that `R` connects. -/
inductive RepliesAlike (R : σ → τ → Prop) : Reply σ → Reply τ → Prop
  | finish {result : Except Failure Unit} {env : Environment} {first : σ} {second : τ}
      (h : R first second) :
      RepliesAlike R (.finish result env first) (.finish result env second)
  | execute {limit : Option Nat} {statements : List Statement} {env : Environment}
      {first : σ} {second : τ} {resume : Except Failure Unit → Environment → σ → Reply σ}
      {resume' : Except Failure Unit → Environment → τ → Reply τ} (h : R first second)
      (hresume : ∀ result env first second, R first second →
        RepliesAlike R (resume result env first) (resume' result env second)) :
      RepliesAlike R (.execute limit statements env first resume)
        (.execute limit statements env second resume')

def HostsAlike (R : σ → τ → Prop) (host : Host σ) (other : Host τ) : Prop :=
  ∀ primitive arguments env first second, R first second →
    RepliesAlike R (host primitive arguments env first) (other primitive arguments env second)

/-- The machines have the same active calls and the same variables. -/
structure MachinesAlike (R : σ → τ → Prop) (first : Machine σ) (second : Machine τ) : Prop where
  calls : second.calls = first.calls
  env : second.env = first.env
  host : R first.host second.host

def RunnersAlike (R : σ → τ → Prop) (run : Runner σ) (other : Runner τ) : Prop :=
  ∀ statements first second, MachinesAlike R first second →
    OutcomesAlike (MachinesAlike R) (run statements first) (other statements second)

/-! ### Outcomes -/

section Outcomes

variable {ε δ α β γ : Type}

lemma OutcomesAlike.mono {R S : α → β → Prop} (hle : ∀ first second, R first second →
      S first second) {outcome : Outcome ε α} {other : Outcome ε β}
    (h : OutcomesAlike R outcome other) : OutcomesAlike S outcome other := by
  cases h with
  | done h => exact .done (hle _ _ h)
  | failed h => exact .failed (hle _ _ h)
  | exhausted => exact .exhausted

lemma OutcomesAlike.mapError {R : α → β → Prop} {outcome : Outcome ε α} {other : Outcome ε β}
    (h : OutcomesAlike R outcome other) (f : ε → δ) :
    OutcomesAlike R (outcome.mapError f) (other.mapError f) := by
  cases h with
  | done h => exact .done h
  | failed h => exact .failed h
  | exhausted => exact .exhausted

lemma OutcomesAlike.map {α' β' : Type} {R : α → β → Prop} {S : α' → β' → Prop} {f : α → α'}
    {g : β → β'} (hmap : ∀ first second, R first second → S (f first) (g second))
    {outcome : Outcome ε α} {other : Outcome ε β} (h : OutcomesAlike R outcome other) :
    OutcomesAlike S (outcome.map f) (other.map g) := by
  cases h with
  | done h => exact .done (hmap _ _ h)
  | failed h => exact .failed (hmap _ _ h)
  | exhausted => exact .exhausted

/-- Two outcomes that are like a third one are like each other. -/
lemma OutcomesAlike.through {R : γ → α → Prop} {S : γ → β → Prop} {middle : Outcome ε γ}
    {outcome : Outcome ε α} {other : Outcome ε β} (hfirst : OutcomesAlike R middle outcome)
    (hsecond : OutcomesAlike S middle other) :
    OutcomesAlike (fun first second => ∃ state, R state first ∧ S state second) outcome other := by
  cases hfirst with
  | done h =>
    cases hsecond with
    | done h' => exact .done ⟨_, h, h'⟩
  | failed h =>
    cases hsecond with
    | failed h' => exact .failed ⟨_, h, h'⟩
  | exhausted =>
    cases hsecond with
    | exhausted => exact .exhausted

/-- If `R` lets the second state be computed from the first, so can the second outcome. -/
lemma OutcomesAlike.eq_map {R : α → β → Prop} {f : α → β}
    (hfun : ∀ first second, R first second → second = f first) {outcome : Outcome ε α}
    {other : Outcome ε β} (h : OutcomesAlike R outcome other) : other = outcome.map f := by
  cases h with
  | done h => rw [hfun _ _ h, Outcome.map]
  | failed h => rw [hfun _ _ h, Outcome.map]
  | exhausted => rfl

end Outcomes

/-! ### Runs -/

lemma settle_alike {R : σ → τ → Prop} {run : Runner σ} {other : Runner τ}
    (hrun : RunnersAlike R run other) (calls : ActiveCalls) {reply : Reply σ} {reply' : Reply τ}
    (hreply : RepliesAlike R reply reply') :
    OutcomesAlike (MachinesAlike R) (settle run calls reply) (settle other calls reply') := by
  induction hreply with
  | @finish result env first second h =>
    cases result with
    | ok value => exact .done ⟨rfl, rfl, h⟩
    | error failure => exact .failed ⟨rfl, rfl, h⟩
  | @execute limit statements env first second resume resume' h _ ih =>
    have hinner := hrun statements ⟨.idle limit, env, first⟩ ⟨.idle limit, env, second⟩
      ⟨rfl, rfl, h⟩
    simp only [settle]
    generalize run statements ⟨.idle limit, env, first⟩ = outcome at hinner ⊢
    generalize other statements ⟨.idle limit, env, second⟩ = outcome' at hinner ⊢
    cases hinner with
    | done hafter =>
      simp only [hafter.env]
      exact ih _ _ _ _ hafter.host
    | failed hafter =>
      simp only [hafter.env]
      exact ih _ _ _ _ hafter.host
    | exhausted => exact .exhausted

lemma enter_alike {R : σ → τ → Prop} {run : Runner σ} {other : Runner τ}
    (hrun : RunnersAlike R run other) (procedure : Procedure) {first : Machine σ}
    {second : Machine τ} (h : MachinesAlike R first second) :
    OutcomesAlike (MachinesAlike R) (enter run procedure first)
      (enter other procedure second) := by
  simp only [enter, h.calls]
  cases first.calls.push procedure.name with
  | error fault => exact .failed h
  | ok calls =>
    have hbody := hrun procedure.body { first with calls } { second with calls }
      ⟨rfl, h.env, h.host⟩
    refine hbody.map fun after after' hafter => ?_
    exact ⟨congrArg ActiveCalls.pop hafter.calls, hafter.env, hafter.host⟩

lemma step_alike {R : σ → τ → Prop} {host : Host σ} {host' : Host τ}
    (hhosts : HostsAlike R host host') {run : Runner σ} {other : Runner τ}
    (hrun : RunnersAlike R run other) (statement : Statement) {first : Machine σ}
    {second : Machine τ} (h : MachinesAlike R first second) :
    OutcomesAlike (MachinesAlike R) (step host run statement first)
      (step host' other statement second) := by
  simp only [step, h.env]
  cases statement.kind with
  | assignment =>
    cases assignment statement.expressions first.env with
    | ok env => exact .done ⟨h.calls, rfl, h.host⟩
    | error fault => exact .failed h
  | operator => exact .failed h
  | call =>
    cases callee statement.expressions first.env with
    | error fault => exact .failed h
    | ok callee =>
      cases callee with
      | procedure procedure => exact enter_alike hrun procedure h
      | primitive primitive arguments =>
        rw [h.calls]
        exact settle_alike hrun first.calls (hhosts primitive arguments first.env _ _ h.host)

lemma sequence_alike {R : σ → τ → Prop} {one : Statement → Machine σ → Outcome Failure (Machine σ)}
    {one' : Statement → Machine τ → Outcome Failure (Machine τ)}
    (hone : ∀ statement first second, MachinesAlike R first second →
      OutcomesAlike (MachinesAlike R) (one statement first) (one' statement second)) :
    RunnersAlike R (sequence one) (sequence one') := by
  intro statements
  induction statements with
  | nil =>
    intro first second h
    exact .done h
  | cons statement rest ih =>
    intro first second h
    have hstep := hone statement first second h
    simp only [sequence]
    generalize one statement first = outcome at hstep ⊢
    generalize one' statement second = outcome' at hstep ⊢
    cases hstep with
    | done hafter => exact ih _ _ hafter
    | failed hafter => exact .failed hafter
    | exhausted => exact .exhausted

/-- Hosts that behave alike run every program alike. -/
theorem execute_alike {R : σ → τ → Prop} {host : Host σ} {host' : Host τ}
    (hhosts : HostsAlike R host host') (depth : Nat) :
    RunnersAlike R (execute host depth) (execute host' depth) := by
  induction depth with
  | zero =>
    intro statements first second _
    exact .exhausted
  | succ depth ih =>
    exact sequence_alike fun statement first second h => step_alike hhosts ih statement h

end LineScript.Proofs
