import LineScript.Proofs.History

/-!
# Runs that end

A run that ends under one depth ends in the same way under every greater depth, so that
`EndsIn` speaks of the outcome of a run and of no depth. `Run` gives the rules by which runs end,
with their histories: one rule for the empty list, two for a statement that runs no body (`Act`),
and two for a call whose body is run. `endsIn_iff_run` says that the rules describe `execute`.
-/

namespace LineScript.Proofs

variable {σ : Type}

/-! ### Independence of the depth -/

/-- `larger` ends wherever `smaller` does, and in the same way. -/
def Extends (smaller larger : Runner σ) : Prop :=
  ∀ statements machine, smaller statements machine ≠ .exhausted →
    larger statements machine = smaller statements machine

lemma settle_extends {smaller larger : Runner σ} (hext : Extends smaller larger)
    (calls : ActiveCalls) (reply : Reply σ) (h : settle smaller calls reply ≠ .exhausted) :
    settle larger calls reply = settle smaller calls reply := by
  induction reply with
  | finish result env host =>
    cases result <;> rfl
  | execute limit statements env host resume ih =>
    have hrun : smaller statements ⟨.idle limit, env, host⟩ ≠ .exhausted := by
      intro he
      simp [settle, he] at h
    simp only [settle, hext _ _ hrun] at h ⊢
    cases hout : smaller statements ⟨.idle limit, env, host⟩ with
    | done machine =>
      simp only [hout] at h
      exact ih _ _ _ h
    | failed failure machine =>
      simp only [hout] at h
      exact ih _ _ _ h
    | exhausted => rfl

lemma enter_extends {smaller larger : Runner σ} (hext : Extends smaller larger)
    (procedure : Procedure) (machine : Machine σ)
    (h : enter smaller procedure machine ≠ .exhausted) :
    enter larger procedure machine = enter smaller procedure machine := by
  unfold enter at h ⊢
  cases hpush : machine.calls.push procedure.name with
  | error fault => rfl
  | ok calls =>
    simp only [hpush] at h ⊢
    have hrun : smaller procedure.body { machine with calls } ≠ .exhausted := by
      intro he
      simp [he, Outcome.map] at h
    rw [hext _ _ hrun]

lemma step_extends (host : Host σ) {smaller larger : Runner σ} (hext : Extends smaller larger)
    (statement : Statement) (machine : Machine σ)
    (h : step host smaller statement machine ≠ .exhausted) :
    step host larger statement machine = step host smaller statement machine := by
  unfold step at h ⊢
  cases hkind : statement.kind with
  | assignment => rfl
  | operator => rfl
  | call =>
    simp only [hkind] at h ⊢
    cases hcallee : callee statement.expressions machine.env with
    | error fault => rfl
    | ok callee =>
      simp only [hcallee] at h ⊢
      cases callee with
      | procedure procedure => exact enter_extends hext procedure machine h
      | primitive primitive arguments => exact settle_extends hext _ _ h

lemma sequence_extends {smaller larger : Statement → Machine σ → Outcome Failure (Machine σ)}
    (hext : ∀ statement machine, smaller statement machine ≠ .exhausted →
      larger statement machine = smaller statement machine) :
    Extends (sequence smaller) (sequence larger) := by
  intro statements
  induction statements with
  | nil =>
    intro machine _
    rfl
  | cons statement rest ih =>
    intro machine h
    have hone : smaller statement machine ≠ .exhausted := by
      intro he
      simp [sequence, he] at h
    simp only [sequence, hext _ _ hone] at h ⊢
    cases hout : smaller statement machine with
    | done after =>
      simp only [hout] at h
      exact ih after h
    | failed failure after => rfl
    | exhausted => rfl

/-- A run that ends under one depth ends in the same way under every greater depth. -/
theorem execute_extends (host : Host σ) {depth larger : Nat} (hle : depth ≤ larger) :
    Extends (execute host depth) (execute host larger) := by
  induction depth generalizing larger with
  | zero =>
    intro statements machine h
    exact absurd rfl h
  | succ depth ih =>
    obtain ⟨larger, rfl⟩ : ∃ k, larger = k + 1 := ⟨larger - 1, by omega⟩
    exact sequence_extends (step_extends host (ih (by omega)))

/-- The run of the statements ends with this outcome. -/
def EndsIn (host : Host σ) (statements : List Statement) (machine : Machine σ)
    (outcome : Outcome Failure (Machine σ)) : Prop :=
  outcome ≠ .exhausted ∧ ∃ depth, execute host depth statements machine = outcome

/-- The run of the statements does not end. -/
def Diverges (host : Host σ) (statements : List Statement) (machine : Machine σ) : Prop :=
  ∀ depth, execute host depth statements machine = .exhausted

lemma endsIn_execute {host : Host σ} {depth : Nat} {statements : List Statement}
    {machine : Machine σ} (h : execute host depth statements machine ≠ .exhausted) :
    EndsIn host statements machine (execute host depth statements machine) :=
  ⟨h, depth, rfl⟩

lemma diverges_or_endsIn (host : Host σ) (statements : List Statement) (machine : Machine σ) :
    Diverges host statements machine ∨ ∃ outcome, EndsIn host statements machine outcome := by
  by_cases h : Diverges host statements machine
  · exact .inl h
  · unfold Diverges at h
    push Not at h
    obtain ⟨depth, hdepth⟩ := h
    exact .inr ⟨_, endsIn_execute hdepth⟩

/-- Under every depth from some depth on, a run that ends has its outcome. -/
lemma EndsIn.from_depth {host : Host σ} {statements : List Statement} {machine : Machine σ}
    {outcome : Outcome Failure (Machine σ)} (h : EndsIn host statements machine outcome) :
    ∃ depth, ∀ larger, depth ≤ larger → execute host larger statements machine = outcome := by
  obtain ⟨hne, depth, rfl⟩ := h
  exact ⟨depth, fun larger hle => execute_extends host hle _ _ hne⟩

/-! ### Rules of runs that end -/

/-- The statement calls this procedure. -/
def Enters (statement : Statement) (env : Environment) (procedure : Procedure) : Prop :=
  statement.kind = .call ∧ callee statement.expressions env = .ok (.procedure procedure)

/-- How a statement ends that runs no body, with what is seen of it. A primitive counts as one
action, whatever it runs with calls of its own. -/
inductive Act (host : Host σ) (statement : Statement) (machine : Machine σ) :
    List (Event σ) → Outcome Failure (Machine σ) → Prop
  | assign {env : Environment} (hkind : statement.kind = .assignment)
      (hassign : assignment statement.expressions machine.env = .ok env) :
      Act host statement machine [] (.done { machine with env })
  | misassign {fault : Fault} (hkind : statement.kind = .assignment)
      (hassign : assignment statement.expressions machine.env = .error fault) :
      Act host statement machine [] (.failed { fault } machine)
  | operator (hkind : statement.kind = .operator) :
      Act host statement machine [] (.failed { fault := .unsupported "operators" } machine)
  | uncallable {fault : Fault} (hkind : statement.kind = .call)
      (hcallee : callee statement.expressions machine.env = .error fault) :
      Act host statement machine [] (.failed { fault } machine)
  | refuse {procedure : Procedure} {fault : Fault}
      (henters : Enters statement machine.env procedure)
      (hpush : machine.calls.push procedure.name = .error fault) :
      Act host statement machine [] (.failed { fault } machine)
  | primitive {primitive : Primitive} {arguments : List Expression} {depth : Nat}
      {outcome : Outcome Failure (Machine σ)} (hkind : statement.kind = .call)
      (hcallee : callee statement.expressions machine.env = .ok (.primitive primitive arguments))
      (hsettle : settle (execute host depth) machine.calls
        (host primitive arguments machine.env machine.host) = outcome)
      (hends : outcome ≠ .exhausted) :
      Act host statement machine (replyEvents outcome) outcome

/-- How a list of statements ends, with its history. -/
inductive Run (host : Host σ) : List Statement → Machine σ → List (Event σ) →
    Outcome Failure (Machine σ) → Prop
  | nil {machine : Machine σ} : Run host [] machine [] (.done machine)
  | act {statement : Statement} {rest : List Statement} {machine after : Machine σ}
      {seen history : List (Event σ)} {outcome : Outcome Failure (Machine σ)}
      (hact : Act host statement machine seen (.done after))
      (htail : Run host rest after history outcome) :
      Run host (statement :: rest) machine
        (.start statement machine :: seen ++ .finish statement machine after :: history) outcome
  | actFail {statement : Statement} {rest : List Statement} {machine after : Machine σ}
      {seen : List (Event σ)} {failure : Failure}
      (hact : Act host statement machine seen (.failed failure after)) :
      Run host (statement :: rest) machine (.start statement machine :: seen)
        (.failed (failure.attach statement.source) after)
  | call {statement : Statement} {rest : List Statement} {machine after : Machine σ}
      {procedure : Procedure} {calls : ActiveCalls} {inner history : List (Event σ)}
      {outcome : Outcome Failure (Machine σ)}
      (henters : Enters statement machine.env procedure)
      (hpush : machine.calls.push procedure.name = .ok calls)
      (hbody : Run host procedure.body { machine with calls } inner (.done after))
      (htail : Run host rest { after with calls := after.calls.pop } history outcome) :
      Run host (statement :: rest) machine
        (.start statement machine :: .enter calls :: inner ++ .leave after.calls ::
          .finish statement machine { after with calls := after.calls.pop } :: history) outcome
  | callFail {statement : Statement} {rest : List Statement} {machine after : Machine σ}
      {procedure : Procedure} {calls : ActiveCalls} {inner : List (Event σ)} {failure : Failure}
      (henters : Enters statement machine.env procedure)
      (hpush : machine.calls.push procedure.name = .ok calls)
      (hbody : Run host procedure.body { machine with calls } inner (.failed failure after)) :
      Run host (statement :: rest) machine
        (.start statement machine :: .enter calls :: inner ++ [.leave after.calls])
        (.failed (failure.attach statement.source) { after with calls := after.calls.pop })

lemma step_of_enters {host : Host σ} {run : Runner σ} {statement : Statement}
    {machine : Machine σ} {procedure : Procedure}
    (h : Enters statement machine.env procedure) :
    step host run statement machine = enter run procedure machine := by
  simp only [step, h.1, h.2]

lemma stepEvents_of_enters {host : Host σ} {run : Runner σ} {watch : Watcher σ}
    {statement : Statement} {machine : Machine σ} {procedure : Procedure}
    (h : Enters statement machine.env procedure) :
    stepEvents host run watch statement machine = enterEvents run watch procedure machine := by
  simp only [stepEvents, h.1, h.2]

/-- A step that ends is an action, unless it runs a body. -/
lemma act_or_enters (host : Host σ) (depth : Nat) (watch : Watcher σ) (statement : Statement)
    (machine : Machine σ) (h : step host (execute host depth) statement machine ≠ .exhausted) :
    Act host statement machine (stepEvents host (execute host depth) watch statement machine)
        (step host (execute host depth) statement machine) ∨
      ∃ procedure calls, Enters statement machine.env procedure ∧
        machine.calls.push procedure.name = .ok calls := by
  cases hkind : statement.kind with
  | assignment =>
    left
    cases hassign : assignment statement.expressions machine.env with
    | ok env => simpa only [step, stepEvents, hkind, hassign] using Act.assign hkind hassign
    | error fault => simpa only [step, stepEvents, hkind, hassign] using Act.misassign hkind hassign
  | operator =>
    left
    simpa only [step, stepEvents, hkind] using Act.operator hkind
  | call =>
    cases hcallee : callee statement.expressions machine.env with
    | error fault =>
      left
      simpa only [step, stepEvents, hkind, hcallee] using Act.uncallable hkind hcallee
    | ok callee =>
      cases callee with
      | primitive primitive arguments =>
        left
        simp only [step, hkind, hcallee] at h
        simpa only [step, stepEvents, hkind, hcallee] using Act.primitive hkind hcallee rfl h
      | procedure procedure =>
        have henters : Enters statement machine.env procedure := ⟨hkind, hcallee⟩
        cases hpush : machine.calls.push procedure.name with
        | ok calls => exact .inr ⟨procedure, calls, henters, hpush⟩
        | error fault =>
          left
          rw [step_of_enters henters, stepEvents_of_enters henters]
          simpa only [enter, enterEvents, hpush] using Act.refuse henters hpush

/-- Every list that is executed one statement after the other is run by the rules, if its bodies
are. -/
lemma run_of_sequence (host : Host σ) (depth : Nat)
    (hbodies : ∀ statements machine, execute host depth statements machine ≠ .exhausted →
      Run host statements machine (events host depth statements machine)
        (execute host depth statements machine))
    (statements : List Statement) (machine : Machine σ)
    (h : execute host (depth + 1) statements machine ≠ .exhausted) :
    Run host statements machine (events host (depth + 1) statements machine)
      (execute host (depth + 1) statements machine) := by
  induction statements generalizing machine with
  | nil => exact .nil
  | cons statement rest ih =>
    simp only [execute, events, sequence, sequenceEvents] at h ih ⊢
    have hstep : step host (execute host depth) statement machine ≠ .exhausted := by
      intro he
      simp [he] at h
    obtain hact | ⟨procedure, calls, henters, hpush⟩ :=
      act_or_enters host depth (events host depth) statement machine hstep
    · cases hout : step host (execute host depth) statement machine with
      | done after =>
        simp only [hout] at h hact ⊢
        exact .act hact (ih after h)
      | failed failure after =>
        simp only [hout, List.append_nil] at hact ⊢
        exact .actFail hact
      | exhausted => exact absurd hout hstep
    · rw [stepEvents_of_enters henters]
      rw [step_of_enters henters] at h hstep ⊢
      simp only [enter, enterEvents, hpush] at h hstep ⊢
      have hbody := hbodies procedure.body { machine with calls } (by
        intro he
        simp [he, Outcome.map] at hstep)
      cases hout : execute host depth procedure.body { machine with calls } with
      | done after =>
        simp only [hout, Outcome.map, leaveEvents] at h hbody ⊢
        simpa using Run.call henters hpush hbody (ih _ h)
      | failed failure after =>
        simp only [hout, Outcome.map, leaveEvents, List.append_nil] at hbody ⊢
        have hrun : Run host (statement :: rest) machine _ _ := .callFail henters hpush hbody
        simpa using hrun
      | exhausted => simp [hout, Outcome.map] at hstep

/-- What `execute` does is done by the rules, with the history that `events` tells. -/
theorem run_of_execute (host : Host σ) (depth : Nat) (statements : List Statement)
    (machine : Machine σ) (h : execute host depth statements machine ≠ .exhausted) :
    Run host statements machine (events host depth statements machine)
      (execute host depth statements machine) := by
  induction depth generalizing statements machine with
  | zero => exact absurd rfl h
  | succ depth ih => exact run_of_sequence host depth ih statements machine h

/-! ### The rules describe `execute` -/

lemma EndsIn.nil {host : Host σ} {machine : Machine σ} :
    EndsIn host [] machine (.done machine) :=
  ⟨by simp, 1, rfl⟩

lemma Act.step_eq {host : Host σ} {statement : Statement} {machine : Machine σ}
    {seen : List (Event σ)} {outcome : Outcome Failure (Machine σ)}
    (hact : Act host statement machine seen outcome) :
    ∃ depth, ∀ larger, depth ≤ larger →
      step host (execute host larger) statement machine = outcome := by
  cases hact with
  | assign hkind hassign => exact ⟨0, fun _ _ => by simp only [step, hkind, hassign]⟩
  | misassign hkind hassign => exact ⟨0, fun _ _ => by simp only [step, hkind, hassign]⟩
  | operator hkind => exact ⟨0, fun _ _ => by simp only [step, hkind]⟩
  | uncallable hkind hcallee => exact ⟨0, fun _ _ => by simp only [step, hkind, hcallee]⟩
  | refuse henters hpush =>
    exact ⟨0, fun _ _ => by rw [step_of_enters henters]; simp only [enter, hpush]⟩
  | @primitive primitive arguments depth outcome hkind hcallee hsettle hends =>
    subst hsettle
    refine ⟨depth, fun larger hle => ?_⟩
    simp only [step, hkind, hcallee]
    exact settle_extends (execute_extends host hle) _ _ hends

lemma EndsIn.act {host : Host σ} {statement : Statement} {rest : List Statement}
    {machine after : Machine σ} {seen : List (Event σ)} {outcome : Outcome Failure (Machine σ)}
    (hact : Act host statement machine seen (.done after)) (htail : EndsIn host rest after outcome) :
    EndsIn host (statement :: rest) machine outcome := by
  obtain ⟨d, hstep⟩ := hact.step_eq
  obtain ⟨e, htail'⟩ := htail.from_depth
  refine ⟨htail.1, max d e + 1, ?_⟩
  simp only [execute, sequence, hstep (max d e) (by omega)]
  exact htail' (max d e + 1) (by omega)

lemma EndsIn.actFail {host : Host σ} {statement : Statement} {rest : List Statement}
    {machine after : Machine σ} {seen : List (Event σ)} {failure : Failure}
    (hact : Act host statement machine seen (.failed failure after)) :
    EndsIn host (statement :: rest) machine
      (.failed (failure.attach statement.source) after) := by
  obtain ⟨d, hstep⟩ := hact.step_eq
  refine ⟨by simp, d + 1, ?_⟩
  simp only [execute, sequence, hstep d le_rfl]

lemma EndsIn.call {host : Host σ} {statement : Statement} {rest : List Statement}
    {machine after : Machine σ} {procedure : Procedure} {calls : ActiveCalls}
    {outcome : Outcome Failure (Machine σ)} (henters : Enters statement machine.env procedure)
    (hpush : machine.calls.push procedure.name = .ok calls)
    (hbody : EndsIn host procedure.body { machine with calls } (.done after))
    (htail : EndsIn host rest { after with calls := after.calls.pop } outcome) :
    EndsIn host (statement :: rest) machine outcome := by
  obtain ⟨d, hbody'⟩ := hbody.from_depth
  obtain ⟨e, htail'⟩ := htail.from_depth
  refine ⟨htail.1, max d e + 1, ?_⟩
  simp only [execute, sequence, step_of_enters henters, enter, hpush,
    hbody' (max d e) (by omega), Outcome.map]
  exact htail' (max d e + 1) (by omega)

lemma EndsIn.callFail {host : Host σ} {statement : Statement} {rest : List Statement}
    {machine after : Machine σ} {procedure : Procedure} {calls : ActiveCalls} {failure : Failure}
    (henters : Enters statement machine.env procedure)
    (hpush : machine.calls.push procedure.name = .ok calls)
    (hbody : EndsIn host procedure.body { machine with calls } (.failed failure after)) :
    EndsIn host (statement :: rest) machine
      (.failed (failure.attach statement.source) { after with calls := after.calls.pop }) := by
  obtain ⟨d, hbody'⟩ := hbody.from_depth
  refine ⟨by simp, d + 1, ?_⟩
  simp only [execute, sequence, step_of_enters henters, enter, hpush, hbody' d le_rfl, Outcome.map]

/-- What the rules allow is what `execute` does under a depth that suffices. -/
theorem Run.endsIn {host : Host σ} {statements : List Statement} {machine : Machine σ}
    {history : List (Event σ)} {outcome : Outcome Failure (Machine σ)}
    (hrun : Run host statements machine history outcome) :
    EndsIn host statements machine outcome := by
  induction hrun with
  | nil => exact .nil
  | act hact _ ih => exact .act hact ih
  | actFail hact => exact .actFail hact
  | call henters hpush _ _ ihbody ihtail => exact .call henters hpush ihbody ihtail
  | callFail henters hpush _ ihbody => exact .callFail henters hpush ihbody

theorem endsIn_iff_run (host : Host σ) (statements : List Statement) (machine : Machine σ)
    (outcome : Outcome Failure (Machine σ)) :
    EndsIn host statements machine outcome ↔
      ∃ history, Run host statements machine history outcome := by
  constructor
  · rintro ⟨hne, depth, rfl⟩
    exact ⟨_, run_of_execute host depth statements machine hne⟩
  · rintro ⟨history, hrun⟩
    exact hrun.endsIn

end LineScript.Proofs
