import LineScript.Proofs.Termination

/-!
# Runs under a limit end

Bodies are taken from variables that change while the run goes on, so neither the length of a
program nor that of a body bounds a run. What does is the room that is left for calls and, below
that, the number of statements that are left. Primitives are the host's: `PrimitivesReturn` asks of
them only that the calls which the run really makes come to an end.
-/

namespace LineScript.Proofs

variable {σ : Type} {host : Host σ}

/-! ### What a run starts -/

lemma starts_leaveEvents (outcome : Outcome Failure (Machine σ)) :
    starts (leaveEvents outcome) = [] := by
  cases outcome <;> rfl

lemma mem_starts_stepEvents_iff (depth : Nat) (statement : Statement) (machine : Machine σ)
    (start : Statement × Machine σ) :
    start ∈ starts (stepEvents host (execute host depth) (events host depth) statement machine) ↔
      ∃ procedure calls, Enters statement machine.env procedure ∧
        machine.calls.push procedure.name = .ok calls ∧
        start ∈ starts (events host depth procedure.body { machine with calls }) := by
  constructor
  · intro hmem
    cases hkind : statement.kind with
    | assignment => simp [stepEvents, hkind] at hmem
    | operator => simp [stepEvents, hkind] at hmem
    | call =>
      cases hcallee : callee statement.expressions machine.env with
      | error fault => simp [stepEvents, hkind, hcallee] at hmem
      | ok callee =>
        cases callee with
        | primitive primitive arguments => simp [stepEvents, hkind, hcallee] at hmem
        | procedure procedure =>
          have henters : Enters statement machine.env procedure := ⟨hkind, hcallee⟩
          rw [stepEvents_of_enters henters] at hmem
          cases hpush : machine.calls.push procedure.name with
          | error fault => simp [enterEvents, hpush] at hmem
          | ok calls =>
            refine ⟨procedure, calls, henters, hpush, ?_⟩
            simpa [enterEvents, hpush, starts_leaveEvents] using hmem
  · rintro ⟨procedure, calls, henters, hpush, hmem⟩
    rw [stepEvents_of_enters henters]
    simp [enterEvents, hpush, hmem]

/-- What a run starts is its first statement, or in the body that this enters, or after it. -/
lemma mem_starts_cons_iff (depth : Nat) (statement : Statement) (rest : List Statement)
    (machine : Machine σ) (start : Statement × Machine σ) :
    start ∈ starts (events host (depth + 1) (statement :: rest) machine) ↔
      start = (statement, machine) ∨
      (∃ procedure calls, Enters statement machine.env procedure ∧
        machine.calls.push procedure.name = .ok calls ∧
        start ∈ starts (events host depth procedure.body { machine with calls })) ∨
      ∃ after, step host (execute host depth) statement machine = .done after ∧
        start ∈ starts (events host (depth + 1) rest after) := by
  simp only [events, sequenceEvents, List.cons_append, starts_start, starts_append, List.mem_cons,
    List.mem_append, mem_starts_stepEvents_iff]
  cases hstep : step host (execute host depth) statement machine <;> simp

lemma mem_starts_of_le {depth larger : Nat} (hle : depth ≤ larger) {statements : List Statement}
    {machine : Machine σ} {start : Statement × Machine σ}
    (hmem : start ∈ starts (events host depth statements machine)) :
    start ∈ starts (events host larger statements machine) := by
  induction depth generalizing larger statements machine with
  | zero => cases hmem
  | succ depth ihdepth =>
    obtain ⟨larger, rfl⟩ : ∃ k, larger = k + 1 := ⟨larger - 1, by omega⟩
    induction statements generalizing machine with
    | nil => exact hmem
    | cons statement rest ih =>
      rw [mem_starts_cons_iff] at hmem ⊢
      obtain hfirst | ⟨procedure, calls, henters, hpush, hbody⟩ | ⟨after, hstep, hrest⟩ := hmem
      · exact .inl hfirst
      · exact .inr (.inl ⟨procedure, calls, henters, hpush, ihdepth (by omega) hbody⟩)
      · refine .inr (.inr ⟨after, ?_, ih hrest⟩)
        have hends : step host (execute host depth) statement machine ≠ .exhausted := by
          rw [hstep]
          simp
        rw [step_extends host (execute_extends host (by omega)) statement machine hends, hstep]

/-- The run starts this statement in this machine, be it in the body of a procedure, and whether or
not the run ends. -/
def Reaches (host : Host σ) (statements : List Statement) (machine : Machine σ)
    (start : Statement × Machine σ) : Prop :=
  ∃ depth, start ∈ starts (events host depth statements machine)

section Reaches

variable {statement : Statement} {rest : List Statement} {machine after : Machine σ}
  {start : Statement × Machine σ}

lemma reaches_first : Reaches host (statement :: rest) machine (statement, machine) :=
  ⟨1, (mem_starts_cons_iff 0 _ _ _ _).2 (.inl rfl)⟩

lemma Reaches.inside {procedure : Procedure} {calls : ActiveCalls}
    (henters : Enters statement machine.env procedure)
    (hpush : machine.calls.push procedure.name = .ok calls)
    (hreach : Reaches host procedure.body { machine with calls } start) :
    Reaches host (statement :: rest) machine start := by
  obtain ⟨depth, hmem⟩ := hreach
  refine ⟨depth + 1, ?_⟩
  rw [mem_starts_cons_iff]
  exact .inr (.inl ⟨procedure, calls, henters, hpush, hmem⟩)

lemma Reaches.later {depth : Nat}
    (hstep : ∀ larger, depth ≤ larger →
      step host (execute host larger) statement machine = .done after)
    (hreach : Reaches host rest after start) : Reaches host (statement :: rest) machine start := by
  obtain ⟨other, hmem⟩ := hreach
  refine ⟨max depth other + 1, ?_⟩
  rw [mem_starts_cons_iff]
  refine .inr (.inr ⟨after, hstep _ (by omega), mem_starts_of_le (by omega) hmem⟩)

end Reaches

/-- What every action keeps holds wherever a statement is started, also in a run that does not
end. -/
theorem Reaches.preserves {Inv : Machine σ → Prop}
    (hcalls : ∀ calls machine, Inv machine → Inv (withCalls calls machine))
    (hact : ∀ {statement machine seen after},
      Act host statement machine seen (.done after) → Inv machine → Inv after)
    {statements : List Statement} {machine : Machine σ} {start : Statement × Machine σ}
    (hreach : Reaches host statements machine start) (hinv : Inv machine) : Inv start.2 := by
  obtain ⟨depth, hmem⟩ := hreach
  induction depth generalizing statements machine with
  | zero => cases hmem
  | succ depth ihdepth =>
    induction statements generalizing machine with
    | nil => cases hmem
    | cons statement rest ih =>
      rw [mem_starts_cons_iff] at hmem
      obtain rfl | ⟨procedure, calls, -, -, hbody⟩ | ⟨after, hstep, hrest⟩ := hmem
      · exact hinv
      · exact ihdepth (hcalls calls machine hinv) hbody
      · -- The first statement alone is a run that ends, whatever it calls.
        have hdone : execute host (depth + 1) [statement] machine = .done after := by
          simp only [execute, sequence, hstep]
        have hrun := run_of_execute host (depth + 1) [statement] machine (by simp [hdone])
        exact ih ((hrun.preserves hcalls hact hinv).2 after hdone) hrest

/-! ### Runs with room for few calls -/

/-- Every call of a primitive that the run makes comes to an end. -/
def PrimitivesReturn (host : Host σ) (statements : List Statement) (machine : Machine σ) : Prop :=
  ∀ start, Reaches host statements machine start → start.1.kind = .call →
    ∀ primitive arguments,
      callee start.1.expressions start.2.env = .ok (.primitive primitive arguments) →
      ∃ depth, settle (execute host depth) start.2.calls
        (host primitive arguments start.2.env start.2.host) ≠ .exhausted

lemma PrimitivesReturn.act_or_enters {statement : Statement} {rest : List Statement}
    {machine : Machine σ} (hreturn : PrimitivesReturn host (statement :: rest) machine) :
    (∃ seen outcome, Act host statement machine seen outcome) ∨
      ∃ procedure calls, Enters statement machine.env procedure ∧
        machine.calls.push procedure.name = .ok calls := by
  have hends : (∃ depth, step host (execute host depth) statement machine ≠ .exhausted) ∨
      ∃ procedure, Enters statement machine.env procedure := by
    cases hkind : statement.kind with
    | assignment =>
      refine .inl ⟨0, ?_⟩
      simp only [step, hkind]
      split <;> simp
    | operator => exact .inl ⟨0, by simp [step, hkind]⟩
    | call =>
      cases hcallee : callee statement.expressions machine.env with
      | error fault => exact .inl ⟨0, by simp [step, hkind, hcallee]⟩
      | ok callee =>
        cases callee with
        | procedure procedure => exact .inr ⟨procedure, hkind, hcallee⟩
        | primitive primitive arguments =>
          obtain ⟨depth, hsettle⟩ := hreturn _ reaches_first hkind _ _ hcallee
          refine .inl ⟨depth, ?_⟩
          simpa only [step, hkind, hcallee] using hsettle
  obtain ⟨depth, hstep⟩ | ⟨procedure, henters⟩ := hends
  · obtain hact | henters :=
      Proofs.act_or_enters host depth (events host depth) statement machine hstep
    · exact .inl ⟨_, _, hact⟩
    · exact .inr henters
  · cases hpush : machine.calls.push procedure.name with
    | ok calls => exact .inr ⟨procedure, calls, henters, hpush⟩
    | error fault => exact .inl ⟨_, _, .refuse henters hpush⟩

lemma PrimitivesReturn.of_reaches {statements others : List Statement} {machine other : Machine σ}
    (hreturn : PrimitivesReturn host statements machine)
    (hreach : ∀ start, Reaches host others other start → Reaches host statements machine start) :
    PrimitivesReturn host others other :=
  fun start hstart => hreturn start (hreach start hstart)

lemma EndsIn.step_eq {statement : Statement} {machine after : Machine σ} {procedure : Procedure}
    {calls : ActiveCalls} (hbody : EndsIn host procedure.body { machine with calls } (.done after))
    (henters : Enters statement machine.env procedure)
    (hpush : machine.calls.push procedure.name = .ok calls) :
    ∃ depth, ∀ larger, depth ≤ larger → step host (execute host larger) statement machine =
      .done { after with calls := after.calls.pop } := by
  obtain ⟨depth, hdepth⟩ := hbody.from_depth
  refine ⟨depth, ?_⟩
  intro larger hle
  simp only [step_of_enters henters, LineScript.enter, hpush, hdepth larger hle, Outcome.map]

/-- With room for some number of calls, a run whose primitives return ends. -/
theorem exists_endsIn_of_limit {limit : Nat} (statements : List Statement) (machine : Machine σ)
    (hlimit : machine.calls.limit = some limit)
    (hreturn : PrimitivesReturn host statements machine) :
    ∃ outcome, EndsIn host statements machine outcome := by
  -- A body has less room than its caller, and statements of one list have the same room.
  induction hroom : limit - machine.calls.depth using Nat.strong_induction_on
    generalizing statements machine with
  | _ room ihroom =>
    induction statements generalizing machine with
    | nil => exact ⟨_, .nil⟩
    | cons statement rest ih =>
      have hrest : ∀ (after : Machine σ) (depth : Nat), after.calls = machine.calls →
          (∀ larger, depth ≤ larger →
            step host (execute host larger) statement machine = .done after) →
          ∃ outcome, EndsIn host rest after outcome := by
        intro after depth hcalls hstep
        apply ih after
        · rw [hcalls, hlimit]
        · exact hreturn.of_reaches fun start hstart => hstart.later hstep
        · rw [hcalls, hroom]
      obtain ⟨seen, outcome, hact⟩ | ⟨procedure, calls, henters, hpush⟩ := hreturn.act_or_enters
      · cases outcome with
        | exhausted =>
          cases hact with
          | primitive _ _ _ hends => exact absurd rfl hends
        | failed failure after => exact ⟨_, .actFail hact⟩
        | done after =>
          obtain ⟨depth, hstep⟩ := hact.step_eq
          obtain ⟨outcome, hends⟩ := hrest after depth hact.leaves hstep
          exact ⟨outcome, .act hact hends⟩
      · obtain ⟨rfl, hfree⟩ := (push_eq_ok_iff _ _ _).1 hpush
        have hless : limit - (machine.calls.depth + 1) < room := by
          have := hfree limit hlimit
          omega
        obtain ⟨outcome, hbody⟩ := ihroom _ hless procedure.body
          { machine with calls := machine.calls.enter procedure.name } hlimit
          (hreturn.of_reaches fun start hstart => hstart.inside henters hpush) rfl
        cases outcome with
        | exhausted => exact absurd rfl hbody.1
        | failed failure after => exact ⟨_, .callFail henters hpush hbody⟩
        | done after =>
          have hcalls : after.calls.pop = machine.calls := by
            have hleft : after.calls = machine.calls.enter procedure.name := hbody.leaves
            rw [hleft, ActiveCalls.pop_enter]
          obtain ⟨depth, hstep⟩ := hbody.step_eq henters hpush
          obtain ⟨outcome, hends⟩ := hrest _ depth hcalls hstep
          exact ⟨outcome, .call henters hpush hbody hends⟩

variable {δ : Type} [Device δ]

/-- The primitives of the standard library return. -/
lemma primitivesReturn_of_standard {machine : Machine (Services δ)}
    (hstandard : StandardPrimitives machine) (statements : List Statement) :
    PrimitivesReturn Services.reply statements machine := by
  intro start hreach hkind primitive arguments hcallee
  have hstarted : StandardPrimitives start.2 :=
    hreach.preserves (fun _ _ h => h) Act.standardPrimitives hstandard
  obtain ⟨result, env, services, hreply, -⟩ := immediate_reply hstarted hcallee
  refine ⟨0, ?_⟩
  rw [hreply]
  cases result <;> simp [settle]

/-- Under a limit on active calls every run ends, well or with a failure, as long as the primitives
that it calls return; whatever procedures there are, whichever of them call each other, and whatever
is stored over them on the way. The primitives of the standard library do return, so on it every run
under a limit ends. -/
theorem limited_runs_end (limit : Nat) (statements : List Statement) :
    (∀ (σ : Type) (host : Host σ) (machine : Machine σ), machine.calls.limit = some limit →
      PrimitivesReturn host statements machine →
      ∃ outcome, EndsIn host statements machine outcome) ∧
    (∀ (δ : Type) [Device δ] (machine : Machine (Services δ)), machine.calls.limit = some limit →
      StandardPrimitives machine → ∃ outcome, EndsIn Services.reply statements machine outcome) := by
  constructor
  · intro σ host machine hlimit hreturn
    exact exists_endsIn_of_limit statements machine hlimit hreturn
  · intro δ _ machine hlimit hstandard
    apply exists_endsIn_of_limit statements machine hlimit
    exact primitivesReturn_of_standard hstandard statements

def callsG : Procedure :=
  ⟨"f", [callOf "g"]⟩

/-- Stores `f` over `g` and calls `f`. -/
def replacesG : Procedure :=
  ⟨"g", [⟨.assignment, "var g $f", [.literal "g" "g", .reference "$f" "f"]⟩, callOf "f"]⟩

/-- The standard library with procedures that call each other. -/
def mutualCalls (limit : Option Nat) : Machine Services :=
  let machine := (Session.new (.buffer "")).defineStandard.machine
  { machine with
    calls := .idle limit
    env := (machine.env.assign "f" (.procedure callsG)).assign "g" (.procedure replacesG) }

omit [Device δ] in
lemma StandardPrimitives.assign_procedure {machine : Machine (Services δ)}
    (hstandard : StandardPrimitives machine) (name : String) (procedure : Procedure) :
    StandardPrimitives { machine with env := machine.env.assign name (.procedure procedure) } := by
  apply hstandard.assign
  nofun

lemma standardPrimitives_mutualCalls (limit : Option Nat) :
    StandardPrimitives (mutualCalls limit) :=
  ((standardPrimitives_defineStandard (.buffer "")).assign_procedure "f" callsG).assign_procedure
    "g" replacesG

theorem limited_runs_end_mutual :
    (∃ outcome, EndsIn Services.reply [callOf "f"] (mutualCalls (some 3)) outcome) ∧
    (∃ outcome, EndsIn Services.reply [callOf "f", callOf "f"] (mutualCalls (some 0)) outcome) ∧
    ∃ final, EndsIn Services.reply [callOf "f"] (mutualCalls (some 3))
      (.failed ⟨.tooDeep 3, some "g"⟩ final) := by
  have hreturn :=
    primitivesReturn_of_standard (standardPrimitives_mutualCalls (some 3)) [callOf "f"]
  obtain ⟨hhost, -⟩ := limited_runs_end 3 [callOf "f"]
  obtain ⟨-, hlibrary⟩ := limited_runs_end 0 [callOf "f", callOf "f"]
  refine ⟨hhost _ _ (mutualCalls (some 3)) rfl hreturn,
    hlibrary Writer (mutualCalls (some 0)) rfl (standardPrimitives_mutualCalls (some 0)), ?_⟩
  exact ⟨_, nofun, 4, rfl⟩

end LineScript.Proofs
