import LineScript.Proofs.CallLimit

/-!
# Active calls are balanced

Whatever is done with an interpreter, it gives back the calls that it found active, and between
start and end no calls are active but those that the limit let in on top of them (`Above`). Since
the active calls are all that an interpreter keeps, its runs do not depend on one another. What a
primitive runs, it runs with calls of its own, and the same is true of that run by itself.
-/

namespace LineScript.Proofs

variable {σ : Type}

/-! ### Tasks of an interpreter -/

/-- What an interpreter can be asked to execute. -/
inductive Task where
  | all (statements : List Statement)
  | one (statement : Statement)

def Task.run (host : Host σ) (depth : Nat) : Task → Machine σ → Outcome Failure (Machine σ)
  | .all statements => execute host depth statements
  | .one statement => executeStatement host depth statement

/-- The history of a task. -/
def Task.events (host : Host σ) (depth : Nat) : Task → Machine σ → List (Event σ)
  | .all statements => Proofs.events host depth statements
  | .one statement => stepEvents host (execute host depth) (Proofs.events host depth) statement

lemma leaves_execute (host : Host σ) (depth : Nat) (statements : List Statement)
    (machine : Machine σ) : Leaves machine.calls (execute host depth statements machine) := by
  by_cases h : execute host depth statements machine = .exhausted
  · rw [h]
    trivial
  · exact (endsIn_execute h).leaves

lemma leaves_step (host : Host σ) (depth : Nat) (statement : Statement) (machine : Machine σ) :
    Leaves machine.calls (step host (execute host depth) statement machine) := by
  -- As a list of its own, the statement ends in the same machine.
  have hlist := leaves_execute host (depth + 1) [statement] machine
  simp only [execute, sequence] at hlist
  cases hstep : step host (execute host depth) statement machine with
  | done after =>
    rw [hstep] at hlist
    exact hlist
  | failed failure after =>
    rw [hstep] at hlist
    exact hlist
  | exhausted => trivial

lemma Task.leaves (host : Host σ) (depth : Nat) (task : Task) (machine : Machine σ) :
    Leaves machine.calls (task.run host depth machine) := by
  cases task with
  | all statements => exact leaves_execute host depth statements machine
  | one statement => exact leaves_step host depth statement machine

/-! ### Calls during a run -/

/-- The calls that can become active on top of `base`, each of them let in by the limit. -/
inductive Above (base : ActiveCalls) : ActiveCalls → Prop
  | refl : Above base base
  | push {calls entered : ActiveCalls} {name : String} (habove : Above base calls)
      (hpush : calls.push name = .ok entered) : Above base entered

lemma Above.trans {base middle calls : ActiveCalls} (hmiddle : Above base middle)
    (hcalls : Above middle calls) : Above base calls := by
  induction hcalls with
  | refl => exact hmiddle
  | push _ hpush ih => exact .push ih hpush

lemma Above.limit_eq {base calls : ActiveCalls} (habove : Above base calls) :
    calls.limit = base.limit := by
  induction habove with
  | refl => rfl
  | push _ hpush ih =>
    obtain ⟨rfl, -⟩ := (push_eq_ok_iff _ _ _).1 hpush
    exact ih

lemma Above.depth_le {base calls : ActiveCalls} {limit : Nat} (habove : Above base calls)
    (hlimit : base.limit = some limit) (hbase : base.depth ≤ limit) : calls.depth ≤ limit := by
  cases habove with
  | refl => exact hbase
  | push hlower hpush =>
    obtain ⟨rfl, hroom⟩ := (push_eq_ok_iff _ _ _).1 hpush
    have hlt := hroom limit (hlower.limit_eq.trans hlimit)
    rw [enter_depth]
    omega

/-- The calls that are active at an event. -/
def callsAt : Event σ → List ActiveCalls
  | .start _ machine => [machine.calls]
  | .reply _ => []
  | .enter calls => [calls]
  | .leave calls => [calls]
  | .finish _ before after => [before.calls, after.calls]

/-- The event takes place on top of `base`: all calls active at it are above, and a procedure that
is left at it was entered there. -/
structure OnTop (base : ActiveCalls) (event : Event σ) : Prop where
  above : ∀ calls ∈ callsAt event, Above base calls
  entered : ∀ left, event = .leave left →
    ∃ lower name, Above base lower ∧ lower.push name = .ok left

lemma OnTop.trans {base middle : ActiveCalls} {event : Event σ} (hmiddle : Above base middle)
    (htop : OnTop middle event) : OnTop base event := by
  constructor
  · intro calls hmem
    exact hmiddle.trans (htop.above calls hmem)
  · intro left hleft
    obtain ⟨lower, name, hlower, hpush⟩ := htop.entered left hleft
    exact ⟨lower, name, hmiddle.trans hlower, hpush⟩

lemma callsAt_replyEvents {outcome : Outcome Failure (Machine σ)} {event : Event σ}
    (hmem : event ∈ replyEvents outcome) : callsAt event = [] := by
  cases outcome with
  | done machine =>
    rw [replyEvents, List.mem_singleton] at hmem
    rw [hmem, callsAt]
  | failed failure machine =>
    rw [replyEvents, List.mem_singleton] at hmem
    rw [hmem, callsAt]
  | exhausted => cases hmem

lemma onTop_replyEvents (base : ActiveCalls) (outcome : Outcome Failure (Machine σ)) :
    ∀ event ∈ replyEvents outcome, OnTop base event := by
  intro event hmem
  have hcalls := callsAt_replyEvents hmem
  constructor
  · simp [hcalls]
  · rintro left rfl
    cases hcalls

lemma onTop_leaveEvents {base calls : ActiveCalls} {name : String}
    (hpush : base.push name = .ok calls) {outcome : Outcome Failure (Machine σ)}
    (hleaves : Leaves calls outcome) : ∀ event ∈ leaveEvents outcome, OnTop base event := by
  have hleave : OnTop base (Event.leave calls : Event σ) := by
    constructor
    · intro active hmem
      rw [callsAt, List.mem_singleton] at hmem
      subst hmem
      exact .push .refl hpush
    · rintro left ⟨⟩
      exact ⟨base, name, .refl, hpush⟩
  cases outcome with
  | done machine =>
    simp only [leaveEvents, List.mem_singleton, forall_eq]
    rwa [show machine.calls = calls from hleaves]
  | failed failure machine =>
    simp only [leaveEvents, List.mem_singleton, forall_eq]
    rwa [show machine.calls = calls from hleaves]
  | exhausted => simp [leaveEvents]

/-- What happens in a statement takes place on top of its calls, if that is so of the bodies. -/
lemma onTop_stepEvents (host : Host σ) (depth : Nat)
    (hbodies : ∀ statements machine, ∀ event ∈ events host depth statements machine,
      OnTop machine.calls event)
    (statement : Statement) (machine : Machine σ) :
    ∀ event ∈ stepEvents host (execute host depth) (events host depth) statement machine,
      OnTop machine.calls event := by
  unfold stepEvents
  split
  · simp
  · simp
  · split
    · exact onTop_replyEvents _ _
    · rename_i procedure _
      unfold enterEvents
      split
      · simp
      · rename_i calls hpush
        have habove : Above machine.calls calls := .push .refl hpush
        intro event hmem
        rw [List.cons_append, List.mem_cons, List.mem_append] at hmem
        -- The body stands on top of the call that was let in; the last event gives that call back.
        obtain rfl | hbody | hleave := hmem
        · exact ⟨by simpa [callsAt] using habove, by simp⟩
        · exact (hbodies _ _ event hbody).trans habove
        · exact onTop_leaveEvents hpush (leaves_execute host depth _ _) event hleave
    · simp

lemma onTop_sequenceEvents (host : Host σ) (depth : Nat)
    (hbodies : ∀ statements machine, ∀ event ∈ events host depth statements machine,
      OnTop machine.calls event)
    (statements : List Statement) (machine : Machine σ) :
    ∀ event ∈ events host (depth + 1) statements machine, OnTop machine.calls event := by
  simp only [events]
  induction statements generalizing machine with
  | nil => simp [sequenceEvents]
  | cons statement rest ih =>
    intro event hmem
    rw [sequenceEvents, List.cons_append, List.mem_cons, List.mem_append] at hmem
    obtain rfl | hstep | hrest := hmem
    · exact ⟨by simpa [callsAt] using Above.refl, by simp⟩
    · exact onTop_stepEvents host depth hbodies statement machine event hstep
    · cases hout : step host (execute host depth) statement machine with
      | done after =>
        have hcalls : after.calls = machine.calls := by
          have hleaves := leaves_step host depth statement machine
          rwa [hout] at hleaves
        rw [hout] at hrest
        obtain rfl | hrest := List.mem_cons.1 hrest
        · exact ⟨by simpa [callsAt, hcalls] using Above.refl, by simp⟩
        · rw [← hcalls]
          exact ih after event hrest
      | failed failure after => simp [hout] at hrest
      | exhausted => simp [hout] at hrest

/-- Whatever happens in a run takes place on top of the calls that were active at its start, also
where the run is broken off. -/
theorem onTop_events (host : Host σ) (depth : Nat) (statements : List Statement)
    (machine : Machine σ) :
    ∀ event ∈ events host depth statements machine, OnTop machine.calls event := by
  induction depth generalizing statements machine with
  | zero => simp [events]
  | succ depth ih => exact onTop_sequenceEvents host depth ih statements machine

lemma Task.onTop (host : Host σ) (depth : Nat) (task : Task) (machine : Machine σ) :
    ∀ event ∈ task.events host depth machine, OnTop machine.calls event := by
  cases task with
  | all statements => exact onTop_events host depth statements machine
  | one statement => exact onTop_stepEvents host depth (onTop_events host depth) statement machine

/-! ### Interpreters that are used again -/

/-- A task, with the variables and the state of the host that it is run against. -/
structure Job (σ : Type) where
  task : Task
  env : Environment
  state : σ

/-- The outcome of a job that an interpreter does while these calls are active. -/
def Job.run (host : Host σ) (depth : Nat) (calls : ActiveCalls) (job : Job σ) :
    Outcome Failure (Machine σ) :=
  job.task.run host depth ⟨calls, job.env, job.state⟩

/-- The outcomes of jobs that one interpreter does in turn. Each job finds active what the one
before it has left active, and a job that does not end is the last. -/
def Job.runAll (host : Host σ) (depth : Nat) : ActiveCalls → List (Job σ) →
    List (Outcome Failure (Machine σ))
  | _, [] => []
  | calls, job :: rest =>
    match job.run host depth calls with
    | .done after => .done after :: runAll host depth after.calls rest
    | .failed failure after => .failed failure after :: runAll host depth after.calls rest
    | .exhausted => [.exhausted]

lemma Job.runAll_cons (host : Host σ) (depth : Nat) (calls : ActiveCalls) (job : Job σ)
    (rest : List (Job σ)) (hends : job.run host depth calls ≠ .exhausted) :
    runAll host depth calls (job :: rest) =
      job.run host depth calls :: runAll host depth calls rest := by
  have hleaves := job.task.leaves host depth ⟨calls, job.env, job.state⟩
  change Leaves calls (job.run host depth calls) at hleaves
  cases hrun : job.run host depth calls with
  | done after =>
    rw [hrun] at hleaves
    simp only [runAll, hrun, show after.calls = calls from hleaves]
  | failed failure after =>
    rw [hrun] at hleaves
    simp only [runAll, hrun, show after.calls = calls from hleaves]
  | exhausted => exact absurd hrun hends

lemma Job.runAll_prefix_map (host : Host σ) (depth : Nat) (calls : ActiveCalls) (jobs : List (Job σ)) :
    runAll host depth calls jobs <+: jobs.map (Job.run host depth calls) := by
  induction jobs with
  | nil => exact List.prefix_rfl
  | cons job rest ih =>
    by_cases hends : job.run host depth calls = .exhausted
    · simp [runAll, hends]
    · rw [runAll_cons host depth calls job rest hends, List.map_cons, List.prefix_cons_inj]
      exact ih

lemma Job.runAll_eq_map (host : Host σ) (depth : Nat) (calls : ActiveCalls) (jobs : List (Job σ))
    (hends : .exhausted ∉ runAll host depth calls jobs) :
    runAll host depth calls jobs = jobs.map (Job.run host depth calls) := by
  induction jobs with
  | nil => rfl
  | cons job rest ih =>
    have hjob : job.run host depth calls ≠ .exhausted := by
      intro hrun
      simp [runAll, hrun] at hends
    rw [runAll_cons host depth calls job rest hjob] at hends ⊢
    rw [List.map_cons, ih (List.not_mem_of_not_mem_cons hends)]

/-- A task that ends, well or not, leaves the calls active that it found active; it leaves a
procedure only while one is active; and if none is active at its start, there are never more than
the limit allows. So of jobs that one interpreter does in turn, each has the outcome that it has on
a new interpreter with the same limit. -/
theorem interpreter_keeps_nothing (host : Host σ) (depth : Nat) :
    (∀ (task : Task) (machine : Machine σ),
      Leaves machine.calls (task.run host depth machine) ∧
      (∀ left, Event.leave left ∈ task.events host depth machine → left.frames ≠ []) ∧
      (∀ limit, machine.calls.limit = some limit → machine.calls.depth = 0 →
        ∀ event ∈ task.events host depth machine, ∀ calls ∈ callsAt event,
          calls.depth ≤ limit)) ∧
    (∀ (limit : Option Nat) (jobs : List (Job σ)),
      Job.runAll host depth (.idle limit) jobs <+: jobs.map (Job.run host depth (.idle limit)) ∧
      (.exhausted ∉ Job.runAll host depth (.idle limit) jobs →
        Job.runAll host depth (.idle limit) jobs =
          jobs.map (Job.run host depth (.idle limit)))) := by
  constructor
  · intro task machine
    have htop := task.onTop host depth machine
    refine ⟨task.leaves host depth machine, ?_, ?_⟩
    · intro left hmem
      obtain ⟨lower, name, -, hpush⟩ := (htop _ hmem).entered left rfl
      obtain ⟨rfl, -⟩ := (push_eq_ok_iff _ _ _).1 hpush
      exact List.cons_ne_nil _ _
    · intro limit hlimit hidle event hmem calls hcalls
      have habove := (htop event hmem).above calls hcalls
      exact habove.depth_le hlimit (by omega)
  · intro limit jobs
    exact ⟨Job.runAll_prefix_map host depth _ jobs, Job.runAll_eq_map host depth _ jobs⟩

/-- Under a limit of one call, `f` is cut off inside `g`, and then `g` is called by itself. -/
def jobsAfterCut : List (Job Services) :=
  [⟨.all [callOf "f"], nestedCalls, {}⟩, ⟨.one (callOf "g"), nestedCalls, {}⟩]

theorem interpreter_keeps_nothing_after_cut :
    Job.runAll Services.reply 2 (.idle (some 1)) jobsAfterCut =
      [.failed ⟨.tooDeep 1, some "g"⟩ (nestedMachine (some 1)),
        .done (nestedMachine (some 1))] ∧
    Job.runAll Services.reply 2 (.idle (some 1)) jobsAfterCut =
      jobsAfterCut.map (Job.run Services.reply 2 (.idle (some 1))) ∧
    Leaves (.idle (some 1))
      ((Task.all [callOf "f"]).run Services.reply 2 (nestedMachine (some 1))) ∧
    (∃ left, Event.leave left ∈
      (Task.all [callOf "f"]).events Services.reply 2 (nestedMachine (some 1)) ∧
        left.frames ≠ []) ∧
    (∀ event ∈ (Task.all [callOf "f"]).events Services.reply 2 (nestedMachine (some 1)),
      ∀ calls ∈ callsAt event, calls.depth ≤ 1) := by
  have hruns : Job.runAll Services.reply 2 (.idle (some 1)) jobsAfterCut =
      [.failed ⟨.tooDeep 1, some "g"⟩ (nestedMachine (some 1)),
        .done (nestedMachine (some 1))] := rfl
  obtain ⟨htasks, hjobs⟩ := interpreter_keeps_nothing (Services.reply : Host Services) 2
  obtain ⟨hleaves, hpops, hbound⟩ :=
    htasks (.all [callOf "f"]) (nestedMachine (some 1))
  have hleft : Event.leave ((ActiveCalls.idle (some 1)).enter "f") ∈
      (Task.all [callOf "f"]).events Services.reply 2 (nestedMachine (some 1)) :=
    .tail _ (.tail _ (.tail _ (.head _)))
  exact ⟨hruns, (hjobs (some 1) jobsAfterCut).2 (by simp [hruns]), hleaves,
    ⟨_, hleft, hpops _ hleft⟩, hbound 1 rfl rfl⟩

end LineScript.Proofs
