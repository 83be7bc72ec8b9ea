import LineScript.Command
import LineScript.Proofs.Balance
import LineScript.Proofs.StandardLibrary

/-!
# Programs without procedures end

A program cannot make a procedure. On the standard library it can store nothing but texts, lists of
names, and what a variable holds already, so a run that starts without procedures stays without
them (`Flat`). Such a run enters nothing: it takes its statements one by one and ends.
-/

namespace LineScript.Proofs

variable {δ : Type}

/-- There is nothing to call but the standard library. What mappings hold does not matter, since a
program takes no value out of a mapping. -/
structure Flat (machine : Machine (Services δ)) : Prop where
  standard : StandardPrimitives machine
  noProcedure : ∀ name procedure, machine.env.get? name ≠ some (.procedure procedure)

/-! ### Replies of the standard library -/

lemma evalAll_ne_tooDeep {env : Environment} {expressions : List Expression} {fault : Fault}
    (h : Expression.evalAll env expressions = .error fault) (limit : Nat) :
    fault ≠ .tooDeep limit := by
  induction expressions with
  | nil => cases h
  | cons expression rest ih =>
    obtain hfirst | ⟨value, -, hrest⟩ := bind_eq_error h
    · exact eval_ne_tooDeep hfirst limit
    · obtain hrest | ⟨values, -, hdone⟩ := bind_eq_error hrest
      · exact ih hrest
      · cases hdone

/-- The reply is a result, and no failure for a limit. -/
def Immediate (reply : Reply (Services δ)) : Prop :=
  ∃ result env services, reply = .finish result env services ∧
    ∀ failure limit, result = .error failure → failure.fault ≠ .tooDeep limit

lemma immediate_succeed (env : Environment) (services : Services δ) :
    Immediate (Services.succeed env services) :=
  ⟨.ok (), env, services, rfl, nofun⟩

lemma immediate_refuse {fault : Fault} (hfault : ∀ limit, fault ≠ .tooDeep limit)
    (env : Environment) (services : Services δ) :
    Immediate (Services.refuse fault env services) := by
  refine ⟨.error { fault }, env, services, rfl, ?_⟩
  rintro failure limit ⟨⟩
  exact hfault limit

lemma immediate_emit (deliver : Sink δ → String → Attempt (Sink δ))
    (arguments : List Expression) (env : Environment) (services : Services δ) :
    Immediate (Services.emit deliver arguments env services) := by
  unfold Services.emit
  cases hjoined : Services.joined arguments env with
  | error fault =>
    apply immediate_refuse
    obtain hvalues | ⟨values, -, hdone⟩ := bind_eq_error hjoined
    · exact evalAll_ne_tooDeep hvalues
    · cases hdone
  | ok text =>
    rcases hdelivered : deliver services.sink text with ⟨cause | _, sink⟩
    · simp only [hdelivered]
      apply immediate_refuse
      nofun
    · simp only [hdelivered]
      exact immediate_succeed env _

lemma immediate_storeNames (arguments : List Expression) (env : Environment)
    (services : Services δ) :
    Immediate (Services.update (Services.storeNames arguments env) env services) := by
  unfold Services.update
  cases hstore : Services.storeNames arguments env with
  | ok stored => exact immediate_succeed stored services
  | error fault =>
    apply immediate_refuse
    unfold Services.storeNames at hstore
    split at hstore
    · obtain hname | ⟨name, -, hdone⟩ := bind_eq_error hstore
      · exact evalName_ne_tooDeep hname
      · cases hdone
    · cases hstore
      nofun

variable [Device δ]

/-- A primitive of the standard library replies at once. -/
lemma immediate_reply {expressions arguments : List Expression} {machine : Machine (Services δ)}
    {primitive : Primitive} (hstandard : StandardPrimitives machine)
    (hcallee : callee expressions machine.env = .ok (.primitive primitive arguments)) :
    Immediate (Services.reply primitive arguments machine.env machine.host) := by
  obtain ⟨name, hbound⟩ := bound_of_callee hcallee
  obtain ⟨behavior, hbehavior, hmem⟩ := hstandard name primitive hbound
  simp only [Services.reply, hbehavior]
  simp only [Services.standardLibrary, List.map_cons, List.map_nil, List.mem_cons,
    List.not_mem_nil, or_false] at hmem
  rcases hmem with rfl | rfl | rfl | rfl
  · exact immediate_succeed _ _
  · exact immediate_emit _ _ _ _
  · exact immediate_emit _ _ _ _
  · exact immediate_storeNames _ _ _

/-! ### Actions without procedures -/

omit [Device δ] in
lemma Flat.not_enters {machine : Machine (Services δ)} (hflat : Flat machine)
    (statement : Statement) (procedure : Procedure) : ¬Enters statement machine.env procedure := by
  rintro ⟨-, hcallee⟩
  unfold callee at hcallee
  split at hcallee
  · cases hcallee
  · obtain ⟨name, -, hrest⟩ := bind_eq_ok hcallee
    split at hrest <;> cases hrest
    exact hflat.noProcedure name procedure ‹_›

lemma Flat.step_ne_exhausted {machine : Machine (Services δ)} (hflat : Flat machine)
    (run : Runner (Services δ)) (statement : Statement) :
    step Services.reply run statement machine ≠ .exhausted := by
  cases hkind : statement.kind with
  | assignment =>
    simp only [step, hkind]
    split <;> simp
  | operator => simp [step, hkind]
  | call =>
    cases hcallee : callee statement.expressions machine.env with
    | error fault => simp [step, hkind, hcallee]
    | ok callee =>
      cases callee with
      | procedure procedure => exact absurd ⟨hkind, hcallee⟩ (hflat.not_enters statement procedure)
      | primitive primitive arguments =>
        obtain ⟨result, env, services, hreply, -⟩ := immediate_reply hflat.standard hcallee
        simp only [step, hkind, hcallee, hreply]
        cases result <;> simp [settle]

/-- A program brings no procedure into its variables. -/
lemma Act.flat {statement : Statement} {machine : Machine (Services δ)}
    {seen : List (Event (Services δ))} {outcome : Outcome Failure (Machine (Services δ))}
    (hact : Act Services.reply statement machine seen outcome) (hflat : Flat machine) :
    ∀ after, final? outcome = some after → Flat after := by
  intro after hafter
  have heffect := hact.effect hflat.standard
  refine ⟨heffect.standardPrimitives hflat.standard after hafter, ?_⟩
  intro name procedure hget
  have hvalues := heffect.forall_values (P := (· ≠ .procedure procedure)) (by simp)
    (by simp [Services.nameList])
    (fun other value hget heq => hflat.noProcedure other procedure (heq ▸ hget)) after hafter
  exact hvalues name _ hget rfl

lemma Act.ne_tooDeep {statement : Statement} {machine after : Machine (Services δ)}
    {seen : List (Event (Services δ))} {raw : Failure}
    (hact : Act Services.reply statement machine seen (.failed raw after)) (hflat : Flat machine)
    (limit : Nat) : raw.fault ≠ .tooDeep limit := by
  cases hact with
  | misassign _ hassign => exact assignment_ne_tooDeep hassign limit
  | operator => nofun
  | uncallable _ hcallee => exact callee_ne_tooDeep hcallee limit
  | refuse henters => exact absurd henters (hflat.not_enters statement _)
  | primitive _ hcallee hsettle =>
    obtain ⟨result, env, services, hreply, hfault⟩ := immediate_reply hflat.standard hcallee
    rw [hreply] at hsettle
    cases result with
    | ok value => cases hsettle
    | error failure =>
      cases hsettle
      exact hfault raw limit rfl

lemma Act.callsAt_seen {σ : Type} {host : Host σ} {statement : Statement} {machine : Machine σ}
    {seen : List (Event σ)} {outcome : Outcome Failure (Machine σ)}
    (hact : Act host statement machine seen outcome) : ∀ event ∈ seen, callsAt event = [] := by
  cases hact with
  | primitive => exact fun _ => callsAt_replyEvents
  | _ => simp

/-! ### Runs without procedures -/

/-- A run without procedures ends, whatever depth it is given. -/
theorem Flat.execute_ne_exhausted {machine : Machine (Services δ)} (hflat : Flat machine)
    (depth : Nat) (statements : List Statement) :
    execute Services.reply (depth + 1) statements machine ≠ .exhausted := by
  induction statements generalizing machine with
  | nil => simp [execute, sequence]
  | cons statement rest ih =>
    -- The statement runs no body, so it ends without any depth left.
    have hstep := hflat.step_ne_exhausted (execute Services.reply depth) statement
    obtain hact | ⟨procedure, calls, henters, -⟩ := act_or_enters Services.reply depth
      (events Services.reply depth) statement machine hstep
    · cases hout : step Services.reply (execute Services.reply depth) statement machine with
      | done after =>
        rw [hout] at hact
        simp only [execute, sequence, hout]
        exact ih (hact.flat hflat after rfl)
      | failed failure after => simp [execute, sequence, hout]
      | exhausted => exact absurd hout hstep
    · exact absurd henters (hflat.not_enters statement procedure)

/-- A run without procedures starts its statements in order, and all of them if it ends well. -/
theorem Run.starts_of_flat {statements : List Statement} {machine : Machine (Services δ)}
    {history : List (Event (Services δ))} {outcome : Outcome Failure (Machine (Services δ))}
    (hrun : Run Services.reply statements machine history outcome) (hflat : Flat machine) :
    (starts history).map Prod.fst <+: statements ∧
      ∀ after, outcome = .done after → (starts history).map Prod.fst = statements := by
  induction hrun with
  | nil => simp
  | @act statement rest machine after seen history outcome hact _ ih =>
    obtain ⟨hstarted, hall⟩ := ih (hact.flat hflat after rfl)
    simp only [List.cons_append, starts_start, starts_append, hact.starts_seen, List.nil_append,
      starts_finish, List.map_cons]
    refine ⟨(List.prefix_cons_inj statement).2 hstarted, fun final hdone => ?_⟩
    rw [hall final hdone]
  | actFail hact => simp [hact.starts_seen]
  | call henters => exact absurd henters (hflat.not_enters _ _)
  | callFail henters => exact absurd henters (hflat.not_enters _ _)

/-- The active calls do not change during a run without procedures. -/
theorem Run.calls_of_flat {statements : List Statement} {machine : Machine (Services δ)}
    {history : List (Event (Services δ))} {outcome : Outcome Failure (Machine (Services δ))}
    (hrun : Run Services.reply statements machine history outcome) (hflat : Flat machine) :
    ∀ event ∈ history, ∀ calls ∈ callsAt event, calls = machine.calls := by
  induction hrun with
  | nil => simp
  | @act statement rest machine after seen history outcome hact _ ih =>
    have hcalls : after.calls = machine.calls := hact.leaves
    have hrest := ih (hact.flat hflat after rfl)
    rw [hcalls] at hrest
    intro event hmem calls hat
    rw [List.cons_append, List.mem_cons, List.mem_append, List.mem_cons] at hmem
    obtain rfl | hseen | rfl | hmem := hmem
    · simpa [callsAt] using hat
    · simp [hact.callsAt_seen event hseen] at hat
    · simpa [callsAt, hcalls] using hat
    · exact hrest event hmem calls hat
  | actFail hact =>
    intro event hmem calls hat
    obtain rfl | hseen := List.mem_cons.1 hmem
    · simpa [callsAt] using hat
    · simp [hact.callsAt_seen event hseen] at hat
  | call henters => exact absurd henters (hflat.not_enters _ _)
  | callFail henters => exact absurd henters (hflat.not_enters _ _)

/-- A run without procedures does not fail for a limit. -/
theorem Run.ne_tooDeep_of_flat {statements : List Statement} {machine final : Machine (Services δ)}
    {history : List (Event (Services δ))} {failure : Failure}
    (hrun : Run Services.reply statements machine history (.failed failure final))
    (hflat : Flat machine) (limit : Nat) : failure.fault ≠ .tooDeep limit := by
  obtain ⟨site, hsite⟩ := hrun.exists_failureSite
  have hstarted : Flat site.started :=
    (hrun.preserves (fun _ _ h => ⟨h.standard, h.noProcedure⟩) (fun h hflat => h.flat hflat _ rfl)
      hflat).1 _ (List.mem_of_getLast? hsite.last)
  rw [hsite.failure_eq, attach_fault]
  exact hsite.act.ne_tooDeep hstarted limit

/-! ### Sessions without procedures -/

/-- The history of the run of a source text. -/
def runEvents (depth : Nat) (source : String) (session : Session δ) : List (Event (Services δ)) :=
  match Statement.parseAll source with
  | .error _ => []
  | .ok statements =>
    match session.printListing statements with
    | .done listed => events Services.reply depth statements listed.machine
    | .failed _ _ => []
    | .exhausted => []

/-- Printing the listing touches nothing but the sink. -/
lemma machine_printListing {statements : List Statement} {session listed : Session δ}
    (h : final? (session.printListing statements) = some listed) :
    ∃ sink, listed.machine =
      { session.machine with host := { session.services with sink } } := by
  unfold Session.printListing at h
  split at h
  · split at h <;> cases h <;> exact ⟨_, rfl⟩
  · cases h
    exact ⟨session.services.sink, rfl⟩

lemma Flat.printListing {statements : List Statement} {session listed : Session δ}
    (hflat : Flat session.machine) (h : final? (session.printListing statements) = some listed) :
    listed.calls = session.calls ∧ Flat listed.machine := by
  obtain ⟨sink, hmachine⟩ := machine_printListing h
  constructor
  · exact congrArg Machine.calls hmachine
  · rw [hmachine]
    exact ⟨hflat.standard, hflat.noProcedure⟩

lemma printListing_cases (statements : List Statement) (session : Session δ) :
    (∃ listed, session.printListing statements = .done listed) ∨
      ∃ cause listed,
        session.printListing statements = .failed { fault := .output cause } listed := by
  unfold Session.printListing
  split
  · split
    · exact .inl ⟨_, rfl⟩
    · exact .inr ⟨_, _, rfl⟩
  · exact .inl ⟨_, rfl⟩

/-- How a source text runs where there are no procedures: it cannot be read, or its listing cannot
be printed, or its statements are executed to their end. -/
inductive FlatRun (source : String) (session : Session δ) :
    Outcome RunError (Session δ) → List (Event (Services δ)) → Prop
  | unread {error : ParseError} (hparse : Statement.parseAll source = .error error) :
      FlatRun source session (.failed (.parse error) session) []
  | unlisted {statements : List Statement} {cause : IoFault} {listed : Session δ}
      (hparse : Statement.parseAll source = .ok statements)
      (hlisted : listed.calls = session.calls ∧ Flat listed.machine) :
      FlatRun source session (.failed (.failed { fault := .output cause }) listed) []
  | executed {statements : List Statement} {listed : Session δ}
      {history : List (Event (Services δ))} {result : Outcome Failure (Machine (Services δ))}
      (hparse : Statement.parseAll source = .ok statements)
      (hlisted : listed.calls = session.calls ∧ Flat listed.machine)
      (hrun : Run Services.reply statements listed.machine history result) :
      FlatRun source session ((result.map listed.withMachine).mapError .failed) history

theorem Flat.flatRun {session : Session δ} (hflat : Flat session.machine) (depth : Nat)
    (source : String) :
    FlatRun source session (session.run (depth + 1) source)
      (runEvents (depth + 1) source session) := by
  cases hparse : Statement.parseAll source with
  | error error =>
    simp only [Session.run, runEvents, hparse]
    exact .unread hparse
  | ok statements =>
    obtain ⟨listed, hlist⟩ | ⟨cause, listed, hlist⟩ := printListing_cases statements session
    · have hlisted : listed.calls = session.calls ∧ Flat listed.machine :=
        hflat.printListing (congrArg final? hlist)
      have hends := hlisted.2.execute_ne_exhausted depth statements
      simp only [Session.run, runEvents, hparse, hlist, Outcome.andThen]
      exact .executed hparse hlisted (run_of_execute _ _ _ _ hends)
    · have hlisted : listed.calls = session.calls ∧ Flat listed.machine :=
        hflat.printListing (congrArg final? hlist)
      simp only [Session.run, runEvents, hparse, hlist, Outcome.andThen, Outcome.mapError]
      exact .unlisted hparse hlisted

section FlatRun

variable {source : String} {session : Session δ} {outcome : Outcome RunError (Session δ)}
  {history : List (Event (Services δ))}

lemma FlatRun.ne_exhausted (hrun : FlatRun source session outcome history) :
    outcome ≠ .exhausted := by
  cases hrun with
  | unread => simp
  | unlisted => simp
  | @executed statements listed history result _ _ hrun =>
    have hends := hrun.endsIn.1
    cases result with
    | exhausted => exact absurd rfl hends
    | _ => simp [Outcome.map, Outcome.mapError]

lemma FlatRun.ne_tooDeep (hrun : FlatRun source session outcome history) {failure : Failure}
    {final : Session δ} (hfail : outcome = .failed (.failed failure) final) (limit : Nat) :
    failure.fault ≠ .tooDeep limit := by
  cases hrun with
  | unread => cases hfail
  | unlisted =>
    cases hfail
    nofun
  | @executed statements listed history result _ hlisted hrun =>
    cases result with
    | failed raw after =>
      cases hfail
      exact hrun.ne_tooDeep_of_flat hlisted.2 limit
    | _ => cases hfail

lemma FlatRun.starts (hrun : FlatRun source session outcome history) {statements : List Statement}
    (hparse : Statement.parseAll source = .ok statements) :
    (Proofs.starts history).map Prod.fst <+: statements ∧
      ∀ final, outcome = .done final → (Proofs.starts history).map Prod.fst = statements := by
  cases hrun with
  | unread herror => simp [hparse] at herror
  | unlisted => simp
  | @executed statements listed history result hparse' hlisted hrun =>
    cases hparse.symm.trans hparse'
    obtain ⟨hstarted, hall⟩ := hrun.starts_of_flat hlisted.2
    refine ⟨hstarted, fun final hdone => ?_⟩
    cases result with
    | done after => exact hall after rfl
    | _ => cases hdone

lemma FlatRun.calls (hrun : FlatRun source session outcome history) :
    ∀ event ∈ history, ∀ calls ∈ callsAt event, calls = session.calls := by
  cases hrun with
  | unread => simp
  | unlisted => simp
  | executed _ hlisted hrun =>
    intro event hmem calls hat
    exact (hrun.calls_of_flat hlisted.2 event hmem calls hat).trans hlisted.1

lemma FlatRun.final (hrun : FlatRun source session outcome history) (hflat : Flat session.machine)
    {final : Session δ} (hfinal : final? outcome = some final) :
    final.calls = session.calls ∧ Flat final.machine := by
  cases hrun with
  | unread =>
    cases hfinal
    exact ⟨rfl, hflat⟩
  | unlisted _ hlisted =>
    cases hfinal
    exact hlisted
  | @executed statements listed history result _ hlisted hrun =>
    have hkept := hrun.preserves_final (fun _ _ h => ⟨h.standard, h.noProcedure⟩) Act.flat hlisted.2
    have hleaves := hrun.leaves
    cases result with
    | done after =>
      cases hfinal
      exact ⟨hleaves.trans hlisted.1, hkept after rfl⟩
    | failed failure after =>
      cases hfinal
      exact ⟨hleaves.trans hlisted.1, hkept after rfl⟩
    | exhausted => cases hfinal

end FlatRun

omit [Device δ] in
lemma noProcedure_defineAll {env : Environment} {services : Services δ}
    (hnone : ∀ name procedure, env.get? name ≠ some (.procedure procedure))
    (library : List (String × Behavior)) :
    ∀ name procedure, (services.defineAll env library).1.get? name ≠
      some (.procedure procedure) := by
  induction library generalizing env services with
  | nil => exact hnone
  | cons entry rest ih =>
    refine ih fun other procedure hget => ?_
    change (env.assign entry.1 (.primitive ⟨entry.1, services.next⟩)).get? other =
      some (.procedure procedure) at hget
    rw [get?_assign] at hget
    split at hget
    · cases hget
    · exact hnone other procedure hget

omit [Device δ] in
/-- A new session with the standard library has no procedures. -/
lemma flat_defineStandard (sink : Sink δ) : Flat (Session.new sink).defineStandard.machine := by
  refine ⟨standardPrimitives_defineStandard sink, ?_⟩
  have hempty : ∀ name procedure,
      (Session.new sink).env.get? name ≠ some (.procedure procedure) := by
    intro name procedure hget
    cases hget
  exact noProcedure_defineAll hempty Services.standardLibrary

/-- Where no variable holds a procedure and every primitive is of the standard library, each source
text runs to an end, under any limit on active calls: it starts its statements in order, each at
most once and each once if it ends well; no call is ever active; it does not fail for a limit; and
it leaves no procedure behind. So every program ends that is run from a file. -/
theorem programs_without_procedures_end (δ : Type) [Device δ] (depth : Nat) :
    (∀ (session : Session δ) (source : String), session.calls.depth = 0 → Flat session.machine →
      session.run (depth + 1) source ≠ .exhausted ∧
      (∀ statements, Statement.parseAll source = .ok statements →
        (starts (runEvents (depth + 1) source session)).map Prod.fst <+: statements ∧
        ∀ final, session.run (depth + 1) source = .done final →
          (starts (runEvents (depth + 1) source session)).map Prod.fst = statements) ∧
      (∀ event ∈ runEvents (depth + 1) source session, ∀ calls ∈ callsAt event,
        calls.depth = 0) ∧
      (∀ failure final, session.run (depth + 1) source = .failed (.failed failure) final →
        ∀ limit, failure.fault ≠ .tooDeep limit) ∧
      (∀ final, final? (session.run (depth + 1) source) = some final →
        final.calls.depth = 0 ∧ Flat final.machine)) ∧
    (∀ (read : Reader) (path : String) (debug : Bool) (sink : Sink δ),
      runFile (depth + 1) read path debug sink ≠ .exhausted ∧
      ∀ failure final, runFile (depth + 1) read path debug sink =
        .failed (.program (.failed failure)) final → ∀ limit, failure.fault ≠ .tooDeep limit) := by
  constructor
  · intro session source hidle hflat
    have hrun := hflat.flatRun depth source
    refine ⟨hrun.ne_exhausted, fun statements hparse => hrun.starts hparse, ?_,
      fun failure final hfail => hrun.ne_tooDeep hfail, ?_⟩
    · intro event hmem calls hat
      rw [hrun.calls event hmem calls hat, hidle]
    · intro final hfinal
      obtain ⟨hcalls, hflat⟩ := hrun.final hflat hfinal
      exact ⟨by rw [hcalls, hidle], hflat⟩
  · intro read path debug sink
    unfold runFile
    cases read path with
    | error fault => simp
    | ok source =>
      have hflat : Flat { (Session.new sink).defineStandard with debug }.machine :=
        flat_defineStandard sink
      have hrun := hflat.flatRun depth source
      cases hout : { (Session.new sink).defineStandard with debug }.run (depth + 1) source with
      | done final => simp [hout, Outcome.mapError, Outcome.map]
      | failed error final =>
        refine ⟨by simp [hout, Outcome.mapError, Outcome.map], ?_⟩
        rintro failure after hfail
        simp only [hout, Outcome.mapError, Outcome.map, Outcome.failed.injEq,
          CommandError.program.injEq] at hfail
        obtain ⟨rfl, -⟩ := hfail
        exact hrun.ne_tooDeep hout
      | exhausted => exact absurd hout hrun.ne_exhausted

/-- A program that calls through a variable, stores a list there, copies it and calls that. -/
def indirectSource : String :=
  "var f println; $f hi\nvars f; var g $f; g"

def standardSession : Session :=
  (Session.new (.buffer "")).defineStandard

theorem programs_without_procedures_end_indirect :
    (∃ statements final,
      Statement.parseAll indirectSource = .ok statements ∧ statements.length = 5 ∧
      standardSession.run 1 indirectSource =
        .failed (.failed ⟨.notCallable "g", some "g"⟩) final ∧
      final.services.sink = .buffer "hi\n" ∧
      (starts (runEvents 1 indirectSource standardSession)).map Prod.fst <+: statements ∧
      (∀ event ∈ runEvents 1 indirectSource standardSession,
        ∀ calls ∈ callsAt event, calls.depth = 0) ∧
      Flat final.machine) ∧
    runFile 1 (fun _ => .ok indirectSource) "p" false (.buffer "" : Sink) =
      .failed (.program (.failed ⟨.notCallable "g", some "g"⟩)) (.buffer "hi\n") ∧
    runFile 1 (fun _ => .ok indirectSource) "p" false (.buffer "" : Sink) ≠ .exhausted ∧
    ∀ limit, Fault.notCallable "g" ≠ .tooDeep limit := by
  have hparse : ∃ statements,
      Statement.parseAll indirectSource = .ok statements ∧ statements.length = 5 :=
    ⟨_, rfl, rfl⟩
  have hrun : ∃ final, standardSession.run 1 indirectSource =
      .failed (.failed ⟨.notCallable "g", some "g"⟩) final :=
    ⟨_, rfl⟩
  have hprinted : (final? (standardSession.run 1 indirectSource)).map
      (fun final => final.services.sink) = some (.buffer "hi\n") := by
    decide +kernel
  have hfile : runFile 1 (fun _ => .ok indirectSource) "p" false (.buffer "" : Sink) =
      .failed (.program (.failed ⟨.notCallable "g", some "g"⟩)) (.buffer "hi\n") := by
    decide +kernel
  obtain ⟨statements, hparse, hlength⟩ := hparse
  obtain ⟨final, hrun⟩ := hrun
  obtain ⟨hsessions, hfiles⟩ := programs_without_procedures_end Writer 0
  obtain ⟨-, hstarts, hcalls, -, hfinal⟩ :=
    hsessions standardSession indirectSource rfl (flat_defineStandard _)
  obtain ⟨hends, hlimits⟩ := hfiles (fun _ => .ok indirectSource) "p" false (.buffer "")
  have hflat := (hfinal final (congrArg final? hrun)).2
  rw [hrun] at hprinted
  exact ⟨⟨statements, final, hparse, hlength, hrun, Option.some.inj hprinted,
    (hstarts statements hparse).1, hcalls, hflat⟩, hfile, hends, hlimits _ _ hfile⟩

end LineScript.Proofs
