import LineScript.Proofs.CallLimit

/-!
# Where a run fails

A run that fails does so in the last statement that was started, however deep in procedures that
statement stands. `Run.exists_failureSite` says what comes of this failure on its way out: the
statement is attached to it once, the active calls are given back, and nothing else is touched.
What is true of every failure is read off from the action that failed.
-/

namespace LineScript.Proofs

variable {σ : Type}

/-- A place where a run fails: `statement`, started in `started`, fails with `raw` and leaves
`after`. -/
structure FailureSite (σ : Type) where
  statement : Statement
  started : Machine σ
  seen : List (Event σ)
  raw : Failure
  after : Machine σ

/-- The run from `machine` with this history fails at the site. It ends in the failure there, with
the statement attached, and in the machine there, with the calls of the run. -/
structure FailureSite.Of (site : FailureSite σ) (host : Host σ) (machine : Machine σ)
    (history : List (Event σ)) (failure : Failure) (final : Machine σ) : Prop where
  last : (starts history).getLast? = some (site.statement, site.started)
  act : Act host site.statement site.started site.seen (.failed site.raw site.after)
  seen_subset : site.seen ⊆ history
  failure_eq : failure = site.raw.attach site.statement.source
  final_eq : final = withCalls machine.calls site.after
  settled_eq : withCalls site.started.calls (settled machine history) = site.started

lemma attach_isSome (failure : Failure) (source : String) :
    (failure.attach source).statement.isSome := by
  cases h : failure.statement <;> simp [Failure.attach, h]

lemma attach_of_isSome {failure : Failure} (h : failure.statement.isSome) (source : String) :
    failure.attach source = failure := by
  obtain ⟨fault, statement⟩ := failure
  cases statement with
  | none => simp at h
  | some inner => rfl

lemma settled_withCalls (calls other : ActiveCalls) (machine : Machine σ)
    (history : List (Event σ)) :
    withCalls calls (settled (withCalls other machine) history) =
      withCalls calls (settled machine history) := by
  induction history generalizing machine with
  | nil => rfl
  | cons event rest ih =>
    cases event with
    | finish statement before after => rfl
    | _ => exact ih machine

lemma Act.starts_seen {host : Host σ} {statement : Statement} {machine : Machine σ}
    {seen : List (Event σ)} {outcome : Outcome Failure (Machine σ)}
    (hact : Act host statement machine seen outcome) : starts seen = [] := by
  cases hact with
  | primitive => exact starts_replyEvents _
  | _ => rfl

lemma Act.settled_seen {host : Host σ} {statement : Statement} {machine : Machine σ}
    {seen : List (Event σ)} {outcome : Outcome Failure (Machine σ)}
    (hact : Act host statement machine seen outcome) (before : Machine σ) :
    settled before seen = before := by
  cases hact with
  | primitive => exact settled_replyEvents _ _
  | _ => rfl

/-- Every run that fails does so in the last statement that was started. -/
theorem Run.exists_failureSite {host : Host σ} {statements : List Statement}
    {machine final : Machine σ} {history : List (Event σ)} {failure : Failure}
    (hrun : Run host statements machine history (.failed failure final)) :
    ∃ site : FailureSite σ, site.Of host machine history failure final := by
  generalize houtcome : Outcome.failed failure final = outcome at hrun
  induction hrun generalizing failure final with
  | nil => cases houtcome
  | @act statement rest machine next seen history outcome hact _ ih =>
    obtain ⟨site, hsite⟩ := ih houtcome
    have hcalls : next.calls = machine.calls := hact.leaves
    refine ⟨site, { hsite with last := ?_, seen_subset := ?_, final_eq := ?_, settled_eq := ?_ }⟩
    · simp [hact.starts_seen, List.getLast?_cons, hsite.last]
    · intro event hmem
      simp [hsite.seen_subset hmem]
    · rw [hsite.final_eq, hcalls]
    · rw [settled_append]
      exact hsite.settled_eq
  | @actFail statement rest machine after seen raw hact =>
    cases houtcome
    have hcalls : after.calls = machine.calls := hact.leaves
    refine ⟨⟨statement, machine, seen, raw, after⟩, ?_, hact, ?_, rfl, ?_, ?_⟩
    · simp [hact.starts_seen]
    · exact List.subset_cons_self _ _
    · rw [← hcalls]
      rfl
    · change withCalls machine.calls (settled machine seen) = machine
      rw [hact.settled_seen]
      rfl
  | @call statement rest machine next procedure calls inner history outcome _ hpush hbody _ _ ih =>
    obtain ⟨rfl, -⟩ := (push_eq_ok_iff _ _ _).1 hpush
    have hcalls : next.calls = machine.calls.enter procedure.name := hbody.leaves
    obtain ⟨site, hsite⟩ := ih houtcome
    refine ⟨site, { hsite with last := ?_, seen_subset := ?_, final_eq := ?_, settled_eq := ?_ }⟩
    · simp [List.getLast?_cons, List.getLast?_append, hsite.last]
    · intro event hmem
      simp [hsite.seen_subset hmem]
    · rw [hsite.final_eq, hcalls, ActiveCalls.pop_enter]
    · rw [settled_append]
      exact hsite.settled_eq
  | @callFail statement rest machine next procedure calls inner raw _ hpush hbody ih =>
    cases houtcome
    obtain ⟨rfl, -⟩ := (push_eq_ok_iff _ _ _).1 hpush
    -- The site is that of the body: its failure names a statement, so the call attaches nothing.
    obtain ⟨site, hsite⟩ := ih rfl
    refine ⟨site, { hsite with
      last := ?_, seen_subset := ?_, failure_eq := ?_, final_eq := ?_, settled_eq := ?_ }⟩
    · simp [List.getLast?_cons, hsite.last]
    · intro event hmem
      simp [hsite.seen_subset hmem]
    · rw [hsite.failure_eq, attach_of_isSome (attach_isSome _ _)]
    · rw [hsite.final_eq]
      simp only [withCalls, ActiveCalls.pop_enter]
    · rw [settled_append]
      change withCalls site.started.calls (settled machine inner) = site.started
      exact (settled_withCalls _ _ machine inner).symm.trans hsite.settled_eq

/-! ### What the failing action says -/

lemma bind_eq_error {ε α β : Type} {first : Except ε α} {next : α → Except ε β} {error : ε}
    (h : first >>= next = .error error) :
    first = .error error ∨ ∃ value, first = .ok value ∧ next value = .error error := by
  cases first with
  | error other =>
    cases h
    exact .inl rfl
  | ok value => exact .inr ⟨value, rfl, h⟩

lemma eval_ne_tooDeep {expression : Expression} {env : Environment} {fault : Fault}
    (h : expression.eval env = .error fault) (limit : Nat) : fault ≠ .tooDeep limit := by
  unfold Expression.eval at h
  split at h
  · cases h
  · split at h
    · cases h
    · cases h
      simp

lemma evalName_ne_tooDeep {expression : Expression} {env : Environment} {fault : Fault}
    (h : expression.evalName env = .error fault) (limit : Nat) : fault ≠ .tooDeep limit := by
  unfold Expression.evalName at h
  split at h
  · cases h
  · cases h
    simp
  · rename_i heval
    cases h
    exact eval_ne_tooDeep heval limit

lemma evalTarget_ne_tooDeep {expression : Expression} {env : Environment} {fault : Fault}
    (h : expression.evalTarget env = .error fault) (limit : Nat) : fault ≠ .tooDeep limit := by
  unfold Expression.evalTarget at h
  split at h
  · split at h
    · exact evalName_ne_tooDeep h limit
    · cases h
  · exact evalName_ne_tooDeep h limit

lemma assignment_ne_tooDeep {expressions : List Expression} {env : Environment} {fault : Fault}
    (h : assignment expressions env = .error fault) (limit : Nat) : fault ≠ .tooDeep limit := by
  unfold assignment at h
  split at h
  · obtain hname | ⟨name, -, hrest⟩ := bind_eq_error h
    · exact evalTarget_ne_tooDeep hname limit
    · obtain hvalue | ⟨value, -, hdone⟩ := bind_eq_error hrest
      · exact eval_ne_tooDeep hvalue limit
      · cases hdone
  · split at h <;> cases h <;> simp

lemma callee_ne_tooDeep {expressions : List Expression} {env : Environment} {fault : Fault}
    (h : callee expressions env = .error fault) (limit : Nat) : fault ≠ .tooDeep limit := by
  unfold callee at h
  split at h
  · cases h
    simp
  · obtain hname | ⟨name, -, hrest⟩ := bind_eq_error h
    · exact evalName_ne_tooDeep hname limit
    · split at hrest <;> cases hrest <;> simp

/-- An action that fails names no statement, unless a primitive has given its failure. -/
lemma Act.statement_eq_none_or_reply {host : Host σ} {statement : Statement}
    {machine after : Machine σ} {seen : List (Event σ)} {raw : Failure}
    (hact : Act host statement machine seen (.failed raw after)) :
    raw.statement = none ∨ Event.reply (.error raw) ∈ seen := by
  cases hact with
  | primitive => exact .inr List.mem_cons_self
  | _ => exact .inl rfl

/-- An action fails for the limit at a call that the limit refuses, unless a primitive has given
its failure. -/
lemma Act.refused_or_reply {host : Host σ} {statement : Statement} {machine after : Machine σ}
    {seen : List (Event σ)} {raw : Failure} {limit : Nat}
    (hact : Act host statement machine seen (.failed raw after))
    (hfault : raw.fault = .tooDeep limit) :
    (∃ procedure, Enters statement machine.env procedure ∧
      machine.calls.push procedure.name = .error (.tooDeep limit)) ∨
    Event.reply (.error raw) ∈ seen := by
  cases hact with
  | misassign _ hassign => exact absurd hfault (assignment_ne_tooDeep hassign limit)
  | operator => cases hfault
  | uncallable _ hcallee => exact absurd hfault (callee_ne_tooDeep hcallee limit)
  | refuse henters hpush =>
    cases hfault
    exact .inl ⟨_, henters, hpush⟩
  | primitive => exact .inr List.mem_cons_self

lemma attach_fault (failure : Failure) (source : String) :
    (failure.attach source).fault = failure.fault := rfl

lemma attach_statement_of_eq_none {failure : Failure} (h : failure.statement = none)
    (source : String) : (failure.attach source).statement = some source := by
  simp [Failure.attach, h]

/-- If the primitives that a run calls attach no statement to their failures, a run that fails
names the last statement that was started, at whatever depth of calls. If it fails for the limit
and no primitive gave that fault, this is the call that the limit refused. -/
theorem failure_names_last_started (host : Host σ) (depth : Nat) (statements : List Statement)
    (machine final : Machine σ) (failure : Failure)
    (hfail : execute host depth statements machine = .failed failure final)
    (hplain : ∀ raw, Event.reply (.error raw) ∈ events host depth statements machine →
      raw.statement = none) :
    ∃ statement started,
      (starts (events host depth statements machine)).getLast? = some (statement, started) ∧
      failure.statement = some statement.source ∧
      ∀ limit, failure.fault = .tooDeep limit →
        (∀ raw, Event.reply (.error raw) ∈ events host depth statements machine →
          raw.fault ≠ .tooDeep limit) →
        ∃ procedure, Enters statement started.env procedure ∧
          started.calls.push procedure.name = .error (.tooDeep limit) := by
  have hrun := run_of_execute host depth statements machine (by simp [hfail])
  rw [hfail] at hrun
  obtain ⟨site, hsite⟩ := hrun.exists_failureSite
  refine ⟨site.statement, site.started, hsite.last, ?_, fun limit hfault hreplies => ?_⟩
  · have hraw : site.raw.statement = none :=
      hsite.act.statement_eq_none_or_reply.elim id fun hreply =>
        hplain _ (hsite.seen_subset hreply)
    rw [hsite.failure_eq, attach_statement_of_eq_none hraw]
  · rw [hsite.failure_eq, attach_fault] at hfault
    obtain hrefused | hreply := hsite.act.refused_or_reply hfault
    · exact hrefused
    · exact absurd hfault (hreplies _ (hsite.seen_subset hreply))

/-- Here `f` calls `g`, which calls a primitive that fails, under a limit of two calls. -/
def failingCalls : Machine Services :=
  ⟨.idle (some 2), ((Environment.empty.assign "f" (.procedure ⟨"f", [callOf "g"]⟩)).assign "g"
    (.procedure ⟨"g", [callOf "fail"]⟩)).assign "fail" (.primitive ⟨"fail", 0⟩),
    (({} : Services).register "fail" (.fail "boom" none)).2⟩

/-- The failure of the primitive names its call. A run that the limit of one call cuts names the call
that was refused. -/
theorem failure_names_last_started_nested :
    (execute Services.reply 3 [callOf "f"] failingCalls =
        .failed ⟨.host "boom", some "fail"⟩ failingCalls ∧
      ∃ statement started,
        (starts (events Services.reply 3 [callOf "f"] failingCalls)).getLast? =
          some (statement, started) ∧
        some "fail" = some statement.source) ∧
    execute Services.reply 2 [callOf "f"] (nestedMachine (some 1)) =
      .failed ⟨.tooDeep 1, some "g"⟩ (nestedMachine (some 1)) ∧
    ∃ started,
      (starts (events Services.reply 2 [callOf "f"] (nestedMachine (some 1)))).getLast? =
        some (callOf "g", started) ∧
      ∃ procedure, Enters (callOf "g") started.env procedure ∧
        started.calls.push procedure.name = .error (.tooDeep 1) := by
  have hfail : execute Services.reply 3 [callOf "f"] failingCalls =
      .failed ⟨.host "boom", some "fail"⟩ failingCalls := rfl
  have hevents : events Services.reply 3 [callOf "f"] failingCalls =
      let one := failingCalls.calls.enter "f"
      let two := one.enter "g"
      [.start (callOf "f") failingCalls, .enter one,
        .start (callOf "g") (withCalls one failingCalls), .enter two,
        .start (callOf "fail") (withCalls two failingCalls),
        .reply (.error { fault := .host "boom" }), .leave two, .leave one] := rfl
  have hcut : execute Services.reply 2 [callOf "f"] (nestedMachine (some 1)) =
      .failed ⟨.tooDeep 1, some "g"⟩ (nestedMachine (some 1)) := rfl
  have hreplies : ∀ raw, Event.reply (.error raw) ∉
      events Services.reply 2 [callOf "f"] (nestedMachine (some 1)) := by
    have hcutEvents : events Services.reply 2 [callOf "f"] (nestedMachine (some 1)) =
        let one := (nestedMachine (some 1)).calls.enter "f"
        [.start (callOf "f") (nestedMachine (some 1)), .enter one,
          .start (callOf "g") (withCalls one (nestedMachine (some 1))), .leave one] := rfl
    simp [hcutEvents]
  constructor
  · obtain ⟨statement, started, hlast, hsource, -⟩ :=
      failure_names_last_started _ _ _ _ _ _ hfail fun raw hmem => by
        simp only [hevents, List.mem_cons, reduceCtorEq, Event.reply.injEq, Except.error.injEq,
          List.not_mem_nil, or_false, false_or] at hmem
        rw [hmem]
    exact ⟨hfail, statement, started, hlast, hsource⟩
  · obtain ⟨statement, started, hlast, -, hrefused⟩ := failure_names_last_started _ _ _ _ _ _ hcut
      fun raw hmem => absurd hmem (hreplies raw)
    have hrefused := hrefused 1 rfl fun raw hmem => absurd hmem (hreplies raw)
    obtain rfl : callOf "g" = statement := congrArg Prod.fst (Option.some.inj hlast)
    exact ⟨hcut, started, hlast, hrefused⟩

end LineScript.Proofs
