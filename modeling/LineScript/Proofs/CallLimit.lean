import LineScript.Proofs.Runs
import LineScript.Services.Reply

/-!
# The limit on active calls

The active calls decide nothing but whether a procedure may be entered, and every run that ends
leaves them as it found them. So a run can be moved to other calls (`Run.move`): it stays the same
as long as there is room for all its entries, and without that room it is cut off at the first
entry that finds none. Nothing is assumed of the primitives.
-/

namespace LineScript.Proofs

variable {σ : Type}

/-! ### Active calls under a run -/

lemma push_eq_ok_iff (calls entered : ActiveCalls) (name : String) :
    calls.push name = .ok entered ↔
      entered = calls.enter name ∧ ∀ limit, calls.limit = some limit → calls.depth < limit := by
  unfold ActiveCalls.push
  cases hlimit : calls.limit with
  | none => simp [eq_comm]
  | some limit =>
    by_cases hle : limit ≤ calls.depth
    · simp [hle]
    · simp only [hle, ite_false, Except.ok.injEq, Option.some.injEq, forall_eq']
      constructor
      · rintro rfl
        exact ⟨rfl, by omega⟩
      · rintro ⟨rfl, -⟩
        rfl

lemma push_eq_error_iff (calls : ActiveCalls) (name : String) (fault : Fault) :
    calls.push name = .error fault ↔
      ∃ limit, calls.limit = some limit ∧ limit ≤ calls.depth ∧ fault = .tooDeep limit := by
  unfold ActiveCalls.push
  cases hlimit : calls.limit with
  | none => simp
  | some limit =>
    by_cases hle : limit ≤ calls.depth
    · simp [hle, eq_comm]
    · simp [hle]

@[simp] lemma enter_depth (calls : ActiveCalls) (name : String) :
    (calls.enter name).depth = calls.depth + 1 := rfl

@[simp] lemma enter_limit (calls : ActiveCalls) (name : String) :
    (calls.enter name).limit = calls.limit := rfl

@[simp] lemma idle_depth (limit : Option Nat) : (ActiveCalls.idle limit).depth = 0 := rfl

@[simp] lemma idle_limit (limit : Option Nat) : (ActiveCalls.idle limit).limit = limit := rfl

/-- The machine with other active calls. -/
def withCalls (calls : ActiveCalls) (machine : Machine σ) : Machine σ :=
  { machine with calls }

/-- The outcome leaves these calls active. -/
def Leaves (calls : ActiveCalls) : Outcome Failure (Machine σ) → Prop
  | .done machine => machine.calls = calls
  | .failed _ machine => machine.calls = calls
  | .exhausted => True

lemma leaves_settle (run : Runner σ) (calls : ActiveCalls) (reply : Reply σ) :
    Leaves calls (settle run calls reply) := by
  induction reply with
  | finish result env host =>
    cases result <;> rfl
  | execute limit statements env host resume ih =>
    simp only [settle]
    cases run statements ⟨.idle limit, env, host⟩ with
    | done machine => exact ih _ _ _
    | failed failure machine => exact ih _ _ _
    | exhausted => trivial

lemma Act.leaves {host : Host σ} {statement : Statement} {machine : Machine σ}
    {seen : List (Event σ)} {outcome : Outcome Failure (Machine σ)}
    (hact : Act host statement machine seen outcome) : Leaves machine.calls outcome := by
  cases hact with
  | primitive _ _ hsettle =>
    rw [← hsettle]
    exact leaves_settle _ _ _
  | _ => rfl

/-- The calls that are active after a run are those that were active before it. -/
theorem Run.leaves {host : Host σ} {statements : List Statement} {machine : Machine σ}
    {history : List (Event σ)} {outcome : Outcome Failure (Machine σ)}
    (hrun : Run host statements machine history outcome) : Leaves machine.calls outcome := by
  induction hrun with
  | nil => rfl
  | @act statement rest machine after seen history outcome hact _ ih =>
    have hcalls : after.calls = machine.calls := hact.leaves
    rwa [hcalls] at ih
  | actFail hact => exact hact.leaves
  | @call statement rest machine after procedure entered inner history outcome _ hpush _ _ ihbody
      ihtail =>
    obtain ⟨rfl, -⟩ := (push_eq_ok_iff _ _ _).1 hpush
    have hcalls : after.calls = machine.calls.enter procedure.name := ihbody
    rwa [hcalls, ActiveCalls.pop_enter] at ihtail
  | @callFail statement rest machine after procedure entered inner failure _ hpush _ ihbody =>
    obtain ⟨rfl, -⟩ := (push_eq_ok_iff _ _ _).1 hpush
    have hcalls : after.calls = machine.calls.enter procedure.name := ihbody
    change after.calls.pop = machine.calls
    rw [hcalls, ActiveCalls.pop_enter]

lemma EndsIn.leaves {host : Host σ} {statements : List Statement} {machine : Machine σ}
    {outcome : Outcome Failure (Machine σ)} (hends : EndsIn host statements machine outcome) :
    Leaves machine.calls outcome := by
  obtain ⟨history, hrun⟩ := (endsIn_iff_run _ _ _ _).1 hends
  exact hrun.leaves

lemma EndsIn.enter {host : Host σ} {statement : Statement} {rest : List Statement}
    {machine after : Machine σ} {procedure : Procedure} {outcome : Outcome Failure (Machine σ)}
    (henters : Enters statement machine.env procedure)
    (hpush : machine.calls.push procedure.name = .ok (machine.calls.enter procedure.name))
    (hbody : EndsIn host procedure.body
      (withCalls (machine.calls.enter procedure.name) machine) (.done after))
    (htail : EndsIn host rest (withCalls machine.calls after) outcome) :
    EndsIn host (statement :: rest) machine outcome := by
  have hcalls : after.calls = machine.calls.enter procedure.name := hbody.leaves
  refine .call henters hpush hbody ?_
  rwa [hcalls, ActiveCalls.pop_enter]

lemma EndsIn.enterFail {host : Host σ} {statement : Statement} {rest : List Statement}
    {machine after : Machine σ} {procedure : Procedure} {failure : Failure}
    (henters : Enters statement machine.env procedure)
    (hpush : machine.calls.push procedure.name = .ok (machine.calls.enter procedure.name))
    (hbody : EndsIn host procedure.body
      (withCalls (machine.calls.enter procedure.name) machine) (.failed failure after)) :
    EndsIn host (statement :: rest) machine
      (.failed (failure.attach statement.source) (withCalls machine.calls after)) := by
  have hcalls : after.calls = machine.calls.enter procedure.name := hbody.leaves
  have hends : EndsIn host (statement :: rest) machine _ := .callFail henters hpush hbody
  rwa [hcalls, ActiveCalls.pop_enter] at hends

lemma EndsIn.refuse {host : Host σ} {statement : Statement} {rest : List Statement}
    {machine : Machine σ} {procedure : Procedure} {limit : Nat}
    (henters : Enters statement machine.env procedure)
    (hlimit : machine.calls.limit = some limit) (hfull : limit ≤ machine.calls.depth) :
    EndsIn host (statement :: rest) machine
      (.failed (({ fault := .tooDeep limit } : Failure).attach statement.source) machine) :=
  .actFail (.refuse henters ((push_eq_error_iff _ _ _).2 ⟨limit, hlimit, hfull, rfl⟩))

/-- The run fails because of a limit on active calls. -/
def TooDeep : Outcome Failure (Machine σ) → Prop
  | .failed failure _ => ∃ limit, failure.fault = .tooDeep limit
  | _ => False

/-! ### Moving a run to other calls -/

/-- `calls` have room for every entry of a run that started with `base` active. -/
def Fits (base calls : ActiveCalls) : List (Event σ) → Prop
  | [] => True
  | .enter entered :: rest =>
    (∀ limit, calls.limit = some limit → entered.depth + calls.depth ≤ limit + base.depth) ∧
      Fits base calls rest
  | .start _ _ :: rest => Fits base calls rest
  | .reply _ :: rest => Fits base calls rest
  | .leave _ :: rest => Fits base calls rest
  | .finish _ _ _ :: rest => Fits base calls rest

@[simp] lemma fits_append (base calls : ActiveCalls) (first second : List (Event σ)) :
    Fits base calls (first ++ second) ↔ Fits base calls first ∧ Fits base calls second := by
  induction first with
  | nil => simp [Fits]
  | cons event rest ih =>
    cases event <;> simp [Fits, ih, and_assoc]

@[simp] lemma fits_enter (base calls : ActiveCalls) (name other : String)
    (history : List (Event σ)) :
    Fits (base.enter name) (calls.enter other) history ↔ Fits base calls history := by
  induction history with
  | nil => rfl
  | cons event rest ih =>
    cases event with
    | enter entered =>
      simp only [Fits, ih, enter_limit, enter_depth]
      constructor
      all_goals
        rintro ⟨hroom, hrest⟩
        refine ⟨fun limit hlimit => ?_, hrest⟩
        have := hroom limit hlimit
        omega
    | _ => exact ih

lemma fits_of_limit_eq_none {base calls : ActiveCalls} (hlimit : calls.limit = none)
    (history : List (Event σ)) : Fits base calls history := by
  induction history with
  | nil => trivial
  | cons event rest ih =>
    cases event <;> simp [Fits, ih, hlimit]

/-- Idle calls have room for a run up to its peak. -/
lemma fits_idle_iff (base : Option Nat) (limit : Nat) (history : List (Event σ)) :
    Fits (.idle base) (.idle (some limit)) history ↔ peak history ≤ limit := by
  induction history with
  | nil => simp [Fits, peak]
  | cons event rest ih =>
    cases event <;> simp [Fits, peak, ih]

lemma Act.fits {host : Host σ} {statement : Statement} {machine : Machine σ}
    {seen : List (Event σ)} {outcome : Outcome Failure (Machine σ)}
    (hact : Act host statement machine seen outcome) (base calls : ActiveCalls) :
    Fits base calls seen := by
  cases hact with
  | primitive => unfold replyEvents; split <;> trivial
  | _ => trivial

lemma settle_withCalls (run : Runner σ) (calls other : ActiveCalls) (reply : Reply σ) :
    settle run other reply = (settle run calls reply).map (withCalls other) := by
  induction reply with
  | finish result env host =>
    cases result <;> rfl
  | execute limit statements env host resume ih =>
    simp only [settle]
    cases run statements ⟨.idle limit, env, host⟩ with
    | done machine => exact ih _ _ _
    | failed failure machine => exact ih _ _ _
    | exhausted => rfl

lemma map_eq_exhausted_iff (f : Machine σ → Machine σ) (outcome : Outcome Failure (Machine σ)) :
    outcome.map f = .exhausted ↔ outcome = .exhausted := by
  cases outcome <;> simp [Outcome.map]

lemma replyEvents_map (f : Machine σ → Machine σ) (outcome : Outcome Failure (Machine σ)) :
    replyEvents (outcome.map f) = replyEvents outcome := by
  cases outcome <;> rfl

/-- An action that no limit forbids is the same under all calls. -/
lemma Act.move {host : Host σ} {statement : Statement} {machine : Machine σ}
    {seen : List (Event σ)} {outcome : Outcome Failure (Machine σ)}
    (hact : Act host statement machine seen outcome)
    (hfree : machine.calls.limit = none ∨ ¬TooDeep outcome) (calls : ActiveCalls) :
    Act host statement (withCalls calls machine) seen (outcome.map (withCalls calls)) := by
  cases hact with
  | assign hkind hassign => exact .assign hkind hassign
  | misassign hkind hassign => exact .misassign hkind hassign
  | operator hkind => exact .operator hkind
  | uncallable hkind hcallee => exact .uncallable hkind hcallee
  | refuse henters hpush =>
    obtain ⟨limit, hlimit, -, rfl⟩ := (push_eq_error_iff _ _ _).1 hpush
    rcases hfree with hnone | hdeep
    · simp [hnone] at hlimit
    · exact absurd ⟨limit, rfl⟩ hdeep
  | @primitive primitive arguments depth outcome hkind hcallee hsettle hends =>
    have hmoved := settle_withCalls (execute host depth) machine.calls calls
      (host primitive arguments machine.env machine.host)
    rw [hsettle] at hmoved
    rw [← replyEvents_map (withCalls calls)]
    exact .primitive hkind hcallee hmoved (by rwa [Ne, map_eq_exhausted_iff])

lemma push_of_room {base calls : ActiveCalls} {name : String}
    (hroom : ∀ limit, calls.limit = some limit →
      (base.enter name).depth + calls.depth ≤ limit + base.depth) :
    calls.push name = .ok (calls.enter name) := by
  refine (push_eq_ok_iff _ _ _).2 ⟨rfl, fun limit hlimit => ?_⟩
  have := hroom limit hlimit
  simp only [enter_depth] at this
  omega

lemma room_of_not_full (base : ActiveCalls) {calls : ActiveCalls} (name : String) {limit : Nat}
    (hlimit : calls.limit = some limit) (hfull : ¬limit ≤ calls.depth) :
    ∀ other, calls.limit = some other →
      (base.enter name).depth + calls.depth ≤ other + base.depth := by
  intro other hother
  rw [hlimit, Option.some.injEq] at hother
  simp only [enter_depth]
  omega

/-- A run that no limit has stopped is the same under all calls that have room for it. -/
theorem Run.move {host : Host σ} {statements : List Statement} {machine : Machine σ}
    {history : List (Event σ)} {outcome : Outcome Failure (Machine σ)}
    (hrun : Run host statements machine history outcome)
    (hfree : machine.calls.limit = none ∨ ¬TooDeep outcome) (calls : ActiveCalls)
    (hfits : Fits machine.calls calls history) :
    EndsIn host statements (withCalls calls machine) (outcome.map (withCalls calls)) := by
  induction hrun generalizing calls with
  | nil => exact .nil
  | @act statement rest machine after seen history outcome hact _ ih =>
    have hcalls : after.calls = machine.calls := hact.leaves
    rw [hcalls] at ih
    simp only [Fits, List.cons_append, fits_append] at hfits
    exact .act (hact.move (.inr id) calls) (ih hfree calls hfits.2)
  | actFail hact => exact .actFail (hact.move hfree calls)
  | @call statement rest machine after procedure entered inner history outcome henters hpush
      hbody _ ihbody ihtail =>
    obtain ⟨rfl, -⟩ := (push_eq_ok_iff _ _ _).1 hpush
    have hcalls : after.calls = machine.calls.enter procedure.name := hbody.leaves
    rw [hcalls, ActiveCalls.pop_enter] at ihtail
    simp only [Fits, List.cons_append, fits_append] at hfits
    obtain ⟨hroom, hinner, htail⟩ := hfits
    exact .enter henters (push_of_room hroom)
      (ihbody (.inr id) (calls.enter procedure.name) ((fits_enter _ _ _ _ _).2 hinner))
      (ihtail hfree calls htail)
  | @callFail statement rest machine after procedure entered inner failure henters hpush hbody
      ihbody =>
    obtain ⟨rfl, -⟩ := (push_eq_ok_iff _ _ _).1 hpush
    simp only [Fits, List.cons_append, fits_append] at hfits
    obtain ⟨hroom, hinner, -⟩ := hfits
    have hbody' := ihbody hfree (calls.enter procedure.name) ((fits_enter _ _ _ _ _).2 hinner)
    have hends : EndsIn host (statement :: rest) (withCalls calls machine) _ :=
      .enterFail henters (push_of_room hroom) hbody'
    exact hends

/-- Where a run enters more procedures than the calls have room for, it is cut off. -/
theorem Run.cut {host : Host σ} {statements : List Statement} {machine : Machine σ}
    {history : List (Event σ)} {outcome : Outcome Failure (Machine σ)}
    (hrun : Run host statements machine history outcome)
    (hfree : machine.calls.limit = none ∨ ¬TooDeep outcome) (calls : ActiveCalls) {limit : Nat}
    (hlimit : calls.limit = some limit) (hover : ¬Fits machine.calls calls history) :
    ∃ failure after, EndsIn host statements (withCalls calls machine) (.failed failure after) ∧
      failure.fault = .tooDeep limit := by
  induction hrun generalizing calls with
  | nil => exact absurd trivial hover
  | @act statement rest machine after seen history outcome hact _ ih =>
    have hcalls : after.calls = machine.calls := hact.leaves
    rw [hcalls] at ih
    simp only [Fits, List.cons_append, fits_append, hact.fits, true_and] at hover
    obtain ⟨failure, final, hends, hfault⟩ := ih hfree calls hlimit hover
    exact ⟨failure, final, .act (hact.move (.inr id) calls) hends, hfault⟩
  | actFail hact => exact absurd (hact.fits _ _) hover
  | @call statement rest machine after procedure entered inner history outcome henters hpush
      hbody _ ihbody ihtail =>
    obtain ⟨rfl, -⟩ := (push_eq_ok_iff _ _ _).1 hpush
    have hcalls : after.calls = machine.calls.enter procedure.name := hbody.leaves
    rw [hcalls, ActiveCalls.pop_enter] at ihtail
    simp only [Fits, List.cons_append, fits_append] at hover
    by_cases hfull : limit ≤ calls.depth
    · exact ⟨_, _, .refuse henters hlimit hfull, rfl⟩
    · have hroom := room_of_not_full machine.calls procedure.name hlimit hfull
      -- The entry itself has room, so the cut lies in the body or, if the body fits, after it.
      by_cases hinner : Fits machine.calls calls inner
      · obtain ⟨failure, final, hends, hfault⟩ :=
          ihtail hfree calls hlimit fun htail => hover ⟨hroom, hinner, htail⟩
        have hbody' := hbody.move (.inr id) (calls.enter procedure.name)
          ((fits_enter _ _ _ _ _).2 hinner)
        exact ⟨failure, final, .enter henters (push_of_room hroom) hbody' hends, hfault⟩
      · obtain ⟨failure, final, hends, hfault⟩ :=
          ihbody (.inr id) (calls.enter procedure.name) hlimit (mt (fits_enter _ _ _ _ _).1 hinner)
        exact ⟨_, _, .enterFail henters (push_of_room hroom) hends, hfault⟩
  | @callFail statement rest machine after procedure entered inner failure henters hpush hbody
      ihbody =>
    obtain ⟨rfl, -⟩ := (push_eq_ok_iff _ _ _).1 hpush
    simp only [Fits, List.cons_append, fits_append, and_true] at hover
    by_cases hfull : limit ≤ calls.depth
    · exact ⟨_, _, .refuse henters hlimit hfull, rfl⟩
    · have hroom := room_of_not_full machine.calls procedure.name hlimit hfull
      have hinner : ¬Fits machine.calls calls inner := fun hinner => hover ⟨hroom, hinner⟩
      obtain ⟨failure, final, hends, hfault⟩ :=
        ihbody hfree (calls.enter procedure.name) hlimit (mt (fits_enter _ _ _ _ _).1 hinner)
      exact ⟨_, _, .enterFail henters (push_of_room hroom) hends, hfault⟩

/-- A run has room for its own entries. -/
theorem Run.fits {host : Host σ} {statements : List Statement} {machine : Machine σ}
    {history : List (Event σ)} {outcome : Outcome Failure (Machine σ)}
    (hrun : Run host statements machine history outcome) :
    Fits machine.calls machine.calls history := by
  induction hrun with
  | nil => trivial
  | @act statement rest machine after seen history outcome hact _ ih =>
    have hcalls : after.calls = machine.calls := hact.leaves
    rw [hcalls] at ih
    simp only [Fits, List.cons_append, fits_append]
    exact ⟨hact.fits _ _, ih⟩
  | actFail hact => exact hact.fits _ _
  | @call statement rest machine after procedure entered inner history outcome henters hpush
      hbody _ ihbody ihtail =>
    obtain ⟨rfl, hroom⟩ := (push_eq_ok_iff _ _ _).1 hpush
    have hcalls : after.calls = machine.calls.enter procedure.name := hbody.leaves
    rw [hcalls, ActiveCalls.pop_enter] at ihtail
    simp only [Fits, List.cons_append, fits_append, enter_depth]
    refine ⟨fun limit hlimit => ?_, (fits_enter _ _ _ _ _).1 ihbody, ihtail⟩
    have := hroom limit hlimit
    omega
  | @callFail statement rest machine after procedure entered inner failure henters hpush hbody
      ihbody =>
    obtain ⟨rfl, hroom⟩ := (push_eq_ok_iff _ _ _).1 hpush
    simp only [Fits, List.cons_append, fits_append, enter_depth]
    refine ⟨fun limit hlimit => ?_, (fits_enter _ _ _ _ _).1 ihbody, trivial⟩
    have := hroom limit hlimit
    omega

/-! ### Limits only cut runs short -/

/-- With no call active at the start, a run without a limit and a run under a limit either agree
in result, variables and state of the host, or the limit is below the peak and the limited run
fails for it. And a run under a limit that does not fail for one is the run under every greater
limit and under none. -/
theorem call_limit_only_cuts (host : Host σ) (statements : List Statement) (env : Environment)
    (state : σ) :
    (∀ depth, execute host depth statements ⟨.idle none, env, state⟩ ≠ .exhausted → ∀ limit,
      (peak (events host depth statements ⟨.idle none, env, state⟩) ≤ limit →
        EndsIn host statements ⟨.idle (some limit), env, state⟩
          ((execute host depth statements ⟨.idle none, env, state⟩).map
            (withCalls (.idle (some limit))))) ∧
      (limit < peak (events host depth statements ⟨.idle none, env, state⟩) →
        ∃ failure final,
          EndsIn host statements ⟨.idle (some limit), env, state⟩ (.failed failure final) ∧
            failure.fault = .tooDeep limit)) ∧
    (∀ limit outcome, EndsIn host statements ⟨.idle (some limit), env, state⟩ outcome →
      ¬TooDeep outcome →
        (∀ larger, limit ≤ larger → EndsIn host statements ⟨.idle (some larger), env, state⟩
          (outcome.map (withCalls (.idle (some larger))))) ∧
        EndsIn host statements ⟨.idle none, env, state⟩ (outcome.map (withCalls (.idle none)))) := by
  constructor
  · intro depth hends limit
    have hrun := run_of_execute host depth statements _ hends
    constructor
    · intro hpeak
      exact hrun.move (.inl rfl) (.idle (some limit)) ((fits_idle_iff _ _ _).2 hpeak)
    · intro hpeak
      refine hrun.cut (.inl rfl) (.idle (some limit)) rfl fun hfits => ?_
      have hle := (fits_idle_iff _ _ _).1 hfits
      omega
  · intro limit outcome hends hdeep
    obtain ⟨history, hrun⟩ := (endsIn_iff_run _ _ _ _).1 hends
    have hpeak := (fits_idle_iff _ _ _).1 hrun.fits
    constructor
    · intro larger hle
      exact hrun.move (.inr hdeep) (.idle (some larger)) ((fits_idle_iff _ _ _).2 (hpeak.trans hle))
    · exact hrun.move (.inr hdeep) (.idle none) (fits_of_limit_eq_none rfl _)

def callOf (name : String) : Statement :=
  ⟨.call, name, [.literal name name]⟩

/-- Here `f` calls `g`, whose body is empty. -/
def nestedCalls : Environment :=
  (Environment.empty.assign "f" (.procedure ⟨"f", [callOf "g"]⟩)).assign "g" (.procedure ⟨"g", []⟩)

def nestedMachine (limit : Option Nat) : Machine Services :=
  ⟨.idle limit, nestedCalls, {}⟩

theorem call_limit_only_cuts_nested :
    peak (events Services.reply 3 [callOf "f"] (nestedMachine none)) = 2 ∧
    EndsIn Services.reply [callOf "f"] (nestedMachine (some 2)) (.done (nestedMachine (some 2))) ∧
    (∃ failure final,
      EndsIn Services.reply [callOf "f"] (nestedMachine (some 1)) (.failed failure final) ∧
        failure.fault = .tooDeep 1) ∧
    EndsIn Services.reply [callOf "f"] (nestedMachine none) (.done (nestedMachine none)) := by
  have hends : execute Services.reply 3 [callOf "f"] (nestedMachine none) ≠ .exhausted := by
    nofun
  have hpeak : peak (events Services.reply 3 [callOf "f"] (nestedMachine none)) = 2 := rfl
  obtain ⟨hunlimited, hlimited⟩ :=
    call_limit_only_cuts Services.reply [callOf "f"] nestedCalls ({} : Services)
  have hsame := (hunlimited 3 hends 2).1 hpeak.le
  have hcut := (hunlimited 3 hends 1).2 (by rw [nestedMachine] at hpeak; rw [hpeak]; omega)
  exact ⟨hpeak, hsame, hcut, (hlimited 2 _ hsame id).2⟩

end LineScript.Proofs
