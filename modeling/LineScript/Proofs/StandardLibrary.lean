import LineScript.Proofs.Devices
import LineScript.Proofs.FailureSite
import LineScript.Session

/-!
# Runs on the standard library

Where every primitive that a variable holds is one of the standard library, an action stores a
value that a program can name, prints, or does nothing; and an action that fails does so before it
changes anything, except that a sink may have taken a part of the text it refused. `Act.effect`
says this once for all actions, and the invariants of runs follow from it.
-/

namespace LineScript.Proofs

open Text

variable {δ : Type} [Device δ]

/-! ### Invariants of runs -/

/-- What every action keeps holds in every machine that a statement is started in, and in the one
that the run leaves. -/
theorem Run.preserves {σ : Type} {host : Host σ} {Inv : Machine σ → Prop}
    (hcalls : ∀ calls machine, Inv machine → Inv (withCalls calls machine))
    (hstep : ∀ {statement machine seen after},
      Act host statement machine seen (.done after) → Inv machine → Inv after)
    {statements : List Statement} {machine : Machine σ} {history : List (Event σ)}
    {outcome : Outcome Failure (Machine σ)} (hrun : Run host statements machine history outcome)
    (hinv : Inv machine) :
    (∀ start ∈ starts history, Inv start.2) ∧ ∀ after, outcome = .done after → Inv after := by
  induction hrun with
  | nil =>
    refine ⟨by simp, ?_⟩
    rintro after ⟨⟩
    exact hinv
  | act hact _ ih =>
    obtain ⟨hstarts, hdone⟩ := ih (hstep hact hinv)
    refine ⟨?_, hdone⟩
    simp only [List.cons_append, starts_start, starts_append, hact.starts_seen, List.nil_append,
      starts_finish, List.forall_mem_cons]
    exact ⟨hinv, hstarts⟩
  | actFail hact =>
    refine ⟨?_, by simp⟩
    simpa [hact.starts_seen] using hinv
  | call _ _ _ _ ihbody ihtail =>
    obtain ⟨hinner, hbody⟩ := ihbody (hcalls _ _ hinv)
    obtain ⟨hstarts, hdone⟩ := ihtail (hcalls _ _ (hbody _ rfl))
    refine ⟨?_, hdone⟩
    simp only [List.cons_append, starts_start, starts_enter, starts_append, starts_leave,
      starts_finish, List.forall_mem_cons, List.forall_mem_append]
    exact ⟨hinv, hinner, hstarts⟩
  | callFail _ _ _ ihbody =>
    obtain ⟨hinner, -⟩ := ihbody (hcalls _ _ hinv)
    refine ⟨?_, by simp⟩
    simp only [List.cons_append, starts_start, starts_enter, starts_append, starts_leave,
      starts_nil, List.append_nil, List.forall_mem_cons]
    exact ⟨hinv, hinner⟩

/-- The state that a computation leaves, whether it ends well or fails. -/
def final? {ε τ : Type} : Outcome ε τ → Option τ
  | .done state => some state
  | .failed _ state => some state
  | .exhausted => none

/-- What every action keeps, also one that fails, holds in the machine that the run leaves. -/
theorem Run.preserves_final {σ : Type} {host : Host σ} {Inv : Machine σ → Prop}
    (hcalls : ∀ calls machine, Inv machine → Inv (withCalls calls machine))
    (hact : ∀ {statement machine seen outcome}, Act host statement machine seen outcome →
      Inv machine → ∀ after, final? outcome = some after → Inv after)
    {statements : List Statement} {machine : Machine σ} {history : List (Event σ)}
    {outcome : Outcome Failure (Machine σ)} (hrun : Run host statements machine history outcome)
    (hinv : Inv machine) : ∀ final, final? outcome = some final → Inv final := by
  obtain ⟨hstarts, hdone⟩ := hrun.preserves hcalls (fun h hinv => hact h hinv _ rfl) hinv
  cases outcome with
  | done after =>
    rintro final ⟨⟩
    exact hdone after rfl
  | failed failure after =>
    rintro final ⟨⟩
    obtain ⟨site, hsite⟩ := hrun.exists_failureSite
    have hstarted := hstarts _ (List.mem_of_getLast? hsite.last)
    rw [hsite.final_eq]
    exact hcalls _ _ (hact hsite.act hstarted _ rfl)
  | exhausted => nofun

lemma get?_assign (env : Environment) (name other : String) (value : Value) :
    (env.assign name value).get? other = if name = other then some value else env.get? other :=
  OrderedMap.get?_insert env.lawful name other value

/-! ### What an action can do -/

/-- Every primitive that a variable holds is registered with a behavior of the standard library. -/
def StandardPrimitives (machine : Machine (Services δ)) : Prop :=
  ∀ name primitive, machine.env.get? name = some (.primitive primitive) →
    ∃ behavior, machine.host.behaviors[primitive.id]? = some behavior ∧
      behavior ∈ Services.standardLibrary.map Prod.snd

/-- What a program can store: a text, what a variable holds, or the list of the variables. -/
def Storable (env : Environment) (value : Value) : Prop :=
  (∃ text, value = .string text) ∨ (∃ name, env.get? name = some value) ∨
    value = Services.nameList env

/-- What an action can do to a machine on the standard library. -/
inductive Effect (machine : Machine (Services δ)) : Outcome Failure (Machine (Services δ)) → Prop
  | nothing : Effect machine (.done machine)
  | store {name : String} {value : Value} (hvalue : Storable machine.env value) :
      Effect machine (.done { machine with env := machine.env.assign name value })
  | print {sink : Sink δ} (hsink : taken machine.host.sink <+: taken sink) :
      Effect machine (.done { machine with host := { machine.host with sink } })
  | fault {fault : Fault} : Effect machine (.failed { fault } machine)
  | unprinted {cause : IoFault} {sink : Sink δ} (hsink : taken machine.host.sink <+: taken sink) :
      Effect machine (.failed { fault := .output cause }
        { machine with host := { machine.host with sink } })

lemma bind_eq_ok {ε α β : Type} {first : Except ε α} {next : α → Except ε β} {result : β}
    (h : first >>= next = .ok result) :
    ∃ value, first = .ok value ∧ next value = .ok result := by
  cases first with
  | error other => cases h
  | ok value => exact ⟨value, rfl, h⟩

lemma storable_of_eval {expression : Expression} {env : Environment} {value : Value}
    (h : expression.eval env = .ok value) : Storable env value := by
  unfold Expression.eval at h
  split at h
  · cases h
    exact .inl ⟨_, rfl⟩
  · split at h
    · rename_i hget
      cases h
      exact .inr (.inl ⟨_, hget⟩)
    · cases h

lemma store_of_assignment {expressions : List Expression} {env stored : Environment}
    (h : assignment expressions env = .ok stored) :
    ∃ name value, stored = env.assign name value ∧ Storable env value := by
  unfold assignment at h
  split at h
  · obtain ⟨name, -, hrest⟩ := bind_eq_ok h
    obtain ⟨value, hvalue, hdone⟩ := bind_eq_ok hrest
    cases hdone
    exact ⟨name, value, rfl, storable_of_eval hvalue⟩
  · split at h <;> cases h

lemma bound_of_callee {expressions arguments : List Expression} {env : Environment}
    {primitive : Primitive} (h : callee expressions env = .ok (.primitive primitive arguments)) :
    ∃ name, env.get? name = some (.primitive primitive) := by
  unfold callee at h
  split at h
  · cases h
  · obtain ⟨name, -, hrest⟩ := bind_eq_ok h
    split at hrest <;> cases hrest
    exact ⟨name, ‹_›⟩

lemma effect_emit (run : Runner (Services δ)) {deliver : Sink δ → String → Attempt (Sink δ)}
    (hdeliver : ∀ sink text, taken sink <+: taken (deliver sink text).2)
    (arguments : List Expression) (machine : Machine (Services δ)) :
    Effect machine
      (settle run machine.calls (Services.emit deliver arguments machine.env machine.host)) := by
  unfold Services.emit
  cases Services.joined arguments machine.env with
  | error fault => exact .fault
  | ok text =>
    have hsink := hdeliver machine.host.sink text
    rcases hdelivered : deliver machine.host.sink text with ⟨_ | _, sink⟩
    · simp only [hdelivered] at hsink ⊢
      exact .unprinted hsink
    · simp only [hdelivered] at hsink ⊢
      exact .print hsink

lemma effect_storeNames (run : Runner (Services δ)) (arguments : List Expression)
    (machine : Machine (Services δ)) :
    Effect machine (settle run machine.calls (Services.update
      (Services.storeNames arguments machine.env) machine.env machine.host)) := by
  unfold Services.update
  cases hstore : Services.storeNames arguments machine.env with
  | error fault => exact .fault
  | ok env =>
    unfold Services.storeNames at hstore
    split at hstore
    · obtain ⟨name, -, hdone⟩ := bind_eq_ok hstore
      cases hdone
      exact .store (.inr (.inr rfl))
    · cases hstore

/-- On the standard library, an action has one of these effects. -/
theorem Act.effect {statement : Statement} {machine : Machine (Services δ)}
    {seen : List (Event (Services δ))} {outcome : Outcome Failure (Machine (Services δ))}
    (hact : Act Services.reply statement machine seen outcome)
    (hstandard : StandardPrimitives machine) : Effect machine outcome := by
  cases hact with
  | assign _ hassign =>
    obtain ⟨name, value, rfl, hvalue⟩ := store_of_assignment hassign
    exact .store hvalue
  | misassign => exact .fault
  | operator => exact .fault
  | uncallable => exact .fault
  | refuse => exact .fault
  | primitive _ hcallee hsettle =>
    rw [← hsettle]
    obtain ⟨name, hbound⟩ := bound_of_callee hcallee
    obtain ⟨behavior, hbehavior, hmem⟩ := hstandard name _ hbound
    simp only [Services.reply, hbehavior]
    simp only [Services.standardLibrary, List.map_cons, List.map_nil, List.mem_cons,
      List.not_mem_nil, or_false] at hmem
    rcases hmem with rfl | rfl | rfl | rfl
    · exact .nothing
    · exact effect_emit _ taken_prefix_println _ _
    · exact effect_emit _ taken_prefix_print _ _
    · exact effect_storeNames _ _ _

omit [Device δ] in
lemma StandardPrimitives.assign {machine : Machine (Services δ)}
    (hstandard : StandardPrimitives machine) (name : String) {value : Value}
    (hvalue : ∀ primitive, value = .primitive primitive →
      ∃ other, machine.env.get? other = some (.primitive primitive)) :
    StandardPrimitives { machine with env := machine.env.assign name value } := by
  intro other primitive hget
  rw [get?_assign] at hget
  split at hget
  · obtain ⟨source, hsource⟩ := hvalue primitive (Option.some.inj hget)
    exact hstandard source primitive hsource
  · exact hstandard other primitive hget

/-- A program on the standard library brings no other primitives into its variables. -/
lemma Effect.standardPrimitives {machine : Machine (Services δ)}
    {outcome : Outcome Failure (Machine (Services δ))} (heffect : Effect machine outcome)
    (hstandard : StandardPrimitives machine) :
    ∀ after, final? outcome = some after → StandardPrimitives after := by
  rintro after hafter
  cases heffect with
  | nothing | print | fault | unprinted =>
    cases hafter
    exact hstandard
  | store hvalue =>
    cases hafter
    apply hstandard.assign
    rintro primitive rfl
    obtain ⟨text, htext⟩ | hbound | hlist := hvalue
    · cases htext
    · exact hbound
    · cases hlist

/-- What is true of everything that variables hold stays so, if it is true of texts and of the list
of the variables. -/
lemma Effect.forall_values {machine : Machine (Services δ)}
    {outcome : Outcome Failure (Machine (Services δ))} {P : Value → Prop}
    (heffect : Effect machine outcome) (htext : ∀ text, P (.string text))
    (hlist : P (Services.nameList machine.env))
    (hvalues : ∀ name value, machine.env.get? name = some value → P value) :
    ∀ after, final? outcome = some after → ∀ name value, after.env.get? name = some value →
      P value := by
  intro after hafter
  cases heffect with
  | nothing | print | fault | unprinted =>
    cases hafter
    exact hvalues
  | store hstorable =>
    cases hafter
    intro name value hget
    rw [get?_assign] at hget
    split at hget
    · cases hget
      obtain ⟨text, rfl⟩ | ⟨other, hbound⟩ | rfl := hstorable
      · exact htext text
      · exact hvalues other _ hbound
      · exact hlist
    · exact hvalues name value hget

lemma Act.standardPrimitives {statement : Statement} {machine after : Machine (Services δ)}
    {seen : List (Event (Services δ))}
    (hact : Act Services.reply statement machine seen (.done after))
    (hstandard : StandardPrimitives machine) : StandardPrimitives after :=
  (hact.effect hstandard).standardPrimitives hstandard after rfl

omit [Device δ] in
lemma StandardPrimitives.defineAll {calls : ActiveCalls} {env : Environment} {services : Services δ}
    (hstandard : StandardPrimitives ⟨calls, env, services⟩) (library : List (String × Behavior))
    (hlibrary : ∀ entry ∈ library, entry.2 ∈ Services.standardLibrary.map Prod.snd) :
    StandardPrimitives
      ⟨calls, (services.defineAll env library).1, (services.defineAll env library).2⟩ := by
  induction library generalizing env services with
  | nil => exact hstandard
  | cons entry rest ih =>
    obtain ⟨name, behavior⟩ := entry
    refine ih ?_ (fun entry hmem => hlibrary entry (List.mem_cons_of_mem _ hmem))
    intro other primitive hget
    change (env.assign name (.primitive ⟨name, services.next⟩)).get? other = _ at hget
    change ∃ found,
      (services.behaviors.insert services.next behavior)[primitive.id]? = some found ∧ _
    have hbehavior : behavior ∈ Services.standardLibrary.map Prod.snd :=
      hlibrary _ List.mem_cons_self
    rw [get?_assign] at hget
    rw [Std.TreeMap.getElem?_insert]
    -- A number that was given before is given again with a behavior of the library, if at all.
    split
    · exact ⟨behavior, rfl, hbehavior⟩
    · rename_i hnumber
      split at hget
      · cases hget
        simp at hnumber
      · exact hstandard other primitive hget

omit [Device δ] in
/-- A new session that registers the standard library has no other primitives. -/
lemma standardPrimitives_defineStandard (sink : Sink δ) :
    StandardPrimitives (Session.new sink).defineStandard.machine := by
  have hempty : StandardPrimitives (Session.new sink).machine := by
    intro name primitive hget
    cases hget
  exact hempty.defineAll Services.standardLibrary fun entry hmem => List.mem_map_of_mem hmem

/-! ### A statement that fails has no effect -/

lemma Effect.env_of_failed {machine after : Machine (Services δ)} {failure : Failure}
    (heffect : Effect machine (.failed failure after)) : after.env = machine.env := by
  cases heffect <;> rfl

lemma Effect.host_of_failed {machine after : Machine (Services δ)} {failure : Failure}
    (heffect : Effect machine (.failed failure after))
    (houtput : ∀ cause, failure.fault ≠ .output cause) : after.host = machine.host := by
  cases heffect with
  | fault => rfl
  | unprinted => exact absurd rfl (houtput _)

lemma Effect.taken_of_failed {machine after : Machine (Services δ)} {failure : Failure}
    (heffect : Effect machine (.failed failure after)) :
    taken machine.host.sink <+: taken after.host.sink := by
  cases heffect with
  | fault => exact List.prefix_rfl
  | unprinted hsink => exact hsink

/-- If a run on the standard library fails, its variables are left as they were when the last
statement was started, and so is the state behind the primitives, sink included, unless printing
failed. What was done before stays: the machine in which that statement was started has the
variables and the state that the last statement to end well left, and no byte that the sink took
is lost. -/
theorem failing_statement_has_no_effect (depth : Nat) (statements : List Statement)
    (machine final : Machine (Services δ)) (failure : Failure)
    (hstandard : StandardPrimitives machine)
    (hfail : execute Services.reply depth statements machine = .failed failure final) :
    ∃ statement started,
      (starts (events Services.reply depth statements machine)).getLast? =
        some (statement, started) ∧
      final.env = started.env ∧
      ((∀ cause, failure.fault ≠ .output cause) → final.host = started.host) ∧
      started.env = (settled machine (events Services.reply depth statements machine)).env ∧
      started.host = (settled machine (events Services.reply depth statements machine)).host ∧
      taken started.host.sink <+: taken final.host.sink := by
  have hrun := run_of_execute Services.reply depth statements machine (by simp [hfail])
  rw [hfail] at hrun
  obtain ⟨site, hsite⟩ := hrun.exists_failureSite
  have hstarted : StandardPrimitives site.started :=
    (hrun.preserves (fun _ _ h => h) Act.standardPrimitives hstandard).1 _
      (List.mem_of_getLast? hsite.last)
  have heffect := hsite.act.effect hstarted
  refine ⟨site.statement, site.started, hsite.last, ?_, fun houtput => ?_, ?_, ?_, ?_⟩
  · rw [hsite.final_eq]
    exact heffect.env_of_failed
  · rw [hsite.failure_eq] at houtput
    rw [hsite.final_eq]
    exact heffect.host_of_failed houtput
  · exact (congrArg Machine.env hsite.settled_eq).symm
  · exact (congrArg Machine.host hsite.settled_eq).symm
  · rw [hsite.final_eq]
    exact heffect.taken_of_failed

/-- A device that answers its writes as it is told, and takes everything after that. -/
structure Scripted where
  /-- How many bytes it takes of each write, or why it takes none. -/
  script : List (Except IoFault Nat)
  bytes : List UInt8 := []

instance : Device Scripted where
  write device offered :=
    match device.script with
    | [] => (.ok offered.length, { device with bytes := device.bytes ++ offered })
    | .ok count :: script =>
      let count := min count offered.length
      (.ok count, { script, bytes := device.bytes ++ offered.take count })
    | .error fault :: script => (.error fault, { device with script })
  flush device := (.ok (), device)
  bytes := Scripted.bytes
  bytes_write_ok {device after offered count} h := by
    split at h <;> cases h
    · rw [List.take_length]
    · rfl
  bytes_write_error {device after offered fault} h := by
    split at h <;> cases h
    rfl
  bytes_flush device := rfl

/-- The standard library with a procedure `f` that prints a line and then misuses `vars`. -/
def misusingVars (sink : Sink δ) : Machine (Services δ) :=
  let machine := (Session.new sink).defineStandard.machine
  { machine with env := machine.env.assign "f" (.procedure ⟨"f",
    [⟨.call, "println a", [.literal "println" "println", .literal "a" "a"]⟩, callOf "vars"]⟩) }

omit [Device δ] in
lemma standardPrimitives_misusingVars (sink : Sink δ) : StandardPrimitives (misusingVars sink) :=
  (standardPrimitives_defineStandard sink).assign "f" nofun

/-- A device that takes one byte and jams at the next one. -/
def jamming : Sink Scripted :=
  .writer { script := [.ok 1, .error (.host "jam")] }

/-- The first run fails at `vars`, after its line is in the buffer. The second one fails at the
newline of that line, which the device refuses after it took the text. -/
theorem failing_statement_has_no_effect_nested :
    (∃ final, execute Services.reply 2 [callOf "f"] (misusingVars (.buffer "" : Sink)) =
        .failed ⟨.wrongArity "vars" 1 0, some "vars"⟩ final ∧
      final.host.sink = .buffer "a\n" ∧
      ∃ statement started,
        (starts (events Services.reply 2 [callOf "f"]
          (misusingVars (.buffer "" : Sink)))).getLast? = some (statement, started) ∧
        final.env = started.env ∧
        ((∀ cause, Fault.wrongArity "vars" 1 0 ≠ .output cause) → final.host = started.host) ∧
        started.env = (settled (misusingVars (.buffer "" : Sink))
          (events Services.reply 2 [callOf "f"] (misusingVars (.buffer "" : Sink)))).env ∧
        started.host = (settled (misusingVars (.buffer "" : Sink))
          (events Services.reply 2 [callOf "f"] (misusingVars (.buffer "" : Sink)))).host ∧
        taken started.host.sink <+: taken final.host.sink) ∧
    ∃ final, execute Services.reply 2 [callOf "f"] (misusingVars jamming) =
        .failed ⟨.output (.host "jam"), some "println a"⟩ final ∧
      taken final.host.sink = utf8 "a" ∧
      ∃ statement started,
        (starts (events Services.reply 2 [callOf "f"] (misusingVars jamming))).getLast? =
          some (statement, started) ∧
        final.env = started.env ∧
        ((∀ cause, Fault.output (.host "jam") ≠ .output cause) → final.host = started.host) ∧
        started.env = (settled (misusingVars jamming)
          (events Services.reply 2 [callOf "f"] (misusingVars jamming))).env ∧
        started.host = (settled (misusingVars jamming)
          (events Services.reply 2 [callOf "f"] (misusingVars jamming))).host ∧
        taken started.host.sink <+: taken final.host.sink := by
  have hbuffer : ∃ final, execute Services.reply 2 [callOf "f"] (misusingVars (.buffer "" : Sink)) =
      .failed ⟨.wrongArity "vars" 1 0, some "vars"⟩ final ∧ final.host.sink = .buffer "a\n" :=
    ⟨_, rfl, rfl⟩
  have hjamming : ∃ final, execute Services.reply 2 [callOf "f"] (misusingVars jamming) =
      .failed ⟨.output (.host "jam"), some "println a"⟩ final ∧
        taken final.host.sink = utf8 "a" :=
    ⟨_, rfl, rfl⟩
  obtain ⟨final, hfail, hsink⟩ := hbuffer
  obtain ⟨cut, hcut, htaken⟩ := hjamming
  exact ⟨⟨final, hfail, hsink, failing_statement_has_no_effect _ _ _ _ _
      (standardPrimitives_misusingVars _) hfail⟩,
    cut, hcut, htaken, failing_statement_has_no_effect _ _ _ _ _
      (standardPrimitives_misusingVars _) hcut⟩

end LineScript.Proofs
