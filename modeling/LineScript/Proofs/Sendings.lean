import LineScript.Proofs.SourceRuns
import LineScript.Proofs.Termination

/-!
# What programs send to their sinks

On the standard library a statement prints at most one text, and which text that is does not depend
on the sink (`delivery?`). So the history of a run says what was sent in it (`sentDuring`). Whatever
the device does, it has taken all of this from the first byte to the last, or the run fails for
output and the device has taken the first part of it (`Run.accepts`, `run_takes_what_is_sent`).
-/

namespace LineScript.Proofs

open Text

variable {δ : Type}

/-! ### Texts on their way to a sink -/

/-- A text that is handed to a sink, by itself or to be ended with a newline. -/
inductive Delivery where
  | print (text : String)
  | println (text : String)

namespace Delivery

/-- All that the sink is to take. -/
def text : Delivery → String
  | print text => text
  | println text => text ++ "\n"

def handTo [Device δ] (sink : Sink δ) : Delivery → Attempt (Sink δ)
  | print text => sink.print text
  | println text => sink.println text

end Delivery

/-- A text that was sent to the sink, and the variables at that time. -/
structure Sending where
  env : Environment
  text : String

def printed (sent : List Sending) : String :=
  String.join (sent.map Sending.text)

def bytesOf (sent : List Sending) : List UInt8 :=
  utf8 (printed sent)

lemma printed_append (first second : List Sending) :
    printed (first ++ second) = printed first ++ printed second := by
  rw [printed, List.map_append, String.join_append, printed, printed]

lemma printed_singleton (env : Environment) (text : String) : printed [⟨env, text⟩] = text := by
  rw [printed, List.map_singleton, String.join_cons, String.join_nil, String.append_empty]

lemma bytesOf_append (first second : List Sending) :
    bytesOf (first ++ second) = bytesOf first ++ bytesOf second := by
  rw [bytesOf, printed_append, utf8_append, bytesOf, bytesOf]

lemma bytesOf_singleton (env : Environment) (text : String) :
    bytesOf [⟨env, text⟩] = utf8 text := by
  rw [bytesOf, printed_singleton]

/-! ### What statements send -/

/-- What a statement sends to the sink when it is started in this machine. -/
def delivery? (statement : Statement) (machine : Machine (Services δ)) : Option Delivery :=
  match statement.kind, callee statement.expressions machine.env with
  | .call, .ok (.primitive primitive arguments) =>
    match machine.host.behaviors[primitive.id]?, Services.joined arguments machine.env with
    | some .print, .ok text => some (.print text)
    | some .println, .ok text => some (.println text)
    | _, _ => none
  | _, _ => none

def sentBy (statement : Statement) (machine : Machine (Services δ)) : List Sending :=
  (delivery? statement machine).toList.map fun delivery => ⟨machine.env, delivery.text⟩

/-- What was sent to the sink in the course of a run. -/
def sentDuring (history : List (Event (Services δ))) : List Sending :=
  (starts history).flatMap fun start => sentBy start.1 start.2

lemma sentBy_of_delivery {statement : Statement} {machine : Machine (Services δ)}
    {delivery : Delivery} (h : delivery? statement machine = some delivery) :
    sentBy statement machine = [⟨machine.env, delivery.text⟩] := by
  simp [sentBy, h]

lemma sentBy_of_quiet {statement : Statement} {machine : Machine (Services δ)}
    (h : delivery? statement machine = none) : sentBy statement machine = [] := by
  simp [sentBy, h]

lemma sentBy_of_enters {statement : Statement} {machine : Machine (Services δ)}
    {procedure : Procedure} (h : Enters statement machine.env procedure) :
    sentBy statement machine = [] := by
  apply sentBy_of_quiet
  simp only [delivery?, h.1, h.2]

@[simp] lemma sentDuring_nil : sentDuring ([] : List (Event (Services δ))) = [] := rfl

@[simp] lemma sentDuring_start (statement : Statement) (machine : Machine (Services δ))
    (history : List (Event (Services δ))) :
    sentDuring (.start statement machine :: history) =
      sentBy statement machine ++ sentDuring history := by
  simp [sentDuring]

@[simp] lemma sentDuring_enter (calls : ActiveCalls) (history : List (Event (Services δ))) :
    sentDuring (.enter calls :: history) = sentDuring history := rfl

@[simp] lemma sentDuring_leave (calls : ActiveCalls) (history : List (Event (Services δ))) :
    sentDuring (.leave calls :: history) = sentDuring history := rfl

@[simp] lemma sentDuring_finish (statement : Statement) (before after : Machine (Services δ))
    (history : List (Event (Services δ))) :
    sentDuring (.finish statement before after :: history) = sentDuring history := rfl

@[simp] lemma sentDuring_append (first second : List (Event (Services δ))) :
    sentDuring (first ++ second) = sentDuring first ++ sentDuring second := by
  simp [sentDuring]

variable [Device δ]

lemma Act.sentDuring_seen {statement : Statement} {machine : Machine (Services δ)}
    {seen : List (Event (Services δ))} {outcome : Outcome Failure (Machine (Services δ))}
    (hact : Act Services.reply statement machine seen outcome) : sentDuring seen = [] := by
  rw [sentDuring, hact.starts_seen, List.flatMap_nil]

/-- The outcome of an action that has sent a text, with this result. -/
def emitted (machine : Machine (Services δ)) :
    Attempt (Sink δ) → Outcome Failure (Machine (Services δ))
  | (.ok (), sink) => .done (services.onto sink machine)
  | (.error cause, sink) => .failed { fault := .output cause } (services.onto sink machine)

lemma act_of_emit {statement : Statement} {machine : Machine (Services δ)} {primitive : Primitive}
    {arguments : List Expression} {text : String}
    {deliver : Sink δ → String → Attempt (Sink δ)} (hkind : statement.kind = .call)
    (hcallee : callee statement.expressions machine.env = .ok (.primitive primitive arguments))
    (hreply : Services.reply primitive arguments machine.env machine.host =
      Services.emit deliver arguments machine.env machine.host)
    (htext : Services.joined arguments machine.env = .ok text) :
    ∃ seen, Act Services.reply statement machine seen
      (emitted machine (deliver machine.host.sink text)) := by
  have hsettle : settle (execute Services.reply 0) machine.calls
      (Services.reply primitive arguments machine.env machine.host) =
        emitted machine (deliver machine.host.sink text) := by
    simp only [hreply, Services.emit, htext]
    rcases deliver machine.host.sink text with ⟨_ | _, sink⟩
    · rfl
    · rfl
  refine ⟨_, .primitive hkind hcallee hsettle ?_⟩
  rcases deliver machine.host.sink text with ⟨_ | _, sink⟩
  · nofun
  · nofun

/-- A statement that sends a text hands it to the sink, and that is all. -/
lemma act_of_delivery {statement : Statement} {machine : Machine (Services δ)} {delivery : Delivery}
    (h : delivery? statement machine = some delivery) :
    ∃ seen, Act Services.reply statement machine seen
      (emitted machine (delivery.handTo machine.host.sink)) := by
  unfold delivery? at h
  split at h
  · rename_i primitive arguments hkind hcallee
    split at h
    · rename_i text hbehavior htext
      cases h
      exact act_of_emit hkind hcallee (by simp only [Services.reply, hbehavior]; rfl) htext
    · rename_i text hbehavior htext
      cases h
      exact act_of_emit hkind hcallee (by simp only [Services.reply, hbehavior]; rfl) htext
    · cases h
  · cases h

lemma Act.eq_emitted {statement : Statement} {machine : Machine (Services δ)}
    {seen : List (Event (Services δ))} {outcome : Outcome Failure (Machine (Services δ))}
    {delivery : Delivery} (hact : Act Services.reply statement machine seen outcome)
    (h : delivery? statement machine = some delivery) :
    outcome = emitted machine (delivery.handTo machine.host.sink) := by
  obtain ⟨other, hemits⟩ := act_of_delivery h
  obtain ⟨d, hstep⟩ := hact.step_eq
  obtain ⟨e, hstep'⟩ := hemits.step_eq
  rw [← hstep (max d e) (by omega), hstep' (max d e) (by omega)]

omit [Device δ] in
lemma emit_of_error {arguments : List Expression} {env : Environment} {fault : Fault}
    (h : Services.joined arguments env = .error fault)
    (deliver : Sink δ → String → Attempt (Sink δ)) (services : Services δ) :
    Services.emit deliver arguments env services = .finish (.error { fault }) env services := by
  simp only [Services.emit, h, Services.refuse]

/-- A primitive of the standard library that sends nothing replies alike on all sinks. -/
lemma reply_of_quiet {statement : Statement} {machine : Machine (Services δ)}
    {primitive : Primitive} {arguments : List Expression} (hstandard : StandardPrimitives machine)
    (hkind : statement.kind = .call)
    (hcallee : callee statement.expressions machine.env = .ok (.primitive primitive arguments))
    (hquiet : delivery? statement machine = none) :
    ∃ result env, ∀ sink,
      Services.reply primitive arguments machine.env (services.withSink machine.host sink) =
        .finish result env (services.withSink machine.host sink) := by
  obtain ⟨name, hbound⟩ := bound_of_callee hcallee
  obtain ⟨behavior, hbehavior, hmem⟩ := hstandard name primitive hbound
  have hreply : ∀ sink,
      Services.reply primitive arguments machine.env (services.withSink machine.host sink) =
        Services.respond primitive.id behavior arguments machine.env
          (services.withSink machine.host sink) := by
    intro sink
    simp only [Services.reply, services, hbehavior]
  simp only [hreply]
  simp only [delivery?, hkind, hcallee, hbehavior] at hquiet
  simp only [Services.standardLibrary, List.map_cons, List.map_nil, List.mem_cons,
    List.not_mem_nil, or_false] at hmem
  rcases hmem with rfl | rfl | rfl | rfl
  · exact ⟨_, _, fun _ => rfl⟩
  · cases hjoined : Services.joined arguments machine.env with
    | ok text => simp [hjoined] at hquiet
    | error fault => exact ⟨_, _, fun _ => emit_of_error hjoined _ _⟩
  · cases hjoined : Services.joined arguments machine.env with
    | ok text => simp [hjoined] at hquiet
    | error fault => exact ⟨_, _, fun _ => emit_of_error hjoined _ _⟩
  · simp only [Services.respond]
    cases Services.storeNames arguments machine.env with
    | ok env => exact ⟨_, _, fun _ => rfl⟩
    | error fault => exact ⟨_, _, fun _ => rfl⟩

/-- An action that sends nothing leaves the sink alone and is the same on every sink. -/
lemma Act.onto_of_quiet {statement : Statement} {machine : Machine (Services δ)}
    {seen : List (Event (Services δ))} {outcome : Outcome Failure (Machine (Services δ))}
    (hact : Act Services.reply statement machine seen outcome)
    (hstandard : StandardPrimitives machine) (hquiet : delivery? statement machine = none) :
    (∀ after, final? outcome = some after → after.host.sink = machine.host.sink) ∧
      ∀ sink, ∃ seen, Act Services.reply statement (services.onto sink machine) seen
        (outcome.map (services.onto sink)) := by
  cases hact with
  | assign hkind hassign => exact ⟨by rintro _ ⟨⟩; rfl, fun sink => ⟨_, .assign hkind hassign⟩⟩
  | misassign hkind hassign =>
    exact ⟨by rintro _ ⟨⟩; rfl, fun sink => ⟨_, .misassign hkind hassign⟩⟩
  | operator hkind => exact ⟨by rintro _ ⟨⟩; rfl, fun sink => ⟨_, .operator hkind⟩⟩
  | uncallable hkind hcallee =>
    exact ⟨by rintro _ ⟨⟩; rfl, fun sink => ⟨_, .uncallable hkind hcallee⟩⟩
  | refuse henters hpush => exact ⟨by rintro _ ⟨⟩; rfl, fun sink => ⟨_, .refuse henters hpush⟩⟩
  | @primitive primitive arguments depth outcome hkind hcallee hsettle hends =>
    obtain ⟨result, env, hreply⟩ := reply_of_quiet hstandard hkind hcallee hquiet
    have hself : Services.reply primitive arguments machine.env machine.host =
        .finish result env machine.host := hreply machine.host.sink
    rw [hself] at hsettle
    have hsettle' : ∀ sink, settle (execute Services.reply depth) machine.calls
        (Services.reply primitive arguments machine.env (services.withSink machine.host sink)) =
          outcome.map (services.onto sink) := by
      intro sink
      rw [hreply, ← hsettle]
      cases result <;> rfl
    refine ⟨?_, fun sink => ⟨_, .primitive hkind hcallee (hsettle' sink) ?_⟩⟩
    · rw [← hsettle]
      cases result <;> (rintro after ⟨⟩; rfl)
    · rwa [Ne, map_eq_exhausted_iff]

/-! ### Runs on any device -/

lemma Settled.handTo {sink : Sink δ} (h : Settled sink) (delivery : Delivery) :
    Accepts taken taken (utf8 delivery.text) sink (delivery.handTo sink) ∧
      ((delivery.handTo sink).1 = .ok () → Settled (delivery.handTo sink).2) := by
  cases delivery with
  | print text => exact h.print text
  | println text => exact h.println text

/-- The machine runs on the standard library and prints to a settled sink. -/
structure Prints (machine : Machine (Services δ)) : Prop where
  standard : StandardPrimitives machine
  settled : Settled machine.host.sink

/-- What came of printing in a computation that has ended. Only a failure for output counts. -/
def printing? : Outcome Failure (Machine (Services δ)) → Option (Attempt (Sink δ))
  | .done machine => some (.ok (), machine.host.sink)
  | .failed ⟨.output cause, _⟩ machine => some (.error cause, machine.host.sink)
  | .failed _ machine => some (.ok (), machine.host.sink)
  | .exhausted => none

omit [Device δ] in
lemma printing?_attach (failure : Failure) (source : String) (calls : ActiveCalls)
    (machine : Machine (Services δ)) :
    printing? (.failed (failure.attach source) (withCalls calls machine)) =
      printing? (.failed failure machine) := by
  obtain ⟨fault, statement⟩ := failure
  cases fault <;> rfl

lemma printing?_emitted (machine : Machine (Services δ)) (attempt : Attempt (Sink δ)) :
    printing? (emitted machine attempt) = some attempt := by
  rcases attempt with ⟨_ | _, sink⟩
  · rfl
  · rfl

section Accepts

variable {statement : Statement} {machine : Machine (Services δ)}
  {seen : List (Event (Services δ))} {outcome : Outcome Failure (Machine (Services δ))}
  {attempt : Attempt (Sink δ)}

/-- The sink is left as it was, so it does not matter how the computation ended. -/
lemma Accepts.of_sink_eq {sink : Sink δ} (hsink : attempt.2 = sink) :
    Accepts taken taken [] sink attempt := by
  refine ⟨?_, ?_, fun _ => ?_⟩
  · rw [hsink]
  · rw [hsink, List.append_nil]
  · rw [hsink, List.append_nil]

omit [Device δ] in
lemma exists_final_of_printing (h : printing? outcome = some attempt) :
    ∃ final, final? outcome = some final ∧ attempt.2 = final.host.sink := by
  cases outcome with
  | done final =>
    cases h
    exact ⟨final, rfl, rfl⟩
  | failed failure final =>
    obtain ⟨fault, statement⟩ := failure
    refine ⟨final, rfl, ?_⟩
    cases fault <;> (cases h; rfl)
  | exhausted => cases h

/-- An action hands to the sink what its statement sends. -/
lemma Act.accepts (hact : Act Services.reply statement machine seen outcome)
    (h : Prints machine) (hprinting : printing? outcome = some attempt) :
    Accepts taken taken (bytesOf (sentBy statement machine)) machine.host.sink attempt := by
  cases hdelivery : delivery? statement machine with
  | none =>
    obtain ⟨final, hfinal, hsink⟩ := exists_final_of_printing hprinting
    rw [sentBy_of_quiet hdelivery]
    exact .of_sink_eq (hsink.trans ((hact.onto_of_quiet h.standard hdelivery).1 final hfinal))
  | some delivery =>
    rw [hact.eq_emitted hdelivery, printing?_emitted] at hprinting
    obtain rfl : delivery.handTo machine.host.sink = attempt := Option.some.inj hprinting
    rw [sentBy_of_delivery hdelivery, bytesOf_singleton]
    exact (h.settled.handTo delivery).1

lemma Prints.emitted {after : Machine (Services δ)} {delivery : Delivery} (h : Prints machine)
    (hdone : emitted machine (delivery.handTo machine.host.sink) = .done after) :
    Prints after := by
  have hsettled := (h.settled.handTo delivery).2
  rcases hhanded : delivery.handTo machine.host.sink with ⟨_ | _, sink⟩
  · rw [hhanded] at hdone
    cases hdone
  · rw [hhanded] at hdone hsettled
    cases hdone
    exact ⟨h.standard, hsettled rfl⟩

lemma Act.prints {after : Machine (Services δ)}
    (hact : Act Services.reply statement machine seen (.done after)) (h : Prints machine) :
    Prints after := by
  cases hdelivery : delivery? statement machine with
  | none =>
    have hsink := (hact.onto_of_quiet h.standard hdelivery).1 after rfl
    exact ⟨hact.standardPrimitives h.standard, hsink ▸ h.settled⟩
  | some delivery => exact h.emitted (hact.eq_emitted hdelivery).symm

end Accepts

lemma Run.prints {statements : List Statement} {machine after : Machine (Services δ)}
    {history : List (Event (Services δ))}
    (hrun : Run Services.reply statements machine history (.done after)) (h : Prints machine) :
    Prints after :=
  (hrun.preserves (fun _ _ h => ⟨h.standard, h.settled⟩) Act.prints h).2 after rfl

/-- A run hands to the sink what its statements send. -/
theorem Run.accepts {statements : List Statement} {machine : Machine (Services δ)}
    {history : List (Event (Services δ))} {outcome : Outcome Failure (Machine (Services δ))}
    {attempt : Attempt (Sink δ)} (hrun : Run Services.reply statements machine history outcome)
    (h : Prints machine) (hprinting : printing? outcome = some attempt) :
    Accepts taken taken (bytesOf (sentDuring history)) machine.host.sink attempt := by
  induction hrun generalizing attempt with
  | nil =>
    cases hprinting
    exact .of_sink_eq rfl
  | act hact _ ih =>
    have hfirst := hact.accepts h rfl
    simpa [bytesOf_append, hact.sentDuring_seen] using hfirst.trans (ih (hact.prints h) hprinting)
  | @actFail _ _ _ after _ _ hact =>
    have hfailed := (printing?_attach _ _ after.calls after).symm.trans hprinting
    simpa [hact.sentDuring_seen] using hact.accepts h hfailed
  | call henters _ hbody _ ihbody ihtail =>
    have hinner := ihbody ⟨h.standard, h.settled⟩ rfl
    obtain ⟨hstandard, hsettled⟩ := hbody.prints ⟨h.standard, h.settled⟩
    have htail := ihtail ⟨hstandard, hsettled⟩ hprinting
    simpa [bytesOf_append, sentBy_of_enters henters] using hinner.trans htail
  | callFail henters _ _ ihbody =>
    have hfailed := (printing?_attach _ _ _ _).symm.trans hprinting
    simpa [sentBy_of_enters henters] using ihbody ⟨h.standard, h.settled⟩ hfailed

/-! ### Source texts -/

/-- What is sent ahead of a run. -/
def sentAhead (debug : Bool) (statements : List Statement) (env : Environment) : List Sending :=
  if debug then [⟨env, Statement.listAll statements⟩] else []

/-- What is sent to the sink when the source text is run. -/
def sentByRun (depth : Nat) (source : String) (session : Session δ) : List Sending :=
  match Statement.parseAll source with
  | .error _ => []
  | .ok statements =>
    sentAhead session.debug statements session.env ++ sentDuring (runEvents depth source session)

lemma printListing_eq_emitted (statements : List Statement) (machine : Machine (Services δ)) :
    services.printListing true statements machine =
      emitted machine
        ((Delivery.print (Statement.listAll statements)).handTo machine.host.sink) := by
  unfold PrintingHost.printListing
  rw [if_pos rfl]
  change _ = emitted machine ((services.sink machine.host).print (Statement.listAll statements))
  rcases (services.sink machine.host).print (Statement.listAll statements) with ⟨_ | _, sink⟩
  · rfl
  · rfl

section Sessions

variable {session : Session δ} {source : String} {statements : List Statement}
  {listed : Machine (Services δ)}

lemma session_run_of_parseAll (session : Session δ)
    (hparse : Statement.parseAll source = .ok statements) (depth : Nat) :
    session.run depth source =
      (((services.printListing session.debug statements session.machine).andThen
        (execute services.reply depth statements)).map session.withMachine).mapError .failed := by
  rw [session_run, services.run_of_parseAll _ depth hparse, map_mapError]

lemma session_run_of_listed (hparse : Statement.parseAll source = .ok statements)
    (hlist : services.printListing session.debug statements session.machine = .done listed)
    (depth : Nat) :
    session.run depth source =
      ((execute services.reply depth statements listed).map session.withMachine).mapError
        .failed := by
  rw [session_run_of_parseAll session hparse, hlist]
  rfl

lemma sentByRun_of_listed (hparse : Statement.parseAll source = .ok statements)
    (hlist : services.printListing session.debug statements session.machine = .done listed)
    (depth : Nat) :
    sentByRun depth source session = sentAhead session.debug statements session.env ++
      sentDuring (events services.reply depth statements listed) := by
  simp only [sentByRun, runEvents, hparse, session_printListing, hlist]
  rfl

lemma sentByRun_of_unlisted {failure : Failure}
    (hparse : Statement.parseAll source = .ok statements)
    (hlist : services.printListing session.debug statements session.machine =
      .failed failure listed) (depth : Nat) :
    sentByRun depth source session = sentAhead session.debug statements session.env := by
  simp only [sentByRun, runEvents, hparse, session_printListing, hlist]
  exact List.append_nil _

omit [Device δ] in
lemma session_final (session : Session δ) {final : Session δ}
    {outcome : Outcome Failure (Machine (Services δ))}
    (hfinal : final? ((outcome.map session.withMachine).mapError RunError.failed) = some final) :
    final? outcome = some final.machine := by
  cases outcome with
  | done machine =>
    cases hfinal
    rfl
  | failed failure machine =>
    cases hfinal
    rfl
  | exhausted => cases hfinal

lemma printListing_accepts {machine : Machine (Services δ)} {attempt : Attempt (Sink δ)}
    (h : Prints machine) {debug : Bool}
    (hprinting : printing? (services.printListing debug statements machine) = some attempt) :
    Accepts taken taken (bytesOf (sentAhead debug statements machine.env)) machine.host.sink
      attempt := by
  cases debug with
  | false =>
    cases hprinting
    exact .of_sink_eq rfl
  | true =>
    rw [printListing_eq_emitted, printing?_emitted] at hprinting
    obtain rfl := Option.some.inj hprinting
    rw [sentAhead, if_pos rfl, bytesOf_singleton]
    exact (h.settled.handTo (.print (Statement.listAll statements))).1

lemma printListing_prints {machine : Machine (Services δ)} (h : Prints machine) {debug : Bool}
    (hlist : services.printListing debug statements machine = .done listed) : Prints listed := by
  cases debug with
  | false =>
    cases hlist
    exact h
  | true =>
    rw [printListing_eq_emitted] at hlist
    exact h.emitted hlist

/-- The listing and the program that is run after it hand to the sink what is sent. -/
lemma source_accepts {attempt : Attempt (Sink δ)} (h : Prints session.machine)
    (hparse : Statement.parseAll source = .ok statements) {depth : Nat}
    (hprinting : printing? ((services.printListing session.debug statements session.machine).andThen
      (execute services.reply depth statements)) = some attempt) :
    Accepts taken taken (bytesOf (sentByRun depth source session)) session.services.sink
      attempt := by
  cases hlist : services.printListing session.debug statements session.machine with
  | done listed =>
    have hahead := printListing_accepts h (congrArg printing? hlist)
    rw [hlist] at hprinting
    rw [sentByRun_of_listed hparse hlist, bytesOf_append]
    have hends : execute services.reply depth statements listed ≠ .exhausted := by
      intro he
      simp only [Outcome.andThen, he] at hprinting
      cases hprinting
    have hrun := run_of_execute services.reply depth statements listed hends
    exact hahead.trans (hrun.accepts (printListing_prints h hlist) hprinting)
  | failed failure listed =>
    rw [hlist] at hprinting
    rw [sentByRun_of_unlisted hparse hlist]
    exact printListing_accepts h ((congrArg printing? hlist).trans hprinting)
  | exhausted =>
    rw [hlist] at hprinting
    cases hprinting

omit [Device δ] in
lemma exists_printing_of_final {outcome : Outcome Failure (Machine (Services δ))}
    {final : Machine (Services δ)} (h : final? outcome = some final) :
    ∃ result, printing? outcome = some (result, final.host.sink) ∧
      (result = .ok () ∨
        ∃ cause statement, outcome = .failed ⟨.output cause, statement⟩ final) := by
  cases outcome with
  | done machine =>
    cases h
    exact ⟨_, rfl, .inl rfl⟩
  | failed failure machine =>
    cases h
    obtain ⟨fault, statement⟩ := failure
    cases fault with
    | output cause => exact ⟨_, rfl, .inr ⟨cause, statement, rfl⟩⟩
    | _ => exact ⟨_, rfl, .inl rfl⟩
  | exhausted => cases h

/-- Whatever its device does, a sink that starts settled loses nothing that it took, and takes what
is sent in the order in which it is sent. If the run ends without a failure for output, the sink has
taken all of it. -/
theorem run_takes_what_is_sent (session : Session δ) (depth : Nat) (source : String)
    (h : Prints session.machine) {final : Session δ}
    (hfinal : final? (session.run depth source) = some final) :
    taken session.services.sink <+: taken final.services.sink ∧
    taken final.services.sink <+:
      taken session.services.sink ++ bytesOf (sentByRun depth source session) ∧
    (taken final.services.sink =
        taken session.services.sink ++ bytesOf (sentByRun depth source session) ∨
      ∃ cause statement,
        session.run depth source = .failed (.failed ⟨.output cause, statement⟩) final) := by
  obtain ⟨statements, hparse⟩ := exists_parseAll source
  have hrun := session_run_of_parseAll session hparse depth
  rw [hrun] at hfinal
  obtain ⟨result, hprinting, hresult⟩ := exists_printing_of_final (session_final session hfinal)
  obtain ⟨hkept, horder, hcomplete⟩ := source_accepts h hparse hprinting
  refine ⟨hkept, horder, ?_⟩
  obtain rfl | ⟨cause, statement, hfailed⟩ := hresult
  · exact .inl (hcomplete rfl)
  · rw [hfailed] at hrun hfinal
    have hself : session.withMachine final.machine = final := Option.some.inj hfinal
    exact .inr ⟨cause, statement, hrun.trans (congrArg _ hself)⟩

/-- A new session on a full console is one in which this holds. -/
example : Prints (Session.new (.console true "")).defineStandard.machine :=
  ⟨standardPrimitives_defineStandard _, nofun, rfl⟩

end Sessions

end LineScript.Proofs
