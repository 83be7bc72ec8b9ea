import LineScript.Proofs.Sendings
import LineScript.Proofs.Sinks

/-!
# Output is delivered or its loss is reported

What a program sends does not depend on the sink, so its run on a buffer says what it sends to any
other one. A writer that takes a limited number of bytes takes all that is sent, or else the run
fails at the first text that does not fit (`Lands`). `Act.lands` says this of one statement and
`Run.lands` of a whole run, through any nesting of calls.
-/

namespace LineScript.Proofs

open Text

/-! ### Texts that do not fit -/

/-- These are the variables at the time when the text was sent that has the byte after the first
`limit` ones. -/
def Crosses (limit : Nat) (sent : List Sending) (env : Environment) : Prop :=
  ∃ before text after, sent = before ++ ⟨env, text⟩ :: after ∧
    (bytesOf before).length ≤ limit ∧ limit < (bytesOf before ++ utf8 text).length

/-- The sink is a writer that takes no more than `limit` bytes but does not fail otherwise, and has
taken what it can of the texts. -/
def Holds (limit : Nat) (sent : List Sending) (sink : Sink) : Prop :=
  ∃ flushes, sink = .writer { limit := some limit, bytes := (bytesOf sent).take limit, flushes }

lemma Crosses.append {limit : Nat} {sent : List Sending} {env : Environment}
    (h : Crosses limit sent env) (more : List Sending) : Crosses limit (sent ++ more) env := by
  obtain ⟨before, text, after, rfl, hfits, hlong⟩ := h
  exact ⟨before, text, after ++ more, by simp, hfits, hlong⟩

lemma Crosses.lt_length {limit : Nat} {sent : List Sending} {env : Environment}
    (h : Crosses limit sent env) : limit < (bytesOf sent).length := by
  obtain ⟨before, text, after, rfl, -, hlong⟩ := h
  have hsplit : before ++ ⟨env, text⟩ :: after = before ++ ([⟨env, text⟩] ++ after) := rfl
  rw [hsplit, bytesOf_append, bytesOf_append, bytesOf_singleton]
  simp only [List.length_append] at hlong ⊢
  omega

/-- The sink and the variables are left at the text that does not fit. -/
structure CutOff (limit : Nat) (sent : List Sending) (sink : Sink) (env : Environment) : Prop where
  holds : Holds limit sent sink
  crosses : Crosses limit sent env

/-- Where the sink is full, it does not matter what would be sent later. -/
lemma CutOff.append {limit : Nat} {sent : List Sending} {sink : Sink} {env : Environment}
    (h : CutOff limit sent sink env) (more : List Sending) :
    CutOff limit (sent ++ more) sink env := by
  obtain ⟨⟨flushes, rfl⟩, hcrosses⟩ := h
  refine ⟨⟨flushes, ?_⟩, hcrosses.append more⟩
  rw [bytesOf_append, List.take_append_of_le_length hcrosses.lt_length.le]

/-! ### Limited writers -/

lemma writeAll_full {limit : Nat} {taken : List UInt8} (hfull : limit ≤ taken.length)
    (flushes : Nat) {bytes : List UInt8} (hbytes : bytes ≠ []) :
    Device.writeAll ({ limit := some limit, bytes := taken, flushes } : Writer) bytes =
      (.error .shortWrite, { limit := some limit, bytes := taken, flushes }) := by
  obtain ⟨byte, rest, rfl⟩ := List.exists_cons_of_ne_nil hbytes
  have hroom : limit - taken.length = 0 := by omega
  apply writeAll_of_stall
  simp [Device.write, Writer.write, Writer.capacity, hroom]

lemma writeAll_limited {limit : Nat} {taken : List UInt8} (htaken : taken.length ≤ limit)
    (flushes : Nat) (bytes : List UInt8) :
    Device.writeAll ({ limit := some limit, bytes := taken, flushes } : Writer) bytes =
      (if (taken ++ bytes).length ≤ limit then .ok () else .error .shortWrite,
        { limit := some limit, bytes := (taken ++ bytes).take limit, flushes }) := by
  cases bytes with
  | nil =>
    rw [List.append_nil, if_pos htaken, List.take_of_length_le htaken]
    rfl
  | cons byte rest =>
    have htake : (taken ++ byte :: rest).take limit =
        taken ++ (byte :: rest).take (min (byte :: rest).length (limit - taken.length)) := by
      rw [List.take_append, List.take_of_length_le htaken, List.take_eq_take_min, Nat.min_comm]
    have hwrite : Device.write ({ limit := some limit, bytes := taken, flushes } : Writer)
        (byte :: rest) = (.ok (min (byte :: rest).length (limit - taken.length)),
          { limit := some limit, bytes := (taken ++ byte :: rest).take limit, flushes }) := by
      rw [htake]
      rfl
    -- One write takes what there is room for; what is left after it stalls.
    cases hcount : min (byte :: rest).length (limit - taken.length) with
    | zero =>
      have hlong : ¬(taken ++ byte :: rest).length ≤ limit := by
        simp only [List.length_append, List.length_cons] at hcount ⊢
        omega
      rw [hcount] at hwrite
      rw [writeAll_of_stall hwrite, if_neg hlong]
    | succ count =>
      rw [hcount] at hwrite
      rw [writeAll_of_write hwrite]
      by_cases hroom : (taken ++ byte :: rest).length ≤ limit
      · have hnone : rest.drop count = [] := by
          simp only [List.length_append, List.length_cons, List.drop_eq_nil_iff] at hcount hroom ⊢
          omega
        rw [hnone, if_pos hroom]
        rfl
      · have hsome : rest.drop count ≠ [] := by
          simp only [List.length_append, List.length_cons, ne_eq, List.drop_eq_nil_iff]
            at hcount hroom ⊢
          omega
        have hfull : limit ≤ ((taken ++ byte :: rest).take limit).length := by
          rw [List.length_take]
          omega
        rw [writeAll_full hfull flushes hsome, if_neg hroom]

/-- A limited writer takes what it can of a text, and says so if that is not all. -/
lemma Holds.handTo {limit : Nat} {sent : List Sending} {sink : Sink} (h : Holds limit sent sink)
    (hfits : (bytesOf sent).length ≤ limit) (env : Environment) (delivery : Delivery) :
    ∃ after, Holds limit (sent ++ [⟨env, delivery.text⟩]) after ∧
      delivery.handTo sink =
        (if (bytesOf sent ++ utf8 delivery.text).length ≤ limit then .ok () else .error .shortWrite,
          after) := by
  obtain ⟨flushes, rfl⟩ := h
  rw [List.take_of_length_le hfits]
  unfold Holds
  rw [bytesOf_append, bytesOf_singleton]
  generalize bytesOf sent = taken at hfits ⊢
  cases delivery with
  | print text =>
    rw [Delivery.text]
    simp only [Delivery.handTo, Sink.print, Device.print, writeAll_limited hfits]
    by_cases hroom : (taken ++ utf8 text).length ≤ limit
    · simp only [if_pos hroom, Attempt.andThen]
      exact ⟨_, ⟨flushes + 1, rfl⟩, rfl⟩
    · simp only [if_neg hroom, Attempt.andThen]
      exact ⟨_, ⟨flushes, rfl⟩, rfl⟩
  | println text =>
    rw [Delivery.text, utf8_append, ← List.append_assoc]
    simp only [Delivery.handTo, Sink.println, Device.println, writeAll_limited hfits]
    by_cases hroom : (taken ++ utf8 text).length ≤ limit
    · simp only [if_pos hroom, Attempt.andThen, List.take_of_length_le hroom,
        writeAll_limited hroom]
      exact ⟨_, ⟨flushes, rfl⟩, rfl⟩
    · -- Nothing of the newline is taken either, so the whole line is cut at the same byte.
      have hline : ¬(taken ++ utf8 text ++ utf8 "\n").length ≤ limit := by
        rw [List.length_append]
        omega
      simp only [if_neg hroom, Attempt.andThen, if_neg hline,
        List.take_append_of_le_length (Nat.le_of_not_le hroom)]
      exact ⟨_, ⟨flushes, rfl⟩, rfl⟩

/-! ### Runs on a buffer -/

/-- The machine runs on the standard library and prints to a buffer that keeps this text. -/
structure Buffered (kept : String) (machine : Machine Services) : Prop where
  standard : StandardPrimitives machine
  sink : machine.host.sink = .buffer kept

lemma handTo_buffer (kept : String) (delivery : Delivery) :
    delivery.handTo (.buffer kept : Sink) = (.ok (), .buffer (kept ++ delivery.text)) := by
  cases delivery with
  | print text => rfl
  | println text => simp only [Delivery.handTo, Sink.println, Delivery.text, String.append_assoc]

/-- An action on a buffer adds to it what the statement sends. -/
lemma Act.buffered {statement : Statement} {machine : Machine Services}
    {seen : List (Event Services)} {outcome : Outcome Failure (Machine Services)} {kept : String}
    (hact : Act Services.reply statement machine seen outcome) (h : Buffered kept machine) :
    ∀ after, final? outcome = some after →
      Buffered (kept ++ printed (sentBy statement machine)) after := by
  intro after hafter
  refine ⟨(hact.effect h.standard).standardPrimitives h.standard after hafter, ?_⟩
  cases hdelivery : delivery? statement machine with
  | some delivery =>
    rw [hact.eq_emitted hdelivery, h.sink, handTo_buffer] at hafter
    cases hafter
    rw [sentBy_of_delivery hdelivery, printed_singleton]
    rfl
  | none =>
    rw [(hact.onto_of_quiet h.standard hdelivery).1 after hafter, h.sink,
      sentBy_of_quiet hdelivery]
    simp [printed]

/-- A run on a buffer adds to it what its statements send. -/
theorem Run.buffered {statements : List Statement} {machine : Machine Services}
    {history : List (Event Services)} {outcome : Outcome Failure (Machine Services)} {kept : String}
    (hrun : Run Services.reply statements machine history outcome) (h : Buffered kept machine) :
    ∀ final, final? outcome = some final →
      Buffered (kept ++ printed (sentDuring history)) final := by
  induction hrun generalizing kept with
  | nil =>
    rintro final ⟨⟩
    simpa [printed] using h
  | act hact _ ih =>
    intro final hfinal
    have htail := ih (hact.buffered h _ rfl) final hfinal
    simpa [printed_append, hact.sentDuring_seen, String.append_assoc] using htail
  | actFail hact =>
    rintro final ⟨⟩
    simpa [hact.sentDuring_seen] using hact.buffered h _ rfl
  | call henters _ _ _ ihbody ihtail =>
    intro final hfinal
    obtain ⟨hstandard, hsink⟩ := ihbody ⟨h.standard, h.sink⟩ _ rfl
    have htail := ihtail ⟨hstandard, hsink⟩ final hfinal
    simpa [printed_append, sentBy_of_enters henters, String.append_assoc] using htail
  | callFail henters _ _ ihbody =>
    rintro final ⟨⟩
    obtain ⟨hstandard, hsink⟩ := ihbody ⟨h.standard, h.sink⟩ _ rfl
    refine ⟨hstandard, ?_⟩
    simpa [sentBy_of_enters henters] using hsink

/-! ### Runs on a limited writer -/

/-- What comes of a run on a writer that takes no more than `limit` bytes, where these texts are sent
in the run on a buffer, which has this outcome. Either all is taken, and the outcome is the same but
for the sink. Or the run fails for a write, the writer is full, and the variables are those of the
time when the text was sent that does not fit. -/
inductive Lands (limit : Nat) (sent : List Sending) (outcome : Outcome Failure (Machine Services)) :
    Outcome Failure (Machine Services) → Prop
  | whole {sink : Sink} (hfits : (bytesOf sent).length ≤ limit) (hsink : Holds limit sent sink) :
      Lands limit sent outcome (outcome.map (services.onto sink))
  | part {failure : Failure} {final : Machine Services} (hfault : failure.fault = .output .shortWrite)
      (hcut : CutOff limit sent final.host.sink final.env) :
      Lands limit sent outcome (.failed failure final)

section Lands

variable {limit : Nat} {past : List Sending} {sink : Sink}

lemma emitted_lands (hfits : (bytesOf past).length ≤ limit) (hsink : Holds limit past sink)
    (kept : String) (delivery : Delivery) (machine : Machine Services) :
    Lands limit (past ++ [⟨machine.env, delivery.text⟩])
      (emitted machine (delivery.handTo (.buffer kept)))
      (emitted (services.onto sink machine) (delivery.handTo sink)) := by
  obtain ⟨after, hafter, hhanded⟩ := hsink.handTo hfits machine.env delivery
  rw [handTo_buffer, hhanded]
  by_cases hroom : (bytesOf past ++ utf8 delivery.text).length ≤ limit
  · rw [if_pos hroom]
    refine Lands.whole ?_ hafter
    rwa [bytesOf_append, bytesOf_singleton]
  · rw [if_neg hroom]
    exact .part rfl ⟨hafter, past, delivery.text, [], rfl, hfits, by omega⟩

lemma Act.lands {statement : Statement} {machine : Machine Services} {seen : List (Event Services)}
    {outcome : Outcome Failure (Machine Services)} {kept : String}
    (hact : Act Services.reply statement machine seen outcome) (h : Buffered kept machine)
    (hfits : (bytesOf past).length ≤ limit) (hsink : Holds limit past sink) :
    ∃ seen other, Act Services.reply statement (services.onto sink machine) seen other ∧
      Lands limit (past ++ sentBy statement machine) outcome other := by
  cases hdelivery : delivery? statement machine with
  | none =>
    obtain ⟨other, hother⟩ := (hact.onto_of_quiet h.standard hdelivery).2 sink
    rw [sentBy_of_quiet hdelivery, List.append_nil]
    exact ⟨other, _, hother, .whole hfits hsink⟩
  | some delivery =>
    have hswapped : delivery? statement (services.onto sink machine) = some delivery := hdelivery
    obtain ⟨other, hother⟩ := act_of_delivery hswapped
    rw [hact.eq_emitted hdelivery, h.sink, sentBy_of_delivery hdelivery]
    exact ⟨other, _, hother, emitted_lands hfits hsink kept delivery machine⟩

/-- What a run on a buffer sends lands on every limited writer. Here `past` is what was sent before
the run, all of which the writer has taken. -/
theorem Run.lands {statements : List Statement} {machine : Machine Services}
    {history : List (Event Services)} {outcome : Outcome Failure (Machine Services)} {kept : String}
    (hrun : Run Services.reply statements machine history outcome) (h : Buffered kept machine)
    (hfits : (bytesOf past).length ≤ limit) (hsink : Holds limit past sink) :
    ∃ other, EndsIn Services.reply statements (services.onto sink machine) other ∧
      Lands limit (past ++ sentDuring history) outcome other := by
  -- Once a text does not fit, the failure is passed on by `actFail` and `callFail`; until then each
  -- part of the run starts with a writer that holds all that was sent before it.
  induction hrun generalizing kept past sink with
  | nil =>
    rw [sentDuring_nil, List.append_nil]
    exact ⟨_, .nil, .whole hfits hsink⟩
  | act hact _ ih =>
    obtain ⟨seen, other, hother, hlands⟩ := hact.lands h hfits hsink
    simp only [List.cons_append, sentDuring_start, sentDuring_append, hact.sentDuring_seen,
      List.nil_append, sentDuring_finish, ← List.append_assoc]
    cases hlands with
    | whole hfits hsink =>
      obtain ⟨rest, hrest, hlands⟩ := ih (hact.buffered h _ rfl) hfits hsink
      exact ⟨rest, .act hother hrest, hlands⟩
    | part hfault hcut =>
      exact ⟨_, .actFail hother, .part hfault (hcut.append _)⟩
  | actFail hact =>
    obtain ⟨seen, other, hother, hlands⟩ := hact.lands h hfits hsink
    simp only [sentDuring_start, hact.sentDuring_seen, List.append_nil]
    cases hlands with
    | whole hfits hsink => exact ⟨_, .actFail hother, .whole hfits hsink⟩
    | part hfault hcut => exact ⟨_, .actFail hother, .part hfault hcut⟩
  | call henters hpush hbody _ ihbody ihtail =>
    obtain ⟨other, hother, hlands⟩ := ihbody ⟨h.standard, h.sink⟩ hfits hsink
    obtain ⟨hstandard, hkept⟩ := hbody.buffered ⟨h.standard, h.sink⟩ _ rfl
    simp only [List.cons_append, sentDuring_start, sentBy_of_enters henters, List.nil_append,
      sentDuring_enter, sentDuring_append, sentDuring_leave, sentDuring_finish,
      ← List.append_assoc]
    cases hlands with
    | whole hfits hsink =>
      obtain ⟨rest, hrest, hlands⟩ := ihtail ⟨hstandard, hkept⟩ hfits hsink
      exact ⟨rest, .call henters hpush hother hrest, hlands⟩
    | part hfault hcut =>
      exact ⟨_, .callFail henters hpush hother, .part hfault (hcut.append _)⟩
  | callFail henters hpush _ ihbody =>
    obtain ⟨other, hother, hlands⟩ := ihbody ⟨h.standard, h.sink⟩ hfits hsink
    simp only [List.cons_append, sentDuring_start, sentBy_of_enters henters, List.nil_append,
      sentDuring_enter, sentDuring_append, sentDuring_leave, sentDuring_nil, List.append_nil]
    cases hlands with
    | whole hfits hsink => exact ⟨_, .callFail henters hpush hother, .whole hfits hsink⟩
    | part hfault hcut =>
      exact ⟨_, .callFail henters hpush hother, .part hfault hcut⟩

end Lands

/-! ### Source texts -/

def printingTo (sink : Sink) (session : Session) : Session :=
  { session with services := { session.services with sink } }

/-- The run of the source text ends with this outcome. -/
def SourceEndsIn (session : Session) (source : String) (outcome : Outcome RunError Session) : Prop :=
  outcome ≠ .exhausted ∧ ∃ depth, session.run depth source = outcome

section Source

variable {kept : String} {statements : List Statement} {machine : Machine Services}

lemma printListing_buffered (h : Buffered kept machine) (debug : Bool)
    (statements : List Statement) :
    ∃ listed, services.printListing debug statements machine = .done listed ∧
      Buffered (kept ++ printed (sentAhead debug statements machine.env)) listed := by
  cases debug with
  | false => exact ⟨machine, rfl, by simpa [sentAhead, printed] using h⟩
  | true =>
    rw [printListing_eq_emitted, h.sink, handTo_buffer, sentAhead, if_pos rfl, printed_singleton]
    exact ⟨_, rfl, h.standard, rfl⟩

lemma printListing_lands {limit : Nat} {sink : Sink} (h : Buffered kept machine)
    (hsink : Holds limit [] sink) (debug : Bool) (statements : List Statement) :
    Lands limit (sentAhead debug statements machine.env)
      (services.printListing debug statements machine)
      (services.printListing debug statements (services.onto sink machine)) := by
  have hfits : (bytesOf []).length ≤ limit := Nat.zero_le limit
  cases debug with
  | false => exact .whole hfits hsink
  | true =>
    rw [printListing_eq_emitted, printListing_eq_emitted, h.sink]
    exact emitted_lands hfits hsink kept (.print (Statement.listAll statements)) machine

/-- A source text that is run to its end on a buffer lands on every limited writer. -/
lemma listed_lands {limit depth : Nat} {sink : Sink} {listed : Machine Services}
    (h : Buffered kept machine) (hsink : Holds limit [] sink) {debug : Bool}
    (hlist : services.printListing debug statements machine = .done listed)
    (hends : execute services.reply depth statements listed ≠ .exhausted) :
    ∃ other, other ≠ .exhausted ∧
      (∃ depth, (services.printListing debug statements (services.onto sink machine)).andThen
        (execute services.reply depth statements) = other) ∧
      Lands limit (sentAhead debug statements machine.env ++
          sentDuring (events services.reply depth statements listed))
        (execute services.reply depth statements listed) other := by
  have hahead := printListing_lands h hsink debug statements
  obtain ⟨found, hfound, hbuffered⟩ := printListing_buffered h debug statements
  obtain rfl : listed = found := Outcome.done.inj (hlist.symm.trans hfound)
  rw [hlist] at hahead
  generalize services.printListing debug statements (services.onto sink machine) = ahead at hahead ⊢
  cases hahead with
  | whole hfits hsink =>
    have hrun := run_of_execute services.reply depth statements listed hends
    obtain ⟨other, ⟨hne, deeper, hother⟩, hlands⟩ := hrun.lands hbuffered hfits hsink
    exact ⟨other, hne, ⟨deeper, hother⟩, hlands⟩
  | part hfault hcut =>
    exact ⟨.failed _ _, nofun, ⟨0, rfl⟩, .part hfault (hcut.append _)⟩

/-- A run on a buffer is the same on a sink that discards what is printed. -/
lemma execute_silent (h : Buffered kept machine) (depth : Nat) (statements : List Statement) :
    execute services.reply depth statements (services.onto .silent machine) =
      (execute services.reply depth statements machine).map (services.onto .silent) := by
  have hsinks : Silenced (.buffer kept : Sink) .silent := ⟨⟨kept, rfl⟩, rfl⟩
  have hruns := execute_alike (services_alike sinksAlike_silenced) depth statements _ _
    (services.swapped_onto hsinks machine)
  rw [services.onto_sink h.sink] at hruns
  refine hruns.eq_map ?_
  rintro ⟨calls, env, first⟩ ⟨calls', env', second⟩ ⟨hcalls, henv, sink, hsink, hsecond⟩
  obtain rfl : calls' = calls := hcalls
  obtain rfl : env' = env := henv
  obtain rfl : second = services.withSink first sink := hsecond
  obtain rfl : sink = .silent := hsink.2
  rfl

lemma printListing_silent {listed : Machine Services} (h : Buffered kept machine) {debug : Bool}
    (hlist : services.printListing debug statements machine = .done listed) :
    services.printListing debug statements (services.onto .silent machine) =
      .done (services.onto .silent listed) := by
  cases debug with
  | false =>
    obtain rfl := Outcome.done.inj hlist
    rfl
  | true =>
    rw [printListing_eq_emitted, h.sink, handTo_buffer] at hlist
    obtain rfl := Outcome.done.inj hlist
    rfl

end Source

/-! ### Sessions -/

section Sessions

variable {session : Session} {kept source : String} {statements : List Statement}
  {listed : Machine Services}

/-- The session that is left by a run whose outcome is the same but for the sink. -/
lemma session_outcome_onto (session : Session) (sink : Sink)
    (outcome : Outcome Failure (Machine Services)) :
    ((outcome.map (services.onto sink)).map session.withMachine).mapError RunError.failed =
      ((outcome.map session.withMachine).mapError .failed).map (printingTo sink) := by
  cases outcome <;> rfl

lemma SourceEndsIn.of_listed {sink : Sink} {other : Outcome Failure (Machine Services)}
    (hparse : Statement.parseAll source = .ok statements) {depth : Nat}
    (hruns : (services.printListing session.debug statements
      (services.onto sink session.machine)).andThen
        (execute services.reply depth statements) = other) (hends : other ≠ .exhausted) :
    SourceEndsIn (printingTo sink session) source
      ((other.map session.withMachine).mapError .failed) := by
  constructor
  · cases other with
    | exhausted => exact absurd rfl hends
    | _ => nofun
  · refine ⟨depth, ?_⟩
    rw [session_run, services.run_of_parseAll _ depth hparse, map_mapError]
    exact congrArg (fun outcome => (Outcome.map session.withMachine outcome).mapError
      RunError.failed) hruns

/-- Output is delivered or its loss is reported, and a program does not notice where it prints. If a
source text is run on the standard library and on a buffer, and ends, then the buffer keeps what was
sent to it. A sink that discards what is printed makes no other difference. Neither does a new writer
that takes no more than `limit` bytes, if that is enough for all that is sent; it then has these
bytes. If it is not enough, the run fails for a write that was cut short, the writer has the first
`limit` bytes, and the variables are those with which the run on the buffer sent the text that does
not fit. -/
theorem delivery_is_exact_or_reported (session : Session) (kept : String) (depth : Nat)
    (source : String) (hstandard : StandardPrimitives session.machine)
    (hsink : session.services.sink = .buffer kept)
    (hends : session.run depth source ≠ .exhausted) :
    (∀ final, final? (session.run depth source) = some final →
      final.services.sink = .buffer (kept ++ printed (sentByRun depth source session))) ∧
    (printingTo .silent session).run depth source =
      (session.run depth source).map (printingTo .silent) ∧
    ∀ limit : Nat,
      ((bytesOf (sentByRun depth source session)).length ≤ limit → ∃ flushes,
        SourceEndsIn (printingTo (.writer { limit := some limit }) session) source
          ((session.run depth source).map (printingTo (.writer
            { limit := some limit, bytes := bytesOf (sentByRun depth source session), flushes })))) ∧
      (limit < (bytesOf (sentByRun depth source session)).length →
        ∃ cause statement final flushes,
          SourceEndsIn (printingTo (.writer { limit := some limit }) session) source
            (.failed (.failed ⟨.output cause, statement⟩) final) ∧
          cause.message = "failed to write whole buffer" ∧
          final.services.sink = .writer
            { limit := some limit, bytes := (bytesOf (sentByRun depth source session)).take limit,
              flushes } ∧
          Crosses limit (sentByRun depth source session) final.env) := by
  have h : Buffered kept session.machine := ⟨hstandard, hsink⟩
  obtain ⟨statements, hparse⟩ := exists_parseAll source
  obtain ⟨listed, hlist, hbuffered⟩ := printListing_buffered h session.debug statements
  rw [session_run_of_listed hparse hlist] at hends ⊢
  rw [sentByRun_of_listed hparse hlist]
  have hne : execute services.reply depth statements listed ≠ .exhausted := by
    intro he
    rw [he] at hends
    exact hends rfl
  refine ⟨?_, ?_, fun limit => ?_⟩
  · intro final hfinal
    have hrun := run_of_execute services.reply depth statements listed hne
    have hkept := (hrun.buffered hbuffered _ (session_final session hfinal)).sink
    rw [printed_append, ← String.append_assoc]
    exact hkept
  · have hlist' : services.printListing (printingTo .silent session).debug statements
        (printingTo .silent session).machine = .done (services.onto .silent listed) :=
      printListing_silent h hlist
    rw [session_run_of_listed hparse hlist', execute_silent hbuffered]
    exact session_outcome_onto session .silent _
  · have hfresh : Holds limit [] (.writer { limit := some limit }) :=
      ⟨0, by simp [bytesOf, printed, utf8]⟩
    obtain ⟨other, hother, ⟨deeper, hruns⟩, hlands⟩ := listed_lands h hfresh hlist hne
    have hsource := SourceEndsIn.of_listed hparse hruns hother
    cases hlands with
    | whole hfits hholds =>
      obtain ⟨flushes, rfl⟩ := hholds
      rw [List.take_of_length_le hfits, session_outcome_onto] at hsource
      exact ⟨fun _ => ⟨flushes, hsource⟩, fun hlong => absurd hfits (Nat.not_le.2 hlong)⟩
    | @part failure final hfault hcut =>
      obtain ⟨⟨flushes, hholds⟩, hcross⟩ := hcut
      have hlong := hcross.lt_length
      refine ⟨fun hfits => absurd hfits (Nat.not_le.2 hlong), fun _ => ?_⟩
      obtain ⟨fault, statement⟩ := failure
      obtain rfl : fault = .output .shortWrite := hfault
      exact ⟨.shortWrite, statement, session.withMachine final, flushes, hsource, rfl, hholds,
        hcross⟩

end Sessions

/-- A program that prints a character of two bytes in a procedure, and more after that. -/
def wideSource : String :=
  "var x é; f; print b"

theorem delivery_is_exact_or_reported_inside_character :
    bytesOf (sentByRun 2 wideSource printingX) = [0xc3, 0xa9, 0x0a, 0x62] ∧
    (∀ final, final? (printingX.run 2 wideSource) = some final →
      final.services.sink = .buffer ("" ++ printed (sentByRun 2 wideSource printingX))) ∧
    (printingTo .silent printingX).run 2 wideSource =
      (printingX.run 2 wideSource).map (printingTo .silent) ∧
    (∃ flushes, SourceEndsIn (printingTo (.writer { limit := some 4 }) printingX) wideSource
      ((printingX.run 2 wideSource).map (printingTo (.writer
        { limit := some 4, bytes := bytesOf (sentByRun 2 wideSource printingX), flushes })))) ∧
    ∃ cause statement final flushes,
      SourceEndsIn (printingTo (.writer { limit := some 1 }) printingX) wideSource
        (.failed (.failed ⟨.output cause, statement⟩) final) ∧
      cause.message = "failed to write whole buffer" ∧
      final.services.sink = .writer
        { limit := some 1, bytes := (bytesOf (sentByRun 2 wideSource printingX)).take 1,
          flushes } ∧
      Crosses 1 (sentByRun 2 wideSource printingX) final.env := by
  have hstandard : StandardPrimitives printingX.machine :=
    (standardPrimitives_defineStandard (.buffer "")).assign "f" nofun
  have hends : printingX.run 2 wideSource ≠ .exhausted := by
    intro he
    have hnone : (final? (printingX.run 2 wideSource)).isSome = false := by rw [he]; rfl
    exact absurd hnone (by decide +kernel)
  have hbytes : bytesOf (sentByRun 2 wideSource printingX) = [0xc3, 0xa9, 0x0a, 0x62] := by
    decide +kernel
  obtain ⟨hbuffer, hsilent, hwriter⟩ :=
    delivery_is_exact_or_reported printingX "" 2 wideSource hstandard rfl hends
  refine ⟨hbytes, hbuffer, hsilent, (hwriter 4).1 ?_, (hwriter 1).2 ?_⟩
  · rw [hbytes]
    decide
  · rw [hbytes]
    decide

end LineScript.Proofs
