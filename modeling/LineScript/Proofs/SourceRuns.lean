import LineScript.Proofs.Inlining
import LineScript.Proofs.Reading
import LineScript.Proofs.StandardLibrary

/-!
# Running source texts

A session runs source texts on the primitives of `Services`. `PrintingHost.run` is the same on any
host, whatever its primitives do and whatever they keep, and `Session.run` is the case of `Services`
(`session_run`). A text that a terminator cuts in two is run as its two parts.
-/

namespace LineScript.Proofs

open Text

variable {δ σ : Type}

/-- A host whose state holds a sink. Nothing is assumed of its primitives, nor of what else is in
its state. -/
structure PrintingHost (δ σ : Type) where
  reply : Host σ
  sink : σ → Sink δ
  withSink : σ → Sink δ → σ
  sink_withSink : ∀ state kept, sink (withSink state kept) = kept
  withSink_sink : ∀ state, withSink state (sink state) = state
  withSink_withSink : ∀ state first second,
    withSink (withSink state first) second = withSink state second

namespace PrintingHost

/-- The machine with another sink. -/
def onto (host : PrintingHost δ σ) (sink : Sink δ) (machine : Machine σ) : Machine σ :=
  { machine with host := host.withSink machine.host sink }

lemma onto_sink (host : PrintingHost δ σ) {machine : Machine σ} {sink : Sink δ}
    (hsink : host.sink machine.host = sink) : host.onto sink machine = machine := by
  rw [← hsink, onto, host.withSink_sink]

variable [Device δ]

def printListing (host : PrintingHost δ σ) (debug : Bool) (statements : List Statement)
    (machine : Machine σ) : Outcome Failure (Machine σ) :=
  if debug then
    match (host.sink machine.host).print (Statement.listAll statements) with
    | (.ok (), sink) => .done (host.onto sink machine)
    | (.error cause, sink) => .failed { fault := .output cause } (host.onto sink machine)
  else .done machine

/-- Reads a source text and runs it. -/
def run (host : PrintingHost δ σ) (debug : Bool) (depth : Nat) (source : String)
    (machine : Machine σ) : Outcome RunError (Machine σ) :=
  match Statement.parseAll source with
  | .error error => .failed (.parse error) machine
  | .ok statements =>
    ((host.printListing debug statements machine).andThen
      (execute host.reply depth statements)).mapError .failed

lemma run_of_parseAll (host : PrintingHost δ σ) (debug : Bool) (depth : Nat) {source : String}
    {statements : List Statement} (hparse : Statement.parseAll source = .ok statements)
    (machine : Machine σ) :
    host.run debug depth source machine =
      ((host.printListing debug statements machine).andThen
        (execute host.reply depth statements)).mapError .failed := by
  simp only [run, hparse]

lemma run_quiet (host : PrintingHost δ σ) (depth : Nat) {source : String}
    {statements : List Statement} (hparse : Statement.parseAll source = .ok statements)
    (machine : Machine σ) :
    host.run false depth source machine =
      (execute host.reply depth statements machine).mapError .failed :=
  host.run_of_parseAll false depth hparse machine

end PrintingHost

variable [Device δ]

/-- The host that sessions run on. -/
def services : PrintingHost δ (Services δ) where
  reply := Services.reply
  sink := Services.sink
  withSink state sink := { state with sink }
  sink_withSink _ _ := rfl
  withSink_sink _ := rfl
  withSink_withSink _ _ _ := rfl

/-! ### Sessions -/

section Outcomes

variable {ε ε' α β : Type}

lemma map_andThen {f : α → β} {next : α → Outcome ε α} {next' : β → Outcome ε β}
    (hnext : ∀ state, (next state).map f = next' (f state)) (outcome : Outcome ε α) :
    (outcome.andThen next).map f = (outcome.map f).andThen next' := by
  cases outcome with
  | done state => exact hnext state
  | failed error state => rfl
  | exhausted => rfl

lemma mapError_andThen (f : ε → ε') (next : α → Outcome ε α) (outcome : Outcome ε α) :
    (outcome.andThen next).mapError f =
      (outcome.mapError f).andThen fun state => (next state).mapError f := by
  cases outcome <;> rfl

lemma map_mapError (f : α → β) (g : ε → ε') (outcome : Outcome ε α) :
    (outcome.mapError g).map f = (outcome.map f).mapError g := by
  cases outcome <;> rfl

end Outcomes

lemma session_printListing (session : Session δ) (statements : List Statement) :
    session.printListing statements =
      (services.printListing session.debug statements session.machine).map session.withMachine := by
  unfold Session.printListing PrintingHost.printListing
  by_cases hdebug : session.debug = true
  · rw [if_pos hdebug, if_pos hdebug]
    have hsink : services.sink session.machine.host = session.services.sink := rfl
    rw [hsink]
    rcases session.services.sink.print (Statement.listAll statements) with ⟨cause | value, sink⟩
    · rfl
    · rfl
  · rw [if_neg hdebug, if_neg hdebug]
    rfl

/-- A session runs a source text on its own machine and keeps the machine that is left. -/
theorem session_run (session : Session δ) (depth : Nat) (source : String) :
    session.run depth source =
      (services.run session.debug depth source session.machine).map session.withMachine := by
  obtain ⟨statements, hparse⟩ := exists_parseAll source
  have hexecute : ∀ machine, (execute services.reply depth statements machine).map
      session.withMachine = Session.execute depth statements (session.withMachine machine) :=
    fun _ => rfl
  rw [services.run_of_parseAll session.debug depth hparse, map_mapError, map_andThen hexecute,
    ← session_printListing]
  simp only [Session.run, hparse]

/-! ### Running a text in pieces -/

/-- If a terminator cuts a source text in two, running the text is running its first part and then,
if that ends well, its second part: under every depth, with the same result, and with the same
variables, active calls, sink and other state of the host at the end. This is so for sessions, and
for every other host. -/
theorem running_in_pieces (depth : Nat) (first second : String) (c : Char)
    (hc : c = '\n' ∨ c = ';') :
    (∀ (δ : Type) [Device δ] (session : Session δ), session.debug = false →
      session.run depth (first ++ c.toString ++ second) =
        (session.run depth first).andThen (Session.run depth second)) ∧
    (∀ (δ σ : Type) [Device δ] (host : PrintingHost δ σ) (machine : Machine σ),
      host.run false depth (first ++ c.toString ++ second) machine =
        (host.run false depth first machine).andThen (host.run false depth second)) := by
  have hterminator : isTerminator c = true := by
    obtain rfl | rfl := hc <;> rfl
  obtain ⟨before, hfirst⟩ := exists_parseAll first
  obtain ⟨after, hsecond⟩ := exists_parseAll second
  have hwhole := parseAll_append hterminator hfirst hsecond
  have hpieces : ∀ (δ σ : Type) [Device δ] (host : PrintingHost δ σ) (machine : Machine σ),
      host.run false depth (first ++ c.toString ++ second) machine =
        (host.run false depth first machine).andThen (host.run false depth second) := by
    intro δ σ _ host machine
    rw [host.run_quiet depth hwhole, host.run_quiet depth hfirst, execute_append, mapError_andThen]
    congr 1
    funext middle
    rw [host.run_quiet depth hsecond]
  refine ⟨fun δ _ session hquiet => ?_, hpieces⟩
  rw [session_run, session_run, hquiet, hpieces]
  refine map_andThen (fun middle => ?_) _
  have hkept : (session.withMachine middle).debug = false := hquiet
  rw [session_run, hkept]
  rfl

/-- The standard library with a procedure `f` that prints the variable `x`. -/
def printingX : Session :=
  let session := (Session.new (.buffer "")).defineStandard
  { session with env := session.env.assign "f" (.procedure ⟨"f",
    [⟨.call, "println $x", [.literal "println" "println", .reference "$x" "x"]⟩]⟩) }

theorem running_in_pieces_inside_quotes :
    (final? (printingX.run 2 "var x \"a;f\nnoop b\"")).map (fun final => final.services.sink) =
      some (.buffer "\"a\n") ∧
    printingX.run 2 "var x \"a;f\nnoop b\"" =
      (printingX.run 2 "var x \"a").andThen (Session.run 2 "f\nnoop b\"") ∧
    services.run false 2 "var x \"a;f\nnoop b\"" printingX.machine =
      (services.run false 2 "var x \"a" printingX.machine).andThen
        (services.run false 2 "f\nnoop b\"") := by
  have hprinted : (final? (printingX.run 2 "var x \"a;f\nnoop b\"")).map
      (fun final => final.services.sink) = some (.buffer "\"a\n") := by
    decide +kernel
  obtain ⟨hsession, hhost⟩ :=
    running_in_pieces 2 "var x \"a" "f\nnoop b\"" ';' (.inr rfl)
  exact ⟨hprinted, hsession Writer printingX rfl,
    hhost Writer Services services printingX.machine⟩

end LineScript.Proofs
