import LineScript.Command
import LineScript.Proofs.Sinks

/-!
# The listing comes first

With `debug` on, the listing of a program is printed before the program runs. That is all: the run
has the result that it has without, and prints after the listing what it prints without it. The two
runs are compared through a third one, which starts on an empty buffer: a primitive that makes no
use of what the buffer keeps (`PrintingHost.Blind`) prints the same behind any text. A primitive that
does not read the buffer but empties it (`PrintingHost.NeverReads`) can drop the listing again, and
then the runs are the same but for what is printed.
-/

namespace LineScript.Proofs

variable {δ σ : Type} [Device δ]

/-- The primitives print to a buffer, but what it has kept before is nothing to them: they neither
read it nor empty the buffer. -/
def PrintingHost.Blind (host : PrintingHost δ σ) : Prop :=
  ∀ extra, HostsAlike (host.Swapped (Behind extra)) host.reply host.reply

/-- The primitives do not read what a buffer keeps, though they may empty it. -/
def PrintingHost.NeverReads (host : PrintingHost δ σ) : Prop :=
  HostsAlike (host.Swapped Buffers) host.reply host.reply

lemma blind_services : (services : PrintingHost δ (Services δ)).Blind :=
  fun extra => services_alike (sinksAlike_behind extra)

/-- In `traced` the buffer has the listing between `kept` and what was printed in `quiet`; the states
are the same otherwise. -/
def PrintingHost.Listed (host : PrintingHost δ σ) (kept listing : String) (quiet traced : σ) : Prop :=
  ∃ printed, host.sink quiet = .buffer (kept ++ printed) ∧
    traced = host.withSink quiet (.buffer (kept ++ listing ++ printed))

omit [Device δ] in
lemma PrintingHost.listed_of_behind (host : PrintingHost δ σ) {kept listing : String}
    {start quiet traced : σ} (hquiet : host.Swapped (Behind kept) start quiet)
    (htraced : host.Swapped (Behind (kept ++ listing)) start traced) :
    host.Listed kept listing quiet traced := by
  obtain ⟨sink, ⟨printed, hstart, rfl⟩, rfl⟩ := hquiet
  obtain ⟨sink, ⟨printed', hstart', rfl⟩, rfl⟩ := htraced
  obtain rfl : printed = printed' := by
    rw [hstart] at hstart'
    exact Sink.buffer.inj hstart'
  refine ⟨printed, host.sink_withSink _ _, ?_⟩
  rw [host.withSink_withSink]

omit [Device δ] in
lemma execute_listed {host : PrintingHost δ σ} (hblind : host.Blind) (depth : Nat)
    (statements : List Statement) (machine : Machine σ) (kept listing : String) :
    OutcomesAlike (MachinesAlike (host.Listed kept listing))
      (execute host.reply depth statements (host.onto (.buffer kept) machine))
      (execute host.reply depth statements (host.onto (.buffer (kept ++ listing)) machine)) := by
  have hbehind : ∀ extra, OutcomesAlike (MachinesAlike (host.Swapped (Behind extra)))
      (execute host.reply depth statements (host.onto (.buffer "") machine))
      (execute host.reply depth statements (host.onto (.buffer extra) machine)) := by
    intro extra
    have hsinks : Behind extra (.buffer "" : Sink δ) (.buffer extra) := ⟨"", rfl, by simp⟩
    exact execute_alike (hblind extra) depth statements _ _ (host.swapped_onto hsinks machine)
  refine ((hbehind kept).through (hbehind (kept ++ listing))).mono ?_
  rintro quiet traced ⟨start, hquiet, htraced⟩
  refine ⟨?_, ?_, host.listed_of_behind hquiet.host htraced.host⟩
  · rw [htraced.calls, hquiet.calls]
  · rw [htraced.env, hquiet.env]

/-! ### Source texts -/

section Sources

variable {source : String} {statements : List Statement}

lemma printListing_buffer (host : PrintingHost δ σ) (statements : List Statement)
    {machine : Machine σ} {kept : String} (hsink : host.sink machine.host = .buffer kept) :
    host.printListing true statements machine =
      .done (host.onto (.buffer (kept ++ Statement.listAll statements)) machine) := by
  simp only [PrintingHost.printListing, if_true, hsink, Sink.print]

lemma run_listed {host : PrintingHost δ σ} (hblind : host.Blind) (depth : Nat)
    (hparse : Statement.parseAll source = .ok statements) {machine : Machine σ} {kept : String}
    (hsink : host.sink machine.host = .buffer kept) :
    OutcomesAlike (MachinesAlike (host.Listed kept (Statement.listAll statements)))
      (host.run false depth source machine) (host.run true depth source machine) := by
  have hruns := execute_listed hblind depth statements machine kept (Statement.listAll statements)
  rw [host.onto_sink hsink] at hruns
  rw [host.run_quiet depth hparse, host.run_of_parseAll true depth hparse,
    printListing_buffer host statements hsink]
  exact hruns.mapError RunError.failed

lemma run_unread {host : PrintingHost δ σ} (hunread : host.NeverReads) (depth : Nat)
    (hparse : Statement.parseAll source = .ok statements) {machine : Machine σ} {kept : String}
    (hsink : host.sink machine.host = .buffer kept) :
    OutcomesAlike (MachinesAlike (host.Swapped Buffers))
      (host.run false depth source machine) (host.run true depth source machine) := by
  have hsinks : Buffers (.buffer kept : Sink δ)
      (.buffer (kept ++ Statement.listAll statements)) := ⟨⟨_, rfl⟩, _, rfl⟩
  have hruns := execute_alike hunread depth statements _ _ (host.swapped_onto hsinks machine)
  rw [host.onto_sink hsink] at hruns
  rw [host.run_quiet depth hparse, host.run_of_parseAll true depth hparse,
    printListing_buffer host statements hsink]
  exact hruns.mapError RunError.failed

lemma run_unlisted (host : PrintingHost δ σ) (depth : Nat)
    (hparse : Statement.parseAll source = .ok statements) {machine : Machine σ} {cause : IoFault}
    {sink : Sink δ}
    (hprint : (host.sink machine.host).print (Statement.listAll statements) =
      (.error cause, sink)) :
    host.run true depth source machine =
      .failed (.failed ⟨.output cause, none⟩) (host.onto sink machine) := by
  simp only [host.run_of_parseAll true depth hparse, PrintingHost.printListing, if_true, hprint,
    Outcome.andThen, Outcome.mapError]

/-- As `PrintingHost.Listed`, for sessions. -/
def SessionListed (kept listing : String) (quiet traced : Session δ) : Prop :=
  ∃ printed, quiet.services.sink = .buffer (kept ++ printed) ∧
    traced = { quiet with
      debug := true
      services := { quiet.services with sink := .buffer (kept ++ listing ++ printed) } }

lemma session_listed (depth : Nat) (hparse : Statement.parseAll source = .ok statements)
    {session : Session δ} {kept : String} (hsink : session.services.sink = .buffer kept) :
    OutcomesAlike (SessionListed kept (Statement.listAll statements))
      ({ session with debug := false }.run depth source)
      ({ session with debug := true }.run depth source) := by
  have hsink' : services.sink session.machine.host = .buffer kept := hsink
  rw [session_run, session_run]
  refine OutcomesAlike.map ?_ (run_listed blind_services depth hparse hsink')
  rintro ⟨calls, env, quiet⟩ ⟨calls', env', traced⟩ ⟨hcalls, henv, printed, hquiet, htraced⟩
  obtain rfl : calls' = calls := hcalls
  obtain rfl : env' = env := henv
  obtain rfl : traced = services.withSink quiet _ := htraced
  exact ⟨printed, hquiet, rfl⟩

lemma session_unlisted (depth : Nat) (hparse : Statement.parseAll source = .ok statements)
    {session : Session δ} {cause : IoFault} {sink : Sink δ}
    (hprint : session.services.sink.print (Statement.listAll statements) = (.error cause, sink)) :
    { session with debug := true }.run depth source =
      .failed (.failed ⟨.output cause, none⟩)
        { session with debug := true, services := { session.services with sink } } := by
  have hprint' : (services.sink session.machine.host).print (Statement.listAll statements) =
      (.error cause, sink) := hprint
  rw [session_run]
  exact congrArg _ (run_unlisted services depth hparse hprint')

end Sources

/-! ### Files -/

/-- What is printed when a file is run with `debug` on is the listing of the file, followed by what
is printed without. -/
lemma runFile_listed (depth : Nat) (read : Reader) (path kept : String) :
    ∃ listing,
      final? (listFile read path (.buffer kept : Sink δ)) = some (.buffer (kept ++ listing)) ∧
      OutcomesAlike (fun quiet traced => ∃ printed, quiet = .buffer (kept ++ printed) ∧
          traced = .buffer (kept ++ listing ++ printed))
        (runFile depth read path false (.buffer kept : Sink δ))
        (runFile depth read path true (.buffer kept : Sink δ)) := by
  unfold runFile listFile
  cases read path with
  | error fault =>
    refine ⟨"", by simp [final?], .failed ⟨"", ?_, ?_⟩⟩
    · simp
    · simp
  | ok source =>
    obtain ⟨statements, hparse⟩ := exists_parseAll source
    refine ⟨Statement.listAll statements, by simp only [hparse, Sink.print, final?], ?_⟩
    have hsink : (Session.new (.buffer kept : Sink δ)).defineStandard.services.sink =
        .buffer kept := rfl
    have hruns := session_listed depth hparse hsink
    refine OutcomesAlike.map ?_ (hruns.mapError CommandError.program)
    rintro quiet traced ⟨printed, hquiet, rfl⟩
    exact ⟨printed, hquiet, rfl⟩

/-- On a buffer, `debug` changes nothing about a run but that the listing of the program is printed
first: the result is the same, and so is all that is left, except that the listing stands in the
buffer ahead of what the run printed. This is so for sessions, for every other host with primitives
that make no use of what the buffer keeps, and for programs in files, where the listing is what is
printed for the file when it is listed. Where primitives may empty the buffer, the result and all but
the text in the buffer are still the same. And if the listing cannot be printed, whatever the sink,
then nothing is run: the failure is one of output and names no statement, and the sink is all that
has changed. -/
theorem listing_is_pure_prefix (δ : Type) [Device δ] :
    (∀ source : String, ∃ statements, Statement.parseAll source = .ok statements ∧ ∀ depth : Nat,
      (∀ (session : Session δ) (kept : String), session.services.sink = .buffer kept →
        OutcomesAlike (SessionListed kept (Statement.listAll statements))
          ({ session with debug := false }.run depth source)
          ({ session with debug := true }.run depth source)) ∧
      (∀ (σ : Type) (host : PrintingHost δ σ) (machine : Machine σ) (kept : String), host.Blind →
        host.sink machine.host = .buffer kept →
        OutcomesAlike (MachinesAlike (host.Listed kept (Statement.listAll statements)))
          (host.run false depth source machine) (host.run true depth source machine)) ∧
      (∀ (σ : Type) (host : PrintingHost δ σ) (machine : Machine σ) (kept : String),
        host.NeverReads → host.sink machine.host = .buffer kept →
        OutcomesAlike (MachinesAlike (host.Swapped Buffers))
          (host.run false depth source machine) (host.run true depth source machine)) ∧
      (∀ (session : Session δ) (cause : IoFault) (sink : Sink δ),
        session.services.sink.print (Statement.listAll statements) = (.error cause, sink) →
        { session with debug := true }.run depth source =
          .failed (.failed ⟨.output cause, none⟩)
            { session with debug := true, services := { session.services with sink } }) ∧
      (∀ (σ : Type) (host : PrintingHost δ σ) (machine : Machine σ) (cause : IoFault)
        (sink : Sink δ),
        (host.sink machine.host).print (Statement.listAll statements) = (.error cause, sink) →
        host.run true depth source machine =
          .failed (.failed ⟨.output cause, none⟩) (host.onto sink machine))) ∧
    (∀ (depth : Nat) (read : Reader) (path kept : String), ∃ listing,
      final? (listFile read path (.buffer kept : Sink δ)) = some (.buffer (kept ++ listing)) ∧
      OutcomesAlike (fun quiet traced => ∃ printed, quiet = .buffer (kept ++ printed) ∧
          traced = .buffer (kept ++ listing ++ printed))
        (runFile depth read path false (.buffer kept : Sink δ))
        (runFile depth read path true (.buffer kept : Sink δ))) := by
  refine ⟨fun source => ?_, runFile_listed⟩
  obtain ⟨statements, hparse⟩ := exists_parseAll source
  refine ⟨statements, hparse, fun depth => ⟨?_, ?_, ?_, ?_, ?_⟩⟩
  · intro session kept hsink
    exact session_listed depth hparse hsink
  · intro σ host machine kept hblind hsink
    exact run_listed hblind depth hparse hsink
  · intro σ host machine kept hunread hsink
    exact run_unread hunread depth hparse hsink
  · intro session cause sink hprint
    exact session_unlisted depth hparse hprint
  · intro σ host machine cause sink hprint
    exact run_unlisted host depth hparse hprint

/-- A writer that cannot be flushed. -/
def goneWriter (bytes : List UInt8) : Writer :=
  { flushFault := some (.host "gone"), bytes }

def unflushable : Session :=
  { printingX with services := { printingX.services with sink := .writer (goneWriter []) } }

/-- The host of sessions, except that its `noop` empties the buffer. -/
def clearing : PrintingHost Writer Services :=
  { services with
    reply := fun primitive arguments env state =>
      if primitive.name = "noop" then .finish (.ok ()) env { state with sink := state.sink.clear }
      else Services.reply primitive arguments env state }

lemma neverReads_clearing : clearing.NeverReads := by
  intro primitive arguments env first second hswapped
  have hreplies := services_alike sinksAlike_buffers primitive arguments env first second hswapped
  change RepliesAlike (services.Swapped Buffers) (if primitive.name = "noop" then _ else _)
    (if primitive.name = "noop" then _ else _)
  by_cases hnoop : primitive.name = "noop"
  · rw [if_pos hnoop, if_pos hnoop]
    obtain ⟨sink, ⟨⟨kept, hkept⟩, kept', rfl⟩, rfl⟩ := hswapped
    refine .finish ⟨.buffer "", ⟨⟨"", ?_⟩, "", rfl⟩, rfl⟩
    have hfirst : first.sink = .buffer kept := hkept
    change first.sink.clear = .buffer ""
    rw [hfirst]
    rfl
  · rw [if_neg hnoop, if_neg hnoop]
    exact hreplies

/-- A program that prints, does nothing, and then fails. -/
def failingSource : String :=
  "println hi; noop; g"

def failingListing : String :=
  "println hi: FunctionCall\n|  println: Constant (println)\n|  hi: Constant (hi)\n" ++
    "noop: FunctionCall\n|  noop: Constant (noop)\ng: FunctionCall\n|  g: Constant (g)\n\n"

theorem listing_is_pure_prefix_failing :
    ∃ statements, Statement.parseAll failingSource = .ok statements ∧
      Statement.listAll statements = failingListing ∧
      (final? ({ printingX with debug := true }.run 2 failingSource)).map
          (fun final => final.services.sink) = some (.buffer (failingListing ++ "hi\n")) ∧
      OutcomesAlike (SessionListed "" failingListing)
        ({ printingX with debug := false }.run 2 failingSource)
        ({ printingX with debug := true }.run 2 failingSource) ∧
      OutcomesAlike (MachinesAlike (services.Listed "" failingListing))
        (services.run false 2 failingSource printingX.machine)
        (services.run true 2 failingSource printingX.machine) ∧
      (final? (clearing.run true 2 failingSource printingX.machine)).map
          (fun final => final.host.sink) = some (.buffer "") ∧
      OutcomesAlike (MachinesAlike (clearing.Swapped Buffers))
        (clearing.run false 2 failingSource printingX.machine)
        (clearing.run true 2 failingSource printingX.machine) ∧
      (∃ sink, { unflushable with debug := true }.run 2 failingSource =
        .failed (.failed ⟨.output (.host "gone"), none⟩)
          { unflushable with debug := true, services := { unflushable.services with sink } }) ∧
      (∃ sink, services.run true 2 failingSource unflushable.machine =
        .failed (.failed ⟨.output (.host "gone"), none⟩)
          (services.onto sink unflushable.machine)) ∧
      listFile (fun _ => .ok failingSource) "p" (.buffer "a" : Sink) =
        .done (.buffer ("a" ++ failingListing)) ∧
      runFile 1 (fun _ => .ok failingSource) "p" false (.buffer "a" : Sink) =
        .failed (.program (.failed ⟨.unknownFunction "g", some "g"⟩)) (.buffer "ahi\n") ∧
      runFile 1 (fun _ => .ok failingSource) "p" true (.buffer "a" : Sink) =
        .failed (.program (.failed ⟨.unknownFunction "g", some "g"⟩))
          (.buffer ("a" ++ failingListing ++ "hi\n")) ∧
      ∃ listing, final? (listFile (fun _ => .ok failingSource) "p" (.buffer "a" : Sink)) =
          some (.buffer ("a" ++ listing)) ∧
        OutcomesAlike (fun quiet traced => ∃ printed, quiet = .buffer ("a" ++ printed) ∧
            traced = .buffer ("a" ++ listing ++ printed))
          (runFile 1 (fun _ => .ok failingSource) "p" false (.buffer "a" : Sink))
          (runFile 1 (fun _ => .ok failingSource) "p" true (.buffer "a" : Sink)) := by
  obtain ⟨hsources, hfiles⟩ := listing_is_pure_prefix Writer
  obtain ⟨statements, hparse, hruns⟩ := hsources failingSource
  obtain ⟨hsession, hhost, hunread, hunlisted, hunlisted'⟩ := hruns 2
  have hlisting : (Statement.parseAll failingSource).map Statement.listAll = .ok failingListing := by
    decide +kernel
  rw [hparse] at hlisting
  have hlisting : Statement.listAll statements = failingListing := Except.ok.inj hlisting
  rw [hlisting] at hsession hhost hunlisted hunlisted'
  have hprint : unflushable.services.sink.print failingListing =
      (.error (.host "gone"), .writer (goneWriter (Text.utf8 failingListing))) := by
    decide +kernel
  exact ⟨statements, hparse, hlisting, by decide +kernel, hsession printingX "" rfl,
    hhost Services services printingX.machine "" blind_services rfl, by decide +kernel,
    hunread Services clearing printingX.machine "" neverReads_clearing rfl,
    ⟨_, hunlisted unflushable _ _ hprint⟩,
    ⟨_, hunlisted' Services services unflushable.machine _ _ hprint⟩,
    by decide +kernel, by decide +kernel, by decide +kernel,
    hfiles 1 (fun _ => .ok failingSource) "p" "a"⟩

end LineScript.Proofs
