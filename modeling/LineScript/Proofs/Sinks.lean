import LineScript.Proofs.Simulation
import LineScript.Proofs.SourceRuns

/-!
# Runs on other sinks

The primitives of `Services` use the sink for nothing but printing. So if two sinks cannot be told
apart by printing to them (`SinksAlike`), every program runs alike on both (`services_alike`). A
buffer is like one that has kept something before, like any other buffer for who does not look at
what they keep, and like a sink that discards what is printed.
-/

namespace LineScript.Proofs

variable {δ σ : Type} [Device δ]

/-- Printing to sinks that `S` connects has the same result, and leaves sinks that it connects. -/
structure SinksAlike (S : Sink δ → Sink δ → Prop) : Prop where
  print : ∀ first second, S first second → ∀ text,
    (first.print text).1 = (second.print text).1 ∧ S (first.print text).2 (second.print text).2
  println : ∀ first second, S first second → ∀ text,
    (first.println text).1 = (second.println text).1 ∧
      S (first.println text).2 (second.println text).2

/-- The buffers keep the same, except that the second one kept `extra` before. -/
def Behind (extra : String) (first second : Sink δ) : Prop :=
  ∃ text, first = .buffer text ∧ second = .buffer (extra ++ text)

lemma sinksAlike_behind (extra : String) : SinksAlike (Behind extra : Sink δ → Sink δ → Prop) := by
  constructor
  · rintro first second ⟨kept, rfl, rfl⟩ text
    exact ⟨rfl, kept ++ text, rfl, by simp only [Sink.print, String.append_assoc]⟩
  · rintro first second ⟨kept, rfl, rfl⟩ text
    exact ⟨rfl, kept ++ text ++ "\n", rfl, by simp only [Sink.println, String.append_assoc]⟩

/-- Both sinks are buffers, whatever they keep. -/
def Buffers (first second : Sink δ) : Prop :=
  (∃ text, first = .buffer text) ∧ ∃ text, second = .buffer text

lemma sinksAlike_buffers : SinksAlike (Buffers : Sink δ → Sink δ → Prop) := by
  constructor
  · rintro first second ⟨⟨kept, rfl⟩, kept', rfl⟩ text
    exact ⟨rfl, ⟨_, rfl⟩, _, rfl⟩
  · rintro first second ⟨⟨kept, rfl⟩, kept', rfl⟩ text
    exact ⟨rfl, ⟨_, rfl⟩, _, rfl⟩

/-- The first sink is a buffer, and the second one discards what is printed. -/
def Silenced (first second : Sink δ) : Prop :=
  (∃ text, first = .buffer text) ∧ second = .silent

lemma sinksAlike_silenced : SinksAlike (Silenced : Sink δ → Sink δ → Prop) := by
  constructor
  · rintro first second ⟨⟨kept, rfl⟩, rfl⟩ text
    exact ⟨rfl, ⟨_, rfl⟩, rfl⟩
  · rintro first second ⟨⟨kept, rfl⟩, rfl⟩ text
    exact ⟨rfl, ⟨_, rfl⟩, rfl⟩

/-- The second state is the first one with a sink that `S` connects to its own. -/
def PrintingHost.Swapped (host : PrintingHost δ σ) (S : Sink δ → Sink δ → Prop) (first second : σ) :
    Prop :=
  ∃ sink, S (host.sink first) sink ∧ second = host.withSink first sink

omit [Device δ] in
lemma PrintingHost.swapped_onto (host : PrintingHost δ σ) {S : Sink δ → Sink δ → Prop}
    {first second : Sink δ} (h : S first second) (machine : Machine σ) :
    MachinesAlike (host.Swapped S) (host.onto first machine) (host.onto second machine) := by
  refine ⟨rfl, rfl, second, ?_, ?_⟩
  · simpa only [onto, host.sink_withSink] using h
  · simp only [onto, host.withSink_withSink]

/-! ### The primitives of `Services` -/

section Services

variable {S : Sink δ → Sink δ → Prop}

lemma emit_alike {deliver : Sink δ → String → Attempt (Sink δ)}
    (hdeliver : ∀ first second, S first second → ∀ text,
      (deliver first text).1 = (deliver second text).1 ∧
        S (deliver first text).2 (deliver second text).2)
    (arguments : List Expression) (env : Environment) {first second : Services δ}
    (h : services.Swapped S first second) :
    RepliesAlike (services.Swapped S) (Services.emit deliver arguments env first)
      (Services.emit deliver arguments env second) := by
  obtain ⟨sink, hsink, rfl⟩ := h
  unfold Services.emit
  cases Services.joined arguments env with
  | error fault => exact .finish ⟨sink, hsink, rfl⟩
  | ok text =>
    obtain ⟨hresult, hafter⟩ := hdeliver first.sink sink hsink text
    have hsecond : (services.withSink first sink).sink = sink := rfl
    simp only [hsecond]
    rcases hfirst : deliver first.sink text with ⟨result, kept⟩
    rcases hother : deliver sink text with ⟨result', kept'⟩
    rw [hfirst, hother] at hresult hafter
    obtain rfl : result = result' := hresult
    cases result with
    | ok value => exact .finish ⟨kept', hafter, rfl⟩
    | error cause => exact .finish ⟨kept', hafter, rfl⟩

lemma update_alike (result : Except Fault Environment) (env : Environment)
    {first second : Services δ} (h : services.Swapped S first second) :
    RepliesAlike (services.Swapped S) (Services.update result env first)
      (Services.update result env second) := by
  cases result with
  | ok stored => exact .finish h
  | error fault => exact .finish h

lemma storeAll_alike (value : Value) (arguments : List Expression) (env : Environment)
    {first second : Services δ} (h : services.Swapped S first second) :
    RepliesAlike (services.Swapped S) (Services.storeAll value first arguments env)
      (Services.storeAll value second arguments env) := by
  induction arguments generalizing env with
  | nil => exact .finish h
  | cons argument rest ih =>
    simp only [Services.storeAll]
    cases argument.evalName env with
    | ok name => exact ih _
    | error fault => exact .finish h

lemma countDown_alike (id remaining : Nat) (target : String) (env : Environment)
    {first second : Services δ} (h : services.Swapped S first second) :
    RepliesAlike (services.Swapped S) (Services.countDown id remaining target env first)
      (Services.countDown id remaining target env second) := by
  obtain ⟨sink, hsink, rfl⟩ := h
  unfold Services.countDown
  by_cases hleft : remaining - 1 = 0
  · simp only [if_pos hleft]
    exact .finish ⟨sink, hsink, rfl⟩
  · simp only [if_neg hleft]
    exact .finish ⟨sink, hsink, rfl⟩

lemma evaluateAll_alike (limit : Option Nat) (arguments : List Expression) (env : Environment)
    {first second : Services δ} (h : services.Swapped S first second) :
    RepliesAlike (services.Swapped S) (Services.evaluateAll limit arguments env first)
      (Services.evaluateAll limit arguments env second) := by
  induction arguments generalizing env first second with
  | nil => exact .finish h
  | cons argument rest ih =>
    simp only [Services.evaluateAll]
    cases argument.evalName env with
    | error fault => exact .finish h
    | ok source =>
      dsimp only
      cases Statement.parseAll source with
      | error error => exact .finish h
      | ok statements =>
        refine .execute h fun result env after after' hafter => ?_
        cases result with
        | ok value => exact ih env hafter
        | error failure => exact .finish hafter

/-- The primitives of `Services` reply alike on sinks that printing cannot tell apart. -/
theorem services_alike (hS : SinksAlike S) :
    HostsAlike (services.Swapped S) services.reply services.reply := by
  intro primitive arguments env first second h
  have hbehaviors : second.behaviors = first.behaviors := by
    obtain ⟨sink, -, rfl⟩ := h
    rfl
  change RepliesAlike _ (Services.reply primitive arguments env first)
    (Services.reply primitive arguments env second)
  simp only [Services.reply, hbehaviors]
  cases first.behaviors[primitive.id]? with
  | none => exact .finish h
  | some behavior =>
    cases behavior with
    | noop => exact .finish h
    | println => exact emit_alike hS.println arguments env h
    | print => exact emit_alike hS.print arguments env h
    | vars => exact update_alike _ env h
    | peek =>
      obtain ⟨sink, hsink, rfl⟩ := h
      exact .finish ⟨sink, hsink, rfl⟩
    | record =>
      simp only [Services.respond]
      cases Expression.evalAll env arguments with
      | ok values =>
        obtain ⟨sink, hsink, rfl⟩ := h
        exact .finish ⟨sink, hsink, rfl⟩
      | error fault => exact .finish h
    | store value => exact storeAll_alike value arguments env h
    | fail message statement => exact .finish h
    | countdown remaining target => exact countDown_alike _ remaining target env h
    | define => exact update_alike _ env h
    | evaluate limit => exact evaluateAll_alike limit arguments env h

end Services

end LineScript.Proofs
