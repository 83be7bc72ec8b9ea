import LineScript.Sink
import Mathlib.Tactic

/-!
# What devices take

A device takes bytes in whatever portions it likes and refuses them when it likes. Still, what it
took of an offer and what is left of the offer make up the whole (`delivers_offerAfter`). So a sink
takes what is printed from its first byte on, loses nothing that it took before, and has all of it
unless a failure is reported (`Accepts`). Without a failure nothing is held back either (`Settled`).
-/

namespace LineScript.Proofs

open Text

variable {δ : Type} [Device δ]

lemma utf8_append (first second : String) : utf8 (first ++ second) = utf8 first ++ utf8 second := by
  simp [utf8]

/-! ### Offers -/

/-- What came of an offer: the device took the first of the bytes and the others are left, which are
none if it did not fail. -/
structure Delivers (device : δ) (bytes : List UInt8)
    (result : Except IoFault Unit × List UInt8 × δ) : Prop where
  took : ∃ took, Device.bytes result.2.2 = Device.bytes device ++ took ∧ took ++ result.2.1 = bytes
  complete : result.1 = .ok () → result.2.1 = []

theorem delivers_offerAfter (stalled : IoFault) (skip : Nat) (bytes : List UInt8) (device : δ) :
    Delivers device (bytes.drop skip) (Device.offerAfter stalled skip bytes device) := by
  fun_induction Device.offerAfter stalled skip bytes device with
  | case1 skip device => exact ⟨⟨[], by simp, by simp⟩, fun _ => rfl⟩
  | case2 skip byte rest device ih => exact ih
  | case3 byte rest device after hwrite =>
    refine ⟨⟨[], ?_, rfl⟩, nofun⟩
    rw [Device.bytes_write_ok hwrite, List.take_zero]
  | case4 byte rest device count after hwrite ih =>
    obtain ⟨⟨took, hbytes, hsplit⟩, hcomplete⟩ := ih
    refine ⟨⟨(byte :: rest).take (count + 1) ++ took, ?_, ?_⟩, hcomplete⟩
    · rw [hbytes, Device.bytes_write_ok hwrite, List.append_assoc]
    · rw [List.append_assoc, hsplit, ← List.drop_succ_cons, List.take_append_drop, List.drop_zero]
  | case5 byte rest device fault after hwrite =>
    refine ⟨⟨[], ?_, rfl⟩, nofun⟩
    rw [Device.bytes_write_error hwrite, List.append_nil]

lemma offerAfter_eq_drop (stalled : IoFault) (skip : Nat) (bytes : List UInt8) (device : δ) :
    Device.offerAfter stalled skip bytes device =
      Device.offerAfter stalled 0 (bytes.drop skip) device := by
  induction skip generalizing bytes with
  | zero => rfl
  | succ skip ih =>
    cases bytes with
    | nil => rfl
    | cons byte rest => exact ih rest

section WriteAll

variable {device after : δ} {byte : UInt8} {rest : List UInt8}

/-- A device that took a part is offered the rest. -/
lemma writeAll_of_write {count : Nat}
    (h : Device.write device (byte :: rest) = (.ok (count + 1), after)) :
    Device.writeAll device (byte :: rest) = Device.writeAll after (rest.drop count) := by
  simp only [Device.writeAll, Device.offerAfter, h, offerAfter_eq_drop .shortWrite count]

lemma writeAll_of_stall (h : Device.write device (byte :: rest) = (.ok 0, after)) :
    Device.writeAll device (byte :: rest) = (.error .shortWrite, after) := by
  simp only [Device.writeAll, Device.offerAfter, h]

end WriteAll

/-! ### Handing bytes over -/

/-- What came of handing bytes to a state, where `taken` is what has left it for good and `given` is
that and what it holds back. Nothing is lost that was taken before, nothing is taken but what was
given, in its order, and the bytes are all there unless a failure is reported. -/
structure Accepts {τ : Type} (taken given : τ → List UInt8) (bytes : List UInt8) (state : τ)
    (attempt : Attempt τ) : Prop where
  kept : taken state <+: taken attempt.2
  inOrder : taken attempt.2 <+: given state ++ bytes
  complete : attempt.1 = .ok () → given attempt.2 = given state ++ bytes

section Accepts

variable {τ : Type} {taken given : τ → List UInt8} {bytes more : List UInt8} {state : τ}

lemma Accepts.nothing (h : taken state <+: given state) :
    Accepts taken given [] state (.ok (), state) := by
  refine ⟨List.prefix_rfl, ?_, fun _ => ?_⟩
  · rwa [List.append_nil]
  · rw [List.append_nil]

lemma Accepts.trans {middle : τ} {attempt : Attempt τ}
    (hfirst : Accepts taken given bytes state (.ok (), middle))
    (hsecond : Accepts taken given more middle attempt) :
    Accepts taken given (bytes ++ more) state attempt := by
  obtain ⟨hkept, horder, hcomplete⟩ := hsecond
  have hmiddle : given middle = given state ++ bytes := hfirst.complete rfl
  rw [hmiddle, List.append_assoc] at horder hcomplete
  exact ⟨hfirst.kept.trans hkept, horder, hcomplete⟩

lemma Accepts.andThen {first : Attempt τ} {next : τ → Attempt τ}
    (hfirst : Accepts taken given bytes state first)
    (hnext : first.1 = .ok () → Accepts taken given more first.2 (next first.2)) :
    Accepts taken given (bytes ++ more) state (first.andThen next) := by
  rcases first with ⟨fault | _, after⟩
  · refine ⟨hfirst.kept, ?_, nofun⟩
    rw [← List.append_assoc]
    exact hfirst.inOrder.trans (List.prefix_append _ _)
  · exact hfirst.trans (hnext rfl)

/-- The second operation is given nothing new. -/
lemma Accepts.andThen_nothing {first : Attempt τ} {next : τ → Attempt τ}
    (hfirst : Accepts taken given bytes state first)
    (hnext : ∀ after, Accepts taken given [] after (next after)) :
    Accepts taken given bytes state (first.andThen next) := by
  have h := hfirst.andThen fun _ => hnext first.2
  rwa [List.append_nil] at h

lemma andThen_eq_ok {first : Attempt τ} {next : τ → Attempt τ}
    (h : (first.andThen next).1 = .ok ()) :
    first.1 = .ok () ∧ (next first.2).1 = .ok () ∧ (first.andThen next).2 = (next first.2).2 := by
  rcases first with ⟨_ | _, state⟩
  · cases h
  · exact ⟨rfl, h, rfl⟩

end Accepts

/-! ### Devices -/

lemma device_accepts_writeAll (bytes : List UInt8) (device : δ) :
    Accepts Device.bytes Device.bytes bytes device (Device.writeAll device bytes) := by
  obtain ⟨⟨took, hbytes, hsplit⟩, hcomplete⟩ := delivers_offerAfter .shortWrite 0 bytes device
  rw [List.drop_zero] at hsplit
  have hafter : Device.bytes (Device.writeAll device bytes).2 = Device.bytes device ++ took :=
    hbytes
  refine ⟨?_, ?_, fun hok => ?_⟩
  · rw [hafter]
    exact List.prefix_append _ _
  · rw [hafter, ← hsplit, ← List.append_assoc]
    exact List.prefix_append _ _
  · rw [hcomplete hok, List.append_nil] at hsplit
    rw [hafter, hsplit]

lemma device_accepts_flush (device : δ) :
    Accepts Device.bytes Device.bytes [] device (Device.flush device) := by
  have hflush := Device.bytes_flush device
  refine ⟨?_, ?_, fun _ => ?_⟩
  · rw [hflush]
  · rw [hflush, List.append_nil]
  · rw [hflush, List.append_nil]

lemma device_accepts_print (device : δ) (text : String) :
    Accepts Device.bytes Device.bytes (utf8 text) device (Device.print device text) :=
  (device_accepts_writeAll (utf8 text) device).andThen_nothing device_accepts_flush

lemma device_accepts_println (device : δ) (text : String) :
    Accepts Device.bytes Device.bytes (utf8 (text ++ "\n")) device
      (Device.println device text) := by
  rw [utf8_append]
  exact (device_accepts_writeAll (utf8 text) device).andThen fun _ =>
    device_accepts_writeAll (utf8 "\n") _

/-! ### Line buffers -/

/-- The bytes that the device behind a line buffer has taken. -/
def passed (buffer : LineBuffer δ) : List UInt8 :=
  Device.bytes buffer.device

/-- What a line buffer was given: what its device has taken, and what is held back. -/
def held (buffer : LineBuffer δ) : List UInt8 :=
  passed buffer ++ buffer.pending

lemma passed_prefix_held (buffer : LineBuffer δ) : passed buffer <+: held buffer :=
  List.prefix_append _ _

/-- What was given is there, so it does not matter how much of it the device has taken. -/
lemma Accepts.of_held {buffer : LineBuffer δ} {bytes : List UInt8}
    {attempt : Attempt (LineBuffer δ)} (hkept : passed buffer <+: passed attempt.2)
    (hheld : held attempt.2 = held buffer ++ bytes) :
    Accepts passed held bytes buffer attempt := by
  refine ⟨hkept, ?_, fun _ => hheld⟩
  rw [← hheld]
  exact passed_prefix_held attempt.2

/-- Draining moves bytes to the device, and those that it does not take stay. -/
lemma accepts_drain (buffer : LineBuffer δ) : Accepts passed held [] buffer buffer.drain := by
  obtain ⟨took, hbytes, hsplit⟩ :=
    (delivers_offerAfter .stalledBuffer 0 buffer.pending buffer.device).took
  have hpassed : passed buffer.drain.2 = passed buffer ++ took := hbytes
  have hpending : took ++ buffer.drain.2.pending = buffer.pending := hsplit
  refine .of_held ?_ ?_
  · rw [hpassed]
    exact List.prefix_append _ _
  · rw [held, hpassed, List.append_assoc, hpending, List.append_nil, held]

lemma pending_drain_of_ok {buffer : LineBuffer δ} (h : buffer.drain.1 = .ok ()) :
    buffer.drain.2.pending = [] :=
  (delivers_offerAfter .stalledBuffer 0 buffer.pending buffer.device).complete h

lemma accepts_drainIf (needed : Bool) (buffer : LineBuffer δ) :
    Accepts passed held [] buffer (buffer.drainIf needed) := by
  cases needed with
  | true => exact accepts_drain buffer
  | false => exact .nothing (passed_prefix_held buffer)

/-- What is handed past the buffer must not overtake what is held back. -/
lemma accepts_pass {buffer : LineBuffer δ} {bytes : List UInt8}
    (h : buffer.pending = [] ∨ bytes = []) :
    Accepts passed held bytes buffer (buffer.pass bytes) := by
  obtain ⟨hkept, horder, hcomplete⟩ := device_accepts_writeAll bytes buffer.device
  have hpending : (buffer.pass bytes).2.pending = buffer.pending := rfl
  have hheld : held buffer ++ bytes = passed buffer ++ bytes ++ buffer.pending := by
    rw [held]
    obtain hnone | rfl := h
    · rw [hnone, List.append_nil, List.append_nil]
    · rw [List.append_nil, List.append_nil]
  refine ⟨hkept, ?_, fun hok => ?_⟩
  · rw [hheld]
    exact horder.trans (List.prefix_append _ _)
  · rw [hheld, held, hpending]
    exact congrArg (· ++ buffer.pending) (hcomplete hok)

lemma accepts_put {buffer : LineBuffer δ} {bytes : List UInt8}
    (h : buffer.capacity ≤ bytes.length → buffer.pending = [] ∨ bytes = []) :
    Accepts passed held bytes buffer (buffer.put bytes) := by
  unfold LineBuffer.put
  split
  · rename_i hlong
    exact accepts_pass (h hlong)
  · exact .of_held List.prefix_rfl (List.append_assoc _ _ _).symm

lemma accepts_hold (bytes : List UInt8) (buffer : LineBuffer δ) :
    Accepts passed held bytes buffer (buffer.hold bytes) := by
  refine (accepts_drainIf _ buffer).andThen fun hdrained => accepts_put fun hlong => ?_
  -- Either the buffer was drained, or bytes that are as many as it has room for fit beside what is
  -- held back.
  by_cases hroom : buffer.capacity - buffer.pending.length < bytes.length
  · rw [decide_eq_true hroom] at hdrained ⊢
    exact .inl (pending_drain_of_ok hdrained)
  · rw [decide_eq_false hroom] at hlong ⊢
    change buffer.capacity ≤ bytes.length at hlong
    change buffer.pending = [] ∨ bytes = []
    rw [← List.length_eq_zero_iff, ← List.length_eq_zero_iff]
    omega

lemma splitLines_append (bytes : List UInt8) :
    (LineBuffer.splitLines bytes).1 ++ (LineBuffer.splitLines bytes).2 = bytes := by
  rw [LineBuffer.splitLines, ← List.reverse_append, List.takeWhile_append_dropWhile,
    List.reverse_reverse]

lemma lineBuffer_accepts_writeAll (bytes : List UInt8) (buffer : LineBuffer δ) :
    Accepts passed held bytes buffer (buffer.writeAll bytes) := by
  have hbytes := splitLines_append bytes
  unfold LineBuffer.writeAll
  split
  · exact (accepts_drainIf _ buffer).andThen fun _ => accepts_hold bytes _
  · rename_i lines rest _ hsplit
    rw [hsplit] at hbytes
    rw [← hbytes]
    split
    · rename_i hempty
      have hnone : buffer.pending = [] := List.isEmpty_iff.1 hempty
      exact (accepts_pass (.inl hnone)).andThen fun _ => accepts_hold rest _
    · have hlines := (accepts_hold lines buffer).andThen_nothing accepts_drain
      exact hlines.andThen fun _ => accepts_hold rest _

lemma lineBuffer_accepts_flush (buffer : LineBuffer δ) :
    Accepts passed held [] buffer buffer.flush := by
  refine (accepts_drain buffer).andThen_nothing fun drained => ?_
  have hpassed : passed { drained with device := (Device.flush drained.device).2 } =
      passed drained :=
    Device.bytes_flush drained.device
  refine .of_held ?_ ?_
  · rw [hpassed]
  · rw [held, hpassed, List.append_nil, held]

lemma lineBuffer_accepts_print (buffer : LineBuffer δ) (text : String) :
    Accepts passed held (utf8 text) buffer (buffer.print text) :=
  (lineBuffer_accepts_writeAll (utf8 text) buffer).andThen_nothing lineBuffer_accepts_flush

lemma lineBuffer_accepts_println (buffer : LineBuffer δ) (text : String) :
    Accepts passed held (utf8 (text ++ "\n")) buffer (buffer.println text) := by
  rw [utf8_append]
  exact (lineBuffer_accepts_writeAll (utf8 text) buffer).andThen fun _ =>
    lineBuffer_accepts_writeAll (utf8 "\n") _

lemma pending_flush_of_ok {buffer : LineBuffer δ} (h : buffer.flush.1 = .ok ()) :
    buffer.flush.2.pending = [] := by
  obtain ⟨hdrain, -, hafter⟩ := andThen_eq_ok h
  rw [LineBuffer.flush, hafter]
  exact pending_drain_of_ok hdrain

lemma pending_hold_nil (buffer : LineBuffer δ) : (buffer.hold []).2.pending = buffer.pending := by
  have hroom : ¬buffer.capacity - buffer.pending.length < ([] : List UInt8).length :=
    Nat.not_lt_zero _
  rw [LineBuffer.hold, decide_eq_false hroom]
  change (buffer.put []).2.pending = _
  unfold LineBuffer.put
  split
  · rfl
  · exact List.append_nil _

/-- A newline completes its line, so nothing is held back after it. -/
lemma pending_newline_of_ok {buffer : LineBuffer δ}
    (h : (buffer.writeAll (utf8 "\n")).1 = .ok ()) :
    (buffer.writeAll (utf8 "\n")).2.pending = [] := by
  have hsplit : LineBuffer.splitLines (utf8 "\n") = ([LineBuffer.newline], []) := by decide
  unfold LineBuffer.writeAll at h ⊢
  simp only [hsplit] at h ⊢
  split at h
  · rename_i hempty
    obtain ⟨-, -, hafter⟩ := andThen_eq_ok h
    rw [if_pos hempty, hafter, pending_hold_nil]
    exact List.isEmpty_iff.1 hempty
  · rename_i hsome
    obtain ⟨hdrain, -, hafter⟩ := andThen_eq_ok h
    obtain ⟨-, hdrained, hlines⟩ := andThen_eq_ok hdrain
    rw [if_neg hsome, hafter, pending_hold_nil, hlines]
    exact pending_drain_of_ok hdrained

lemma pending_print_of_ok {buffer : LineBuffer δ} {text : String}
    (h : (buffer.print text).1 = .ok ()) : (buffer.print text).2.pending = [] := by
  obtain ⟨-, hflush, hafter⟩ := andThen_eq_ok h
  rw [LineBuffer.print, hafter]
  exact pending_flush_of_ok hflush

lemma pending_println_of_ok {buffer : LineBuffer δ} {text : String}
    (h : (buffer.println text).1 = .ok ()) : (buffer.println text).2.pending = [] := by
  obtain ⟨-, hnewline, hafter⟩ := andThen_eq_ok h
  rw [LineBuffer.println, hafter]
  exact pending_newline_of_ok hnewline

/-! ### Sinks -/

/-- The bytes that a sink has taken. -/
def taken : Sink δ → List UInt8
  | .buffer text => utf8 text
  | .silent => []
  | .stdout out => passed out
  | .writer device => Device.bytes device

/-- The bytes that a sink was given: those that it has taken, and those that are held back. -/
def given : Sink δ → List UInt8
  | .stdout out => held out
  | sink => taken sink

section Sinks

variable {bytes : List UInt8}

lemma buffer_accepts (kept text : String) :
    Accepts taken given (utf8 text) (.buffer kept : Sink δ) (.ok (), .buffer (kept ++ text)) := by
  have htaken : taken (.buffer (kept ++ text) : Sink δ) = utf8 kept ++ utf8 text :=
    utf8_append kept text
  refine ⟨?_, ?_, fun _ => htaken⟩
  · rw [htaken]
    exact List.prefix_append _ _
  · rw [htaken]
    exact List.prefix_rfl

lemma Accepts.stdout {out : LineBuffer δ} {attempt : Attempt (LineBuffer δ)}
    (h : Accepts passed held bytes out attempt) :
    Accepts taken given bytes (.stdout out) (attempt.1, .stdout attempt.2) :=
  ⟨h.kept, h.inOrder, h.complete⟩

lemma Accepts.writer {device : δ} {attempt : Attempt δ}
    (h : Accepts Device.bytes Device.bytes bytes device attempt) :
    Accepts taken given bytes (.writer device) (attempt.1, .writer attempt.2) :=
  ⟨h.kept, h.inOrder, h.complete⟩

end Sinks

/-- A sink that does not discard what is printed accepts every text. -/
theorem sink_accepts_print {sink : Sink δ} (hsink : sink ≠ .silent) (text : String) :
    Accepts taken given (utf8 text) sink (sink.print text) := by
  cases sink with
  | buffer kept => exact buffer_accepts kept text
  | silent => exact absurd rfl hsink
  | stdout out =>
    rw [Sink.print_stdout]
    exact (lineBuffer_accepts_print out text).stdout
  | writer device =>
    rw [Sink.print_writer]
    exact (device_accepts_print device text).writer

theorem sink_accepts_println {sink : Sink δ} (hsink : sink ≠ .silent) (text : String) :
    Accepts taken given (utf8 (text ++ "\n")) sink (sink.println text) := by
  cases sink with
  | buffer kept =>
    rw [Sink.println, String.append_assoc]
    exact buffer_accepts kept (text ++ "\n")
  | silent => exact absurd rfl hsink
  | stdout out =>
    rw [Sink.println_stdout]
    exact (lineBuffer_accepts_println out text).stdout
  | writer device =>
    rw [Sink.println_writer]
    exact (device_accepts_println device text).writer

lemma given_stdout {out : LineBuffer δ} (h : out.pending = []) :
    given (.stdout out) = taken (.stdout out) := by
  rw [given, held, h, List.append_nil, taken]

/-- Printing without a failure leaves nothing behind that is held back. -/
lemma given_print_of_ok {sink : Sink δ} {text : String} (h : (sink.print text).1 = .ok ()) :
    given (sink.print text).2 = taken (sink.print text).2 := by
  cases sink with
  | stdout out =>
    rw [Sink.print_stdout] at h ⊢
    exact given_stdout (pending_print_of_ok h)
  | _ => rfl

lemma given_println_of_ok {sink : Sink δ} {text : String} (h : (sink.println text).1 = .ok ()) :
    given (sink.println text).2 = taken (sink.println text).2 := by
  cases sink with
  | stdout out =>
    rw [Sink.println_stdout] at h ⊢
    exact given_stdout (pending_println_of_ok h)
  | _ => rfl

theorem taken_prefix_print (sink : Sink δ) (text : String) :
    taken sink <+: taken (sink.print text).2 := by
  by_cases hsink : sink = .silent
  · rw [hsink]
    exact List.prefix_rfl
  · exact (sink_accepts_print hsink text).kept

theorem taken_prefix_println (sink : Sink δ) (text : String) :
    taken sink <+: taken (sink.println text).2 := by
  by_cases hsink : sink = .silent
  · rw [hsink]
    exact List.prefix_rfl
  · exact (sink_accepts_println hsink text).kept

/-- The sink does not discard what is printed, and holds nothing back. -/
structure Settled (sink : Sink δ) : Prop where
  loud : sink ≠ .silent
  given_eq : given sink = taken sink

lemma Settled.accepts {sink : Sink δ} {bytes : List UInt8} {attempt : Attempt (Sink δ)}
    (h : Settled sink) (haccepts : Accepts taken given bytes sink attempt)
    (hok : attempt.1 = .ok () → given attempt.2 = taken attempt.2) :
    Accepts taken taken bytes sink attempt := by
  obtain ⟨hkept, horder, hcomplete⟩ := haccepts
  rw [h.given_eq] at horder hcomplete
  refine ⟨hkept, horder, fun hresult => ?_⟩
  rw [← hok hresult, hcomplete hresult]

/-- A settled sink has taken a text to its last byte when it is printed without a failure, and is
settled then too. -/
theorem Settled.print {sink : Sink δ} (h : Settled sink) (text : String) :
    Accepts taken taken (utf8 text) sink (sink.print text) ∧
      ((sink.print text).1 = .ok () → Settled (sink.print text).2) := by
  refine ⟨h.accepts (sink_accepts_print h.loud text) given_print_of_ok, fun hok => ⟨?_, ?_⟩⟩
  · cases sink with
    | silent => exact h.loud
    | _ => nofun
  · exact given_print_of_ok hok

theorem Settled.println {sink : Sink δ} (h : Settled sink) (text : String) :
    Accepts taken taken (utf8 (text ++ "\n")) sink (sink.println text) ∧
      ((sink.println text).1 = .ok () → Settled (sink.println text).2) := by
  refine ⟨h.accepts (sink_accepts_println h.loud text) given_println_of_ok, fun hok => ⟨?_, ?_⟩⟩
  · cases sink with
    | silent => exact h.loud
    | _ => nofun
  · exact given_println_of_ok hok

/-- A full console has not forgotten what it refused: it is tried again first. -/
example : (((Sink.console true "").println "a").2.print "").1 = .error .deviceFull := by
  decide +kernel

end LineScript.Proofs
