import LineScript.Device

/-!
# Sinks

A sink is where a program prints: a buffer in memory, nothing at all, the standard output, or a
device of the host. `print` delivers a text at once; `println` ends it with a newline and leaves
delivery to the device.
-/

namespace LineScript

open Text

/-- Where a program prints, with devices from `δ`. -/
inductive Sink (δ : Type := Writer) where
  | buffer (text : String)
  /-- Discards what is printed. -/
  | silent
  /-- The standard output, which is a device behind a line buffer. -/
  | stdout (out : LineBuffer δ)
  | writer (device : δ)
  deriving DecidableEq, Repr

namespace Sink

/-- A standard output on which this was printed already; a full one has no room for any text. -/
def console (full : Bool) (shown : String) : Sink :=
  .stdout { device := {
    writeFault := if full then some .deviceFull else none
    bytes := utf8 shown } }

variable {δ : Type}

instance : Inhabited (Sink δ) := ⟨silent⟩

/-- What a buffer keeps; other sinks keep nothing. -/
def kept : Sink δ → String
  | buffer text => text
  | _ => ""

/-- Empties a buffer; other sinks stay as they are. -/
def clear : Sink δ → Sink δ
  | buffer _ => buffer ""
  | sink => sink

variable [Device δ]

def print (sink : Sink δ) (text : String) : Attempt (Sink δ) :=
  match sink with
  | buffer kept => (.ok (), buffer (kept ++ text))
  | silent => (.ok (), silent)
  | stdout out =>
    match out.print text with
    | (result, out) => (result, stdout out)
  | writer device =>
    match Device.print device text with
    | (result, device) => (result, writer device)

/-- Prints a text and a newline. -/
def println (sink : Sink δ) (text : String) : Attempt (Sink δ) :=
  match sink with
  | buffer kept => (.ok (), buffer (kept ++ text ++ "\n"))
  | silent => (.ok (), silent)
  | stdout out =>
    match out.println text with
    | (result, out) => (result, stdout out)
  | writer device =>
    match Device.println device text with
    | (result, device) => (result, writer device)

theorem print_stdout (out : LineBuffer δ) (text : String) :
    (stdout out).print text = ((out.print text).1, stdout (out.print text).2) := by
  rw [print]

theorem println_stdout (out : LineBuffer δ) (text : String) :
    (stdout out).println text = ((out.println text).1, stdout (out.println text).2) := by
  rw [println]

theorem print_writer (device : δ) (text : String) :
    (writer device).print text =
      ((Device.print device text).1, writer (Device.print device text).2) := by
  rw [print]

theorem println_writer (device : δ) (text : String) :
    (writer device).println text =
      ((Device.println device text).1, writer (Device.println device text).2) := by
  rw [println]

/-- What the standard output shows when the program is over, where what is held back is tried once
more. Other sinks show nothing. -/
def shown : Sink δ → String
  | stdout out => ofUtf8 (Device.bytes out.drain.2.device)
  | _ => ""

end Sink

end LineScript
