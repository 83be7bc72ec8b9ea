import LineScript.Fault
import LineScript.Text.Utf8

/-!
# Devices

A device takes bytes, as many at a time as it likes, and may refuse them for reasons of its own.
`Device` is what a type of devices has to offer: programs print to any of them. `Writer` is a device
that keeps what it takes, with a limit and faults that are fixed in advance, and `LineBuffer` is a
device with a buffer before it that is emptied line by line.
-/

namespace LineScript

open Text

class Device (δ : Type) where
  /-- Offers bytes to the device, which answers how many of them it took. -/
  write : δ → List UInt8 → Except IoFault Nat × δ
  /-- Asks the device to deliver what it took. -/
  flush : δ → Except IoFault Unit × δ
  /-- All that the device took so far. -/
  bytes : δ → List UInt8
  bytes_write_ok {device after : δ} {offered : List UInt8} {count : Nat} :
    write device offered = (.ok count, after) → bytes after = bytes device ++ offered.take count
  bytes_write_error {device after : δ} {offered : List UInt8} {fault : IoFault} :
    write device offered = (.error fault, after) → bytes after = bytes device
  bytes_flush (device : δ) : bytes (flush device).2 = bytes device

/-- What came of an operation on a state, and the state that it left. -/
abbrev Attempt (τ : Type) := Except IoFault Unit × τ

/-- Goes on in the state that is left, unless the operation failed. -/
def Attempt.andThen {τ : Type} (first : Attempt τ) (next : τ → Attempt τ) : Attempt τ :=
  match first with
  | (.ok (), state) => next state
  | (.error fault, state) => (.error fault, state)

namespace Device

variable {δ : Type} [Device δ]

/-- Offers the bytes after the first `skip` ones until all of them are taken, and gives those back
that are not. A device that takes nothing fails for the reason `stalled`. -/
def offerAfter (stalled : IoFault) :
    (skip : Nat) → List UInt8 → δ → Except IoFault Unit × List UInt8 × δ
  | _, [], device => (.ok (), [], device)
  | skip + 1, _ :: rest, device => offerAfter stalled skip rest device
  | 0, byte :: rest, device =>
    match write device (byte :: rest) with
    | (.ok 0, device) => (.error stalled, byte :: rest, device)
    | (.ok (count + 1), device) => offerAfter stalled count rest device
    | (.error fault, device) => (.error fault, byte :: rest, device)

def writeAll (device : δ) (bytes : List UInt8) : Attempt δ :=
  match offerAfter .shortWrite 0 bytes device with
  | (result, _, device) => (result, device)

/-- Writes a text and flushes it. -/
def print (device : δ) (text : String) : Attempt δ :=
  (writeAll device (utf8 text)).andThen flush

/-- Writes a text and then a newline, without a flush. -/
def println (device : δ) (text : String) : Attempt δ :=
  (writeAll device (utf8 text)).andThen fun device => writeAll device (utf8 "\n")

end Device

structure Writer where
  /-- How many bytes it takes in all. -/
  limit : Option Nat := none
  /-- The reason for which it refuses every write. -/
  writeFault : Option IoFault := none
  /-- The reason for which it refuses every flush. -/
  flushFault : Option IoFault := none
  bytes : List UInt8 := []
  flushes : Nat := 0
  deriving DecidableEq, Repr, Inhabited

namespace Writer

/-- How many of `count` further bytes the writer takes. -/
def capacity (writer : Writer) (count : Nat) : Nat :=
  match writer.limit with
  | none => count
  | some limit => min count (limit - writer.bytes.length)

def write (writer : Writer) (offered : List UInt8) : Except IoFault Nat × Writer :=
  match writer.writeFault with
  | some fault => (.error fault, writer)
  | none =>
    let count := writer.capacity offered.length
    (.ok count, { writer with bytes := writer.bytes ++ offered.take count })

def flush (writer : Writer) : Except IoFault Unit × Writer :=
  match writer.flushFault with
  | some fault => (.error fault, writer)
  | none => (.ok (), { writer with flushes := writer.flushes + 1 })

instance : Device Writer where
  write := write
  flush := flush
  bytes := bytes
  bytes_write_ok {writer after offered count} h := by
    unfold write at h
    split at h <;> cases h
    rfl
  bytes_write_error {writer after offered fault} h := by
    unfold write at h
    split at h <;> cases h
    rfl
  bytes_flush writer := by
    unfold flush
    split <;> rfl

end Writer

/-- A device with a buffer before it. The buffer holds a line back until it is complete. -/
structure LineBuffer (δ : Type) where
  device : δ
  /-- The bytes that are held back. -/
  pending : List UInt8 := []
  /-- How many bytes the buffer has room for. -/
  capacity : Nat := 1024
  deriving DecidableEq, Repr

namespace LineBuffer

variable {δ : Type} [Device δ]

/-- Hands the bytes that are held back to the device. Those that it does not take are held back
still. -/
def drain (buffer : LineBuffer δ) : Attempt (LineBuffer δ) :=
  match Device.offerAfter .stalledBuffer 0 buffer.pending buffer.device with
  | (result, pending, device) => (result, { buffer with device, pending })

def drainIf (needed : Bool) (buffer : LineBuffer δ) : Attempt (LineBuffer δ) :=
  if needed then buffer.drain else (.ok (), buffer)

/-- Hands bytes to the device past the buffer. -/
def pass (bytes : List UInt8) (buffer : LineBuffer δ) : Attempt (LineBuffer δ) :=
  match Device.writeAll buffer.device bytes with
  | (result, device) => (result, { buffer with device })

/-- Adds bytes to those that are held back. Bytes that would fill the buffer are handed past it. -/
def put (bytes : List UInt8) (buffer : LineBuffer δ) : Attempt (LineBuffer δ) :=
  if buffer.capacity ≤ bytes.length then buffer.pass bytes
  else (.ok (), { buffer with pending := buffer.pending ++ bytes })

/-- Holds bytes back, for which the buffer is drained if they do not fit. -/
def hold (bytes : List UInt8) (buffer : LineBuffer δ) : Attempt (LineBuffer δ) :=
  (buffer.drainIf (buffer.capacity - buffer.pending.length < bytes.length)).andThen (put bytes)

def newline : UInt8 := 10

/-- The lines that are complete, and the bytes of one that is not. -/
def splitLines (bytes : List UInt8) : List UInt8 × List UInt8 :=
  let isOpen := fun byte => byte ≠ newline
  ((bytes.reverse.dropWhile isOpen).reverse, (bytes.reverse.takeWhile isOpen).reverse)

/-- Takes bytes, and hands on the lines that are complete. Lines that fail when nothing is held back
are lost; a line that failed before is tried again first. -/
def writeAll (bytes : List UInt8) (buffer : LineBuffer δ) : Attempt (LineBuffer δ) :=
  match splitLines bytes with
  | ([], _) => (buffer.drainIf (buffer.pending.getLast? = some newline)).andThen (hold bytes)
  | (lines, rest) =>
    if buffer.pending.isEmpty then (buffer.pass lines).andThen (hold rest)
    else ((buffer.hold lines).andThen drain).andThen (hold rest)

def flush (buffer : LineBuffer δ) : Attempt (LineBuffer δ) :=
  buffer.drain.andThen fun buffer =>
    match Device.flush buffer.device with
    | (result, device) => (result, { buffer with device })

/-- Writes a text and flushes it. -/
def print (buffer : LineBuffer δ) (text : String) : Attempt (LineBuffer δ) :=
  (buffer.writeAll (utf8 text)).andThen flush

/-- Writes a text and then a newline, which completes its line. -/
def println (buffer : LineBuffer δ) (text : String) : Attempt (LineBuffer δ) :=
  (buffer.writeAll (utf8 text)).andThen (writeAll (utf8 "\n"))

end LineBuffer

end LineScript
