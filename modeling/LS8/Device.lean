import LS8.Text.Utf8

/-!
# Output devices

The device that printed numbers go to. It keeps all that it was given
(`Device.written`), and it may have limits: room for only so many bytes over its
life, and only so many flushes.

A write beyond the room keeps what still fits and fails. `Device.printLine`
writes and then flushes, as printing a number does.
-/

namespace LS8

/-- What a device without words of its own says when its room is used up. -/
def Device.full : String := "device full"

/-- What a device without words of its own says when it does not flush any more. -/
def Device.flushFailed : String := "flush failed"

/-- An output device. A limit that is absent never makes it fail. -/
structure Device where
  written : Array UInt8 := #[]
  /-- How many bytes the device keeps over its life. -/
  capacity : Option Nat := none
  /-- How many flushes will still succeed. -/
  flushes : Option Nat := none
  /-- What the device says when its room is used up. -/
  whenFull : String := Device.full
  /-- What the device says when it does not flush any more. -/
  whenFlushed : String := Device.flushFailed
deriving DecidableEq, Repr, Inhabited

namespace Device

/-- How much of a write of `count` bytes the device keeps. -/
def accepts (d : Device) (count : Nat) : Nat :=
  match d.capacity with
  | none => count
  | some capacity => min count (capacity - d.written.size)

/-- Writes bytes. If they do not all fit, those that fit are kept and the write
fails. -/
def write (d : Device) (bytes : List UInt8) : Device × Option String :=
  let kept := d.accepts bytes.length
  ({ d with written := d.written ++ bytes.take kept },
    if kept < bytes.length then some d.whenFull else none)

/-- Flushes what was written. -/
def flush (d : Device) : Device × Option String :=
  match d.flushes with
  | none => (d, none)
  | some 0 => (d, some d.whenFlushed)
  | some (n + 1) => ({ d with flushes := some n }, none)

/-- Writes bytes and, if that went well, flushes. -/
def print (d : Device) (bytes : List UInt8) : Device × Option String :=
  match d.write bytes with
  | (d, some failure) => (d, some failure)
  | (d, none) => d.flush

/-- All that was written, as text. -/
def contents (d : Device) : String :=
  Utf8.decodeLossy d.written.toList

end Device

end LS8
