import Peripherals.Chip.Load
import Peripherals.Chip.Transfer
import Peripherals.Target

/-! # The chip as a target

A load first lets a tick pass and then reads; a store takes no time. Sharing a
buffer copies it into memory of the chip, with a gap behind it, so that running
off its end is a bus error. -/

namespace Peripherals.Chip

/-- Write a value, remembering it for its address whether it is stored or not. -/
def write (chip : Chip) (address value : Word) : Chip :=
  { chip with written := chip.written.insert address value }.store address value

/-- Where the buffer after one of `length` bytes at `base` goes: sixteen bytes or more behind
its end, at a multiple of four. -/
def regionAfter (base : Word) (length : Nat) : Except Fault Word := do
  let last ← Checked.add base (BitVec.ofNat 32 length)
  let gap ← Checked.add last 0x10
  let padded ← Checked.add gap 3
  pure (padded &&& ~~~3)

/-- Copy a buffer into memory that transfers can read, and give its address. -/
def share (bytes : Array Byte) : EStateM Fault Chip Word := fun chip =>
  match regionAfter chip.nextRegion bytes.size with
  | .ok next =>
    .ok chip.nextRegion
      { chip with regions := chip.regions ++ [⟨chip.nextRegion, bytes⟩], nextRegion := next }
  | .error fault => .error fault chip

/-- Execute one `nop`. -/
def nop : EStateM Fault Chip Unit := do
  modify fun chip => { chip with nops := chip.nops + 1 }
  tick

/-- Execute a breakpoint instruction. -/
def breakpoint (chip : Chip) : Chip :=
  { chip.observe [.breakpoint] with halted := true }

instance : Target Chip where
  accepts _ _ := true
  peek := Chip.peek
  load address := do
    tick
    load address
  store address value := modify (·.write address value)
  place _ := pure 0
  share buffer := share buffer.bytes
  nop := nop
  breakpoint := modify breakpoint

/-! ## The outside of the chip -/

/-- The value last written to an address, if any was. -/
def lastWrite? (chip : Chip) (address : Word) : Option Word :=
  chip.written.find? address

/-- Drive a pin from outside. -/
def drive (chip : Chip) (pin : PinId) (level : Level) : Chip :=
  { chip with wiring := chip.wiring.drive pin level }

/-- Stop driving a pin. -/
def release (chip : Chip) (pin : PinId) : Chip :=
  { chip with wiring := chip.wiring.release pin }

/-- Wire the output of one pin to the input of another. -/
def connect (chip : Chip) (output input : PinId) : Chip :=
  { chip with wiring := chip.wiring.connect output input }

/-- Put bytes on the receive line. -/
def pushReceived (chip : Chip) (bytes : List Byte) : Chip :=
  { chip with received := chip.received ++ bytes }

/-- From now on keep the transmitter busy for a number of ticks after each byte. -/
def setLatency (chip : Chip) (ticks : Nat) : Chip :=
  { chip with latency := ticks }

/-- The bytes transmitted so far. -/
def transmitted (chip : Chip) : List Byte :=
  chip.events.toList.filterMap fun
    | .transmitted byte => some byte
    | _ => none

/-- Forget what has been observed. -/
def clearEvents (chip : Chip) : Chip :=
  { chip with events := #[] }

end Peripherals.Chip
