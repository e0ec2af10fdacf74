import Peripherals.Bench.Perform
import Peripherals.Chip.Device

/-! # Probes of the chip

What a script can do to the chip from outside, without a driver and without
ticks: look at registers, connect pins, feed the receive line, and ask what has
been observed. -/

namespace Peripherals.Bench

/-- An access to the chip from outside. -/
inductive Probe
  | peek (address : Word)
  | lastWrite (address : Word)
  | drive (pin : PinId) (level : Level)
  | release (pin : PinId)
  | connect (output input : PinId)
  | pushReceived (bytes : List Byte)
  | setLatency (ticks : Nat)
  | transmitted
  | events
  | clearEvents
  | nopCount
  | isHalted

/-- Look at the chip. -/
def look (answer : Chip → Answer) : BenchM Chip Answer := fun held =>
  .ok (answer held.session.device) held

/-- Do something to the chip. -/
def touch (change : Chip → Chip) : BenchM Chip Answer := do
  viaBus (Bus.onDevice (modify change))
  pure .nothing

/-- Perform a probe. -/
def Probe.perform : Probe → BenchM Chip Answer
  | .peek address => look fun chip => .number (chip.peek address).toNat
  | .lastWrite address => look fun chip => .optional (chip.lastWrite? address)
  | .drive pin level => touch (·.drive pin level)
  | .release pin => touch (·.release pin)
  | .connect output input => touch (·.connect output input)
  | .pushReceived bytes => touch (·.pushReceived bytes)
  | .setLatency ticks => touch (·.setLatency ticks)
  | .transmitted => look fun chip => .bytes chip.transmitted
  | .events => look fun chip => .events chip.events.toList
  | .clearEvents => touch (·.clearEvents)
  | .nopCount => look fun chip => .number chip.nops
  | .isHalted => look fun chip => .flag chip.halted

end Peripherals.Bench
