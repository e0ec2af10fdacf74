import Peripherals.Bus
import Peripherals.Timing.ClockTree

/-! # Delays

A delay is a number of `nop`s, one for each cycle of a core clock rounded down
to whole cycles per microsecond. Long delays are cut into chunks whose cycle
counts fit a word. How the cycles pass is a parameter: on a bus each is a `nop`,
and a tally only counts them. -/

namespace Peripherals

/-- Delays at a speed in cycles per microsecond. -/
structure Delay where
  cyclesPerMicro : Word

/-- Delays as a driver asks for them that does not know what passes the time. -/
structure DelaySource (σ : Type) where
  micros : Word → EStateM Fault σ Unit
  millis : Word → EStateM Fault σ Unit
  nanos : Word → EStateM Fault σ Unit

namespace Delay

variable {σ δ : Type}

/-- Delays for a core clock in Hz. -/
def atClock (core : Word) : Delay := ⟨core / 1000000⟩

/-- Delays for the core clock after reset. -/
def atReset : Delay := atClock ClockTree.internalOscillator

/-- The longest chunk in microseconds whose cycle count fits a word. -/
def chunk (delay : Delay) : Word :=
  BitVec.allOnes 32 / (if delay.cyclesPerMicro = 0 then 1 else delay.cyclesPerMicro)

/-- The chunks of a delay: full ones, then what is left. -/
def chunks (delay : Delay) (micros : Word) : List Word :=
  List.replicate (micros / delay.chunk).toNat delay.chunk ++
    (if micros % delay.chunk = 0 then [] else [micros % delay.chunk])

/-- Let microseconds pass. -/
def micros (delay : Delay) (spin : Word → EStateM Fault σ Unit) (n : Word) :
    EStateM Fault σ Unit :=
  forM (delay.chunks n) fun length => do
    let cycles ← Checked.mul length delay.cyclesPerMicro
    spin cycles

/-- Let milliseconds pass, one after the other. -/
def millis (delay : Delay) (spin : Word → EStateM Fault σ Unit) (n : Word) :
    EStateM Fault σ Unit :=
  times n.toNat (delay.micros spin 1000)

/-- Let nanoseconds pass, rounded up to whole microseconds. -/
def nanos (delay : Delay) (spin : Word → EStateM Fault σ Unit) (n : Word) :
    EStateM Fault σ Unit :=
  delay.micros spin (n / 1000 + if n % 1000 = 0 then 0 else 1)

/-- The delays as a source for other drivers, which passes micro- and milliseconds on as they
are. -/
def source (delay : Delay) (spin : Word → EStateM Fault σ Unit) : DelaySource σ where
  micros := delay.micros spin
  millis := delay.millis spin
  nanos := delay.nanos spin

/-- Let cycles pass on a bus, a `nop` for each. -/
def spin [Target δ] (cycles : Word) : BusM δ Unit :=
  times cycles.toNat Bus.nop

/-- Count cycles without letting them pass. -/
def tally (cycles : Word) : EStateM Fault Nat Unit :=
  modify (· + cycles.toNat)

end Delay

end Peripherals
