import Peripherals.Word

/-! # The clock tree

Frequencies of the core and of the first peripheral bus, as prescalers divide
them down from the system clock. -/

namespace Peripherals

/-- The system clock in Hz, with the divisors of the core and of the peripheral bus. -/
structure ClockTree where
  system : Word
  corePrescaler : Word
  busPrescaler : Word

namespace ClockTree

/-- Frequency of the internal oscillator that the chip starts from. -/
def internalOscillator : Word := 64000000

/-- The tree after reset, with all prescalers at one. -/
def reset : ClockTree := ⟨internalOscillator, 1, 1⟩

/-- Speed of the core, its bus and the memory. -/
def core (tree : ClockTree) : Except Fault Word :=
  Checked.div tree.system tree.corePrescaler

/-- Speed of the first peripheral bus, which clocks USART3. -/
def peripheralBus (tree : ClockTree) : Except Fault Word := do
  let core ← tree.core
  Checked.div core tree.busPrescaler

theorem core_reset : reset.core = .ok internalOscillator := rfl

theorem peripheralBus_reset : reset.peripheralBus = .ok internalOscillator := rfl

end ClockTree

end Peripherals
