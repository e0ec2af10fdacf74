import Peripherals.Timing.ClockTree

/-! # Baud rates

The divisor that brings a kernel clock nearest to a baud rate, and the rate that
a divisor gives. -/

namespace Peripherals.BaudRate

/-- The divisor for a rate, rounded to the nearest. The sum is checked before the division. -/
def divisorFor (kernelClock rate : Word) : Except Fault Word := do
  let rounded ← Checked.add kernelClock (rate / 2)
  Checked.div rounded rate

/-- The rate that a divisor gives. -/
def ofDivisor (kernelClock divisor : Word) : Except Fault Word :=
  Checked.div kernelClock divisor

/-- Kernel clock of USART3 after reset. -/
def kernelClock : Word := ClockTree.internalOscillator

/-- The usual rate of a console. -/
def console : Word := 115200

/-- The divisor for a console at the kernel clock after reset. -/
def consoleDivisor : Word := 556

theorem divisorFor_console : divisorFor kernelClock console = .ok consoleDivisor := rfl

end Peripherals.BaudRate
