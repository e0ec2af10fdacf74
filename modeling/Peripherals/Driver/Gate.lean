import Peripherals.Bus
import Peripherals.MemoryMap

/-! # Clock gates

A block answers only while its clock is enabled. These operations enable the
clocks of the blocks and select the clock that USART3 divides. -/

namespace Peripherals

/-- The clock that USART3 divides to its baud rate. -/
inductive KernelClock
  | peripheralBus
  | pll2
  | pll3
  | highSpeedInternal
  | lowPowerInternal
  | lowSpeedExternal
  deriving DecidableEq

/-- The value that selects a kernel clock. -/
def KernelClock.code : KernelClock → Word
  | .peripheralBus => 0
  | .pll2 => 1
  | .pll3 => 2
  | .highSpeedInternal => 3
  | .lowPowerInternal => 4
  | .lowSpeedExternal => 5

namespace Gate

variable {δ : Type} [Target δ]

/-- Enable the clock of a GPIO port. -/
def enablePort (port : Port) : BusM δ Unit :=
  Bus.setBits Rcc.ahb2enr (Rcc.portEnable port)

/-- Enable the clock of USART3. -/
def enableSerial : BusM δ Unit :=
  Bus.setBits Rcc.apb1lenr Rcc.usart3Enable

/-- Enable the clock of DMA1. -/
def enableDma : BusM δ Unit :=
  Bus.setBits Rcc.ahb1enr Rcc.dma1Enable

/-- Select USART3's kernel clock. -/
def selectKernelClock (clock : KernelClock) : BusM δ Unit :=
  Bus.writeField Rcc.ccipr1 Rcc.usart3SelectShift Rcc.usart3SelectWidth clock.code

end Gate

end Peripherals
