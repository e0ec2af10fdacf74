import Peripherals.Block
import Peripherals.Registers
import Peripherals.Wiring

/-! # The state of the chip

Registers with the hidden state behind them: what is connected to the pins, the
receive queue, how long the transmitter stays busy, what each DMA channel took
over when it was enabled, the memory that transfers can read, and the activity
that an observer of the board has seen. -/

namespace Peripherals

/-- Activity of the chip that can be observed from outside. -/
inductive Event
  | transmitted (byte : Byte)
  | levelChanged (pin : PinId) (level : Level)
  | breakpoint
  deriving DecidableEq

/-- What a DMA channel works with while it is enabled: the addresses of the next item in
memory and at the peripheral, and the item count of a full pass. -/
structure Latch where
  active : Bool
  memory : Word
  target : Word
  reload : Word
  deriving DecidableEq

/-- Bytes that transfers can read, from an address on. -/
structure Region where
  base : Word
  bytes : Array Byte

/-- The byte of a region at an address. -/
def Region.byte? (region : Region) (address : Word) : Option Byte :=
  if region.base ≤ address then
    region.bytes[(address - region.base).toNat]?
  else
    none

/-- The chip and what surrounds it. -/
structure Chip where
  registers : Registers
  /-- The last value written to each address, also where nothing was stored. -/
  written : WordMap
  wiring : Wiring
  /-- Bytes that wait on the receive line. -/
  received : List Byte
  /-- Ticks until the transmitter can take another byte. -/
  busy : Nat
  /-- How many ticks a transmitted byte keeps the transmitter busy. -/
  latency : Nat
  channels : Vector Latch 7
  regions : List Region
  /-- Where the next shared buffer goes. -/
  nextRegion : Word
  events : Array Event
  nops : Nat
  halted : Bool

namespace Chip

/-- Where the first shared buffer goes. -/
def memoryBase : Word := 0x20000000

/-- The chip after reset, with nothing connected. -/
def reset : Chip where
  registers := .zero
  written := .empty
  wiring := .none
  received := []
  busy := 0
  latency := 0
  channels := Vector.replicate 7 ⟨false, 0, 0, 0⟩
  regions := []
  nextRegion := memoryBase
  events := #[]
  nops := 0
  halted := false

/-- The stored value of a register. -/
def peek (chip : Chip) (address : Word) : Word :=
  chip.registers.get address

/-- Replace the stored value of a register. -/
def poke (chip : Chip) (address value : Word) : Chip :=
  { chip with registers := chip.registers.set address value }

/-- Add to what has been observed. -/
def observe (chip : Chip) (events : List Event) : Chip :=
  { chip with events := chip.events ++ events }

/-- What a channel works with. -/
def latch (chip : Chip) (c : Channel) : Latch :=
  chip.channels.get c

/-- Replace what a channel works with. -/
def setLatch (chip : Chip) (c : Channel) (latch : Latch) : Chip :=
  { chip with channels := chip.channels.set c.val latch c.isLt }

/-- Whether a block is clocked. Its registers are frozen and read as zero while it is not. -/
def clocked (chip : Chip) : Block → Bool
  | .gpio port _ => chip.peek Rcc.ahb2enr &&& Rcc.portEnable port != 0
  | .usart3 _ => chip.peek Rcc.apb1lenr &&& Rcc.usart3Enable != 0
  | .dma1 _ => chip.peek Rcc.ahb1enr &&& Rcc.dma1Enable != 0
  | .other => true

/-- Whether all bits of a mask are set in USART3's first control register. -/
def usartHas (chip : Chip) (mask : Word) : Bool :=
  chip.peek (Usart3.base + Usart3.cr1) &&& mask == mask

theorem peek_poke (chip : Chip) (address value other : Word) :
    (chip.poke address value).peek other = if address = other then value else chip.peek other :=
  Registers.get_set chip.registers address value other

theorem latch_setLatch (chip : Chip) (c other : Channel) (latch : Latch) :
    (chip.setLatch c latch).latch other = if c = other then latch else chip.latch other := by
  change (chip.channels.set c.val latch c.isLt)[other.val] =
    if c = other then latch else chip.channels[other.val]
  rw [Vector.getElem_set]
  simp [Fin.ext_iff]

theorem peek_setLatch (chip : Chip) (c : Channel) (latch : Latch) (address : Word) :
    (chip.setLatch c latch).peek address = chip.peek address := rfl

end Chip

end Peripherals
