import Peripherals.Driver.Gate

/-! # DMA transfers

Programming, starting, stopping and watching the channels of DMA1. A channel is
stopped before it is programmed, since its registers are locked while it runs,
and its old flags are cleared, since completion is observed by polling. -/

namespace Peripherals

/-- Rank of a channel among others that are ready. -/
inductive Priority
  | low
  | medium
  | high
  | veryHigh
  deriving DecidableEq

/-- The priority field's value. -/
def Priority.code : Priority → Word
  | .low => 0
  | .medium => 1
  | .high => 2
  | .veryHigh => 3

/-- Where items come from and go to. -/
inductive Direction
  | fromPeripheral
  | fromMemory
  | memoryToMemory
  deriving DecidableEq

/-- The control bits of a direction. -/
def Direction.bits : Direction → Word
  | .fromPeripheral => 0
  | .fromMemory => Dma1.fromMemory
  | .memoryToMemory => Dma1.memoryToMemory

/-- Width of an item. -/
inductive ItemSize
  | bits8
  | bits16
  | bits32
  deriving DecidableEq

/-- The size field's value. -/
def ItemSize.code : ItemSize → Word
  | .bits8 => 0
  | .bits16 => 1
  | .bits32 => 2

/-- What a channel reports in its flags. -/
inductive TransferFlag
  | error
  | half
  | complete
  deriving DecidableEq

/-- The flag's bit, before it is moved to a channel's place. -/
def TransferFlag.bit : TransferFlag → Word
  | .error => Dma1.errorFlag
  | .half => Dma1.halfFlag
  | .complete => Dma1.completeFlag

/-- Everything that a channel's control register says, except whether it is enabled. -/
structure ChannelConfig where
  priority : Priority
  direction : Direction
  circular : Bool
  peripheralIncrement : Bool
  memoryIncrement : Bool
  peripheralSize : ItemSize
  memorySize : ItemSize
  completeInterrupt : Bool
  halfInterrupt : Bool
  errorInterrupt : Bool
  deriving DecidableEq

namespace ChannelConfig

/-- Bytes from memory to one peripheral register, with an interrupt on completion. -/
def default : ChannelConfig where
  priority := .low
  direction := .fromMemory
  circular := false
  peripheralIncrement := false
  memoryIncrement := true
  peripheralSize := .bits8
  memorySize := .bits8
  completeInterrupt := true
  halfInterrupt := false
  errorInterrupt := false

/-- A bit if it is wanted. -/
def bitIf (wanted : Bool) (bit : Word) : Word :=
  if wanted then bit else 0

/-- The control register's value, without the enable bit. -/
def bits (config : ChannelConfig) : Word :=
  config.priority.code <<< Dma1.priorityShift.toNat |||
    config.peripheralSize.code <<< Dma1.peripheralSizeShift.toNat |||
    config.memorySize.code <<< Dma1.memorySizeShift.toNat |||
    config.direction.bits |||
    bitIf config.circular Dma1.circular |||
    bitIf config.peripheralIncrement Dma1.peripheralIncrement |||
    bitIf config.memoryIncrement Dma1.memoryIncrement |||
    bitIf config.completeInterrupt Dma1.completeInterrupt |||
    bitIf config.halfInterrupt Dma1.halfInterrupt |||
    bitIf config.errorInterrupt Dma1.errorInterrupt

theorem bits_default : default.bits = 0x92 := rfl

end ChannelConfig

namespace Dma

variable {δ : Type} [Target δ]

/-- Stop a channel, and wait until it has stopped. -/
def stop (c : Channel) : BusM δ Unit := do
  Bus.clearBits (Dma1.register c Dma1.ccr) Dma1.enable
  Bus.waitClear (Dma1.register c Dma1.ccr) Dma1.enable

/-- Clear some flags of a channel. -/
def clear (c : Channel) (flags : Word) : BusM δ Unit :=
  Bus.write (Dma1.base + Dma1.ifcr) (Dma1.flagsOf c flags)

/-- Clear one flag of a channel. -/
def clearFlag (c : Channel) (flag : TransferFlag) : BusM δ Unit :=
  clear c flag.bit

/-- Clear all flags of a channel. -/
def clearFlags (c : Channel) : BusM δ Unit :=
  clear c (Dma1.channelFlags ||| Dma1.globalFlag)

/-- Program a channel's addresses and item count. -/
def configure (c : Channel) (target source length : Word) : BusM δ Unit := do
  if Dma1.countMax < length then
    throw .transferTooLong
  if ← Bus.anySet (Dma1.register c Dma1.ccr) Dma1.enable then
    stop c
  Bus.write (Dma1.register c Dma1.cpar) target
  Bus.write (Dma1.register c Dma1.cmar) source
  Bus.write (Dma1.register c Dma1.cndtr) length
  clearFlags c

/-- Write a channel's control register and enable the channel, in one write. -/
def start (c : Channel) (config : ChannelConfig) : BusM δ Unit :=
  Bus.write (Dma1.register c Dma1.ccr) (config.bits ||| Dma1.enable)

/-- Whether a flag of a channel is raised. -/
def raised (c : Channel) (flag : TransferFlag) : BusM δ Bool :=
  Bus.anySet (Dma1.base + Dma1.isr) (Dma1.flagsOf c flag.bit)

/-- Wait until a channel's transfer is complete. -/
def wait (c : Channel) : BusM δ Unit :=
  Bus.untilTrue (raised c .complete)

/-- How many items a channel has left. -/
def remaining (c : Channel) : BusM δ Word := do
  let count ← Bus.read (Dma1.register c Dma1.cndtr)
  pure (count &&& Dma1.countMax)

end Dma

end Peripherals
