import Peripherals.MemoryMap

/-! # Address decoding

Which block an address belongs to, and which channel a DMA1 offset belongs to.
Both divide the distance from a base by a stride; an address below the base
wraps to a distance that is too large, so one comparison checks both ends. -/

namespace Peripherals

/-- A block of registers with an offset into it, or plain storage. -/
inductive Block
  | gpio (port : Port) (offset : Word)
  | usart3 (offset : Word)
  | dma1 (offset : Word)
  | other
  deriving DecidableEq

/-- How many addresses a block covers. -/
def Block.size : Word := 0x400

/-- The block that an address belongs to. -/
def Block.decode (address : Word) : Block :=
  match Port.ofIndex? ((address - Gpio.base) / Gpio.stride).toNat with
  | some port => .gpio port ((address - Gpio.base) % Gpio.stride)
  | none =>
    if address - Usart3.base < size then
      .usart3 (address - Usart3.base)
    else if address - Dma1.base < size then
      .dma1 (address - Dma1.base)
    else
      .other

/-- The channel and the register offset that a DMA1 offset names, if it is a channel's. -/
def Dma1.channelAt? (offset : Word) : Option (Channel × Word) :=
  let distance := offset - channelBase
  if h : (distance / channelStride).toNat < 7 then
    some (⟨(distance / channelStride).toNat, h⟩, distance % channelStride)
  else
    none

end Peripherals
