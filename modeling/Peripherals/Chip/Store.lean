import Peripherals.Chip.State

/-! # Storing into the chip

What a store does in each block. A store into a block without clock is lost.
Otherwise GPIO's set and reset registers act on the output register, USART3's
transmit register sends a byte, DMA1's flag register clears flags, and enabling
a channel hands its configuration over to the engine. Everything else is plain
storage, except registers that only the hardware changes. -/

namespace Peripherals.Chip

/-! ## GPIO -/

/-- Give a port's output register a new value, observing every pin whose level changes. -/
def setOutput (chip : Chip) (port : Port) (value : Word) : Chip :=
  let address := port.base + Gpio.odr
  let changed := chip.peek address ^^^ value
  let events := (List.range 16).filterMap fun n =>
    if changed.getLsbD n then
      some (Event.levelChanged ⟨port, BitVec.ofNat 8 n⟩ (Level.ofBool (value.getLsbD n)))
    else
      none
  (chip.observe events).poke address value

/-- Store into a port's block. Where one store sets and resets a pin, setting wins. -/
def storeGpio (chip : Chip) (port : Port) (offset value : Word) : Chip :=
  let output := chip.peek (port.base + Gpio.odr)
  if offset = Gpio.bsrr then
    chip.setOutput port ((output &&& ~~~(value >>> 16)) ||| (value &&& 0xFFFF))
  else if offset = Gpio.brr then
    chip.setOutput port (output &&& ~~~(value &&& 0xFFFF))
  else if offset = Gpio.odr then
    chip.setOutput port (value &&& 0xFFFF)
  else if offset = Gpio.idr then
    chip
  else
    chip.poke (port.base + offset) value

/-! ## USART3 -/

/-- Put a byte on the line. -/
def transmit (chip : Chip) (byte : Byte) : Chip :=
  { chip with events := chip.events.push (.transmitted byte), busy := chip.latency }

/-- Store into USART3's block. -/
def storeUsart (chip : Chip) (offset value : Word) : Chip :=
  if offset = Usart3.tdr then
    if chip.usartHas (Usart3.enable ||| Usart3.transmitterEnable) then
      chip.transmit (value.setWidth 8)
    else
      chip
  else if offset = Usart3.isr ∨ offset = Usart3.rdr ∨ offset = Usart3.icr then
    chip
  else
    chip.poke (Usart3.base + offset) value

/-! ## DMA1 -/

/-- Whether a channel's enable bit is set. -/
def channelEnabled (chip : Chip) (c : Channel) : Bool :=
  chip.peek (Dma1.register c Dma1.ccr) &&& Dma1.enable != 0

/-- Store into a channel's control register. Enabling a channel that was disabled hands its
addresses and count over to the engine. -/
def storeControl (chip : Chip) (c : Channel) (value : Word) : Chip :=
  let wasEnabled := chip.channelEnabled c
  let chip := chip.poke (Dma1.register c Dma1.ccr) value
  if value &&& Dma1.enable = 0 then
    chip.setLatch c { chip.latch c with active := false }
  else if wasEnabled then
    chip
  else
    chip.setLatch c
      { active := true
        memory := chip.peek (Dma1.register c Dma1.cmar)
        target := chip.peek (Dma1.register c Dma1.cpar)
        reload := chip.peek (Dma1.register c Dma1.cndtr) }

/-- Store into DMA1's block. The other registers of an enabled channel are locked. -/
def storeDma (chip : Chip) (offset value : Word) : Chip :=
  if offset = Dma1.isr then
    chip
  else if offset = Dma1.ifcr then
    let flags := Dma1.base + Dma1.isr
    chip.poke flags (chip.peek flags &&& ~~~value)
  else
    match Dma1.channelAt? offset with
    | some (c, field) =>
      if field = Dma1.ccr then
        chip.storeControl c value
      else if chip.channelEnabled c then
        chip
      else
        chip.poke (Dma1.base + offset) value
    | none => chip.poke (Dma1.base + offset) value

/-! ## All blocks -/

/-- Store a value at an address. -/
def store (chip : Chip) (address value : Word) : Chip :=
  let block := Block.decode address
  if chip.clocked block then
    match block with
    | .gpio port offset => chip.storeGpio port offset value
    | .usart3 offset => chip.storeUsart offset value
    | .dma1 offset => chip.storeDma offset value
    | .other => chip.poke address value
  else
    chip

end Peripherals.Chip
