import Peripherals.Chip.Store

/-! # The passing of time

Time passes by one tick for every load and every `nop`. A tick brings the
transmitter one step closer to its next byte, and then lets every active channel
of a clocked DMA1 move one item from memory, the lower channels first. Running
off the memory that was shared is a bus error, which disables the channel. -/

namespace Peripherals.Chip

/-- The byte at an address, from the first region that holds it. -/
def memoryByte? (chip : Chip) (address : Word) : Option Byte :=
  chip.regions.findSome? (·.byte? address)

/-- Raise flags of a channel, always with its global flag. -/
def raise (chip : Chip) (c : Channel) (flags : Word) : Chip :=
  let address := Dma1.base + Dma1.isr
  chip.poke address (chip.peek address ||| Dma1.flagsOf c (flags ||| Dma1.globalFlag))

/-- Whether USART3 asks for its next byte. -/
def requestsData (chip : Chip) : Bool :=
  chip.clocked (.usart3 0) &&
    (chip.peek (Usart3.base + Usart3.cr3) &&& Usart3.dmaTransmit != 0) && chip.busy == 0

/-- Whether a channel can move an item: it has items left, it reads memory, and USART3, if it
is the target, asks for a byte. -/
def canMove (chip : Chip) (c : Channel) : Bool :=
  chip.peek (Dma1.register c Dma1.cndtr) != 0 &&
    (chip.peek (Dma1.register c Dma1.ccr) &&& Dma1.fromMemory != 0) &&
    ((chip.latch c).target != Usart3.base + Usart3.tdr || chip.requestsData)

/-- Disable a channel after a bus error. -/
def busError (chip : Chip) (c : Channel) (control : Word) : Chip :=
  let chip := chip.raise c Dma1.errorFlag
  let chip := chip.poke (Dma1.register c Dma1.ccr) (control &&& ~~~Dma1.enable)
  chip.setLatch c { chip.latch c with active := false }

/-- Step a channel's memory address to the next item. -/
def stepMemory (c : Channel) : EStateM Fault Chip Unit := fun chip =>
  match Checked.add (chip.latch c).memory 1 with
  | .ok next => .ok () (chip.setLatch c { chip.latch c with memory := next })
  | .error fault => .error fault chip

/-- Step a channel's peripheral address to the next item. -/
def stepTarget (c : Channel) : EStateM Fault Chip Unit := fun chip =>
  match Checked.add (chip.latch c).target 1 with
  | .ok next => .ok () (chip.setLatch c { chip.latch c with target := next })
  | .error fault => .error fault chip

/-- Take a channel back to the start of its pass. -/
def rewind (chip : Chip) (c : Channel) : Chip :=
  chip.setLatch c
    { chip.latch c with
      memory := chip.peek (Dma1.register c Dma1.cmar)
      target := chip.peek (Dma1.register c Dma1.cpar) }

/-- Count a moved item, with `left` items to go. A circular channel starts over after the last. -/
def countItem (chip : Chip) (c : Channel) (control left : Word) : Chip :=
  let reload := (chip.latch c).reload
  let chip := if left = reload / 2 then chip.raise c Dma1.halfFlag else chip
  if left = 0 then
    let chip := chip.raise c Dma1.completeFlag
    if control &&& Dma1.circular = 0 then
      chip.poke (Dma1.register c Dma1.cndtr) 0
    else
      (chip.rewind c).poke (Dma1.register c Dma1.cndtr) reload
  else
    chip.poke (Dma1.register c Dma1.cndtr) left

/-- Move a byte to a channel's target, step its addresses as its control value says, and count
the item. The control value and the count are those from before the move. -/
def moveItem (c : Channel) (control remaining : Word) (byte : Byte) :
    EStateM Fault Chip Unit := do
  modify fun chip => chip.store (chip.latch c).target (byte.setWidth 32)
  if control &&& Dma1.memoryIncrement != 0 then
    stepMemory c
  if control &&& Dma1.peripheralIncrement != 0 then
    stepTarget c
  modify fun chip => chip.countItem c control (remaining - 1)

/-- One turn of an active channel. -/
def stepChannel (c : Channel) : EStateM Fault Chip Unit := fun chip =>
  if chip.canMove c then
    let control := chip.peek (Dma1.register c Dma1.ccr)
    let remaining := chip.peek (Dma1.register c Dma1.cndtr)
    match chip.memoryByte? (chip.latch c).memory with
    | some byte => (moveItem c control remaining byte).run chip
    | none => .ok () (chip.busError c control)
  else
    .ok () chip

/-- Let a channel have its turn if it is active by then. -/
def serveChannel (c : Channel) : EStateM Fault Chip Unit := fun chip =>
  if (chip.latch c).active then
    (stepChannel c).run chip
  else
    .ok () chip

/-- Let one tick pass. -/
def tick : EStateM Fault Chip Unit := fun chip =>
  let chip := { chip with busy := chip.busy - 1 }
  if chip.clocked (.dma1 0) then
    (forM Channel.all serveChannel).run chip
  else
    .ok () chip

end Peripherals.Chip
