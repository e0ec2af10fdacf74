import Peripherals.Chip.State

/-! # Loading from the chip

What a load gives. A block without clock reads as zero. GPIO's input register
shows the level of every pin, USART3's status register is derived from the
transmitter and the receive queue, and its receive register takes a byte from
that queue. Every other register reads as stored. -/

namespace Peripherals.Chip

/-! ## Pin levels -/

/-- The two-bit field of a pin in one of a port's configuration registers. -/
def pinField (chip : Chip) (port : Port) (offset : Word) (n : Nat) : Word :=
  chip.peek (port.base + offset) >>> (2 * n) &&& 3

/-- The level of an input pin: a driven level, else the output wired to it, else its pull. -/
def inputLevel (chip : Chip) (port : Port) (n : Nat) : Except Fault Bool :=
  let pin : PinId := ⟨port, BitVec.ofNat 8 n⟩
  match chip.wiring.driven? pin with
  | some level => pure level.isHigh
  | none =>
    match chip.wiring.source? pin with
    | some source => do
      let mask ← Checked.shiftLeft 1 source.number
      pure (chip.peek (source.port.base + Gpio.odr) &&& mask != 0)
    | none => pure (chip.pinField port Gpio.pupdr n == 1)

/-- The level of a pin: an output shows its own output bit, an analog pin reads low. -/
def pinLevel (chip : Chip) (port : Port) (n : Nat) : Except Fault Bool :=
  let mode := chip.pinField port Gpio.moder n
  if mode = 0 then
    chip.inputLevel port n
  else if mode = 3 then
    pure false
  else
    pure ((chip.peek (port.base + Gpio.odr)).getLsbD n)

/-- The levels of a port's sixteen pins, as the input register shows them. -/
def inputData (chip : Chip) (port : Port) : Except Fault Word :=
  (List.range 16).foldlM (fun levels n => do
    let high ← chip.pinLevel port n
    pure (if high then levels ||| 1 <<< n else levels)) 0

/-! ## USART3 -/

/-- Whether a received byte can be taken. -/
def receiveReady (chip : Chip) : Bool :=
  chip.usartHas (Usart3.enable ||| Usart3.receiverEnable) && !chip.received.isEmpty

/-- USART3's status register. -/
def usartStatus (chip : Chip) : Word :=
  (if chip.busy = 0 then Usart3.txe ||| Usart3.tc else 0) |||
    (if chip.receiveReady then Usart3.rxne else 0)

/-- Take the oldest received byte, or zero if none can be taken. -/
def receive (chip : Chip) : Word × Chip :=
  match chip.received with
  | [] => (0, chip)
  | byte :: rest =>
    if chip.receiveReady then
      (byte.setWidth 32, { chip with received := rest })
    else
      (0, chip)

/-! ## All blocks -/

/-- Load the value at an address. -/
def load (address : Word) : EStateM Fault Chip Word := fun chip =>
  let block := Block.decode address
  if chip.clocked block then
    match block with
    | .gpio port offset =>
      if offset = Gpio.idr then
        match chip.inputData port with
        | .ok levels => .ok levels chip
        | .error fault => .error fault chip
      else
        .ok (chip.peek address) chip
    | .usart3 offset =>
      if offset = Usart3.isr then
        .ok chip.usartStatus chip
      else if offset = Usart3.rdr then
        let (value, chip) := chip.receive
        .ok value chip
      else
        .ok (chip.peek address) chip
    | _ => .ok (chip.peek address) chip
  else
    .ok 0 chip

end Peripherals.Chip
