import Peripherals.Bus
import Peripherals.MemoryMap

/-! # Pins

Configuration of a pin's mode, output type, speed, pull and alternate function,
and its use as an output or input. The number of a pin is checked when the pin
is claimed; later operations compute with the number they find, so one that is
too large is a fault in that arithmetic. -/

namespace Peripherals

/-- What a pin is used for. -/
inductive PinMode
  | input
  | output
  | alternate (function : Fin 16)
  | analog
  deriving DecidableEq

/-- The mode field's value. -/
def PinMode.code : PinMode → Word
  | .input => 0
  | .output => 1
  | .alternate _ => 2
  | .analog => 3

/-- How an output is driven. -/
inductive OutputType
  | pushPull
  | openDrain
  deriving DecidableEq

/-- The output type field's value. -/
def OutputType.code : OutputType → Word
  | .pushPull => 0
  | .openDrain => 1

/-- How fast an output changes. -/
inductive OutputSpeed
  | low
  | medium
  | high
  | veryHigh
  deriving DecidableEq

/-- The output speed field's value. -/
def OutputSpeed.code : OutputSpeed → Word
  | .low => 0
  | .medium => 1
  | .high => 2
  | .veryHigh => 3

/-- The internal resistor of a pin. -/
inductive Pull
  | floating
  | up
  | down
  deriving DecidableEq

/-- The pull field's value. -/
def Pull.code : Pull → Word
  | .floating => 0
  | .up => 1
  | .down => 2

namespace PinId

variable {δ : Type} [Target δ]

/-- Accept a pin whose number names a pin of its port. -/
def claim (pin : PinId) : Except Fault Unit :=
  if pin.number < 16 then .ok () else .error .pinOutOfRange

/-! ## Configuration -/

/-- Write the pin's field in a register with two bits for each pin. -/
def writePair (pin : PinId) (offset value : Word) : BusM δ Unit := do
  let shift ← Checked.mul pin.number 2
  Bus.writeField (pin.port.base + offset) shift 2 value

/-- Select the alternate function, in the low register for pins below eight. -/
def setAlternate (pin : PinId) (function : Fin 16) : BusM δ Unit := do
  let (offset, slot) :=
    if pin.number < 8 then (Gpio.afrl, pin.number) else (Gpio.afrh, pin.number - 8)
  let shift ← Checked.mul slot 4
  Bus.writeField (pin.port.base + offset) shift 4 (BitVec.ofNat 32 function)

/-- Set the mode. An alternate function is selected before the mode changes, so that the pin
never drives an old one. -/
def setMode (pin : PinId) (mode : PinMode) : BusM δ Unit := do
  match mode with
  | .alternate function => pin.setAlternate function
  | _ => pure ()
  pin.writePair Gpio.moder mode.code

/-- Set the output type. -/
def setOutputType (pin : PinId) (type : OutputType) : BusM δ Unit :=
  Bus.writeField (pin.port.base + Gpio.otyper) pin.number 1 type.code

/-- Set the output speed. -/
def setOutputSpeed (pin : PinId) (speed : OutputSpeed) : BusM δ Unit :=
  pin.writePair Gpio.ospeedr speed.code

/-- Set the internal resistor. -/
def setPull (pin : PinId) (pull : Pull) : BusM δ Unit :=
  pin.writePair Gpio.pupdr pull.code

/-- Make the pin a push-pull output of medium speed without pull. -/
def configureOutput (pin : PinId) : BusM δ Unit := do
  pin.setMode .output
  pin.setOutputType .pushPull
  pin.setOutputSpeed .medium
  pin.setPull .floating

/-- Make the pin an input that is pulled up. -/
def configureInputPullUp (pin : PinId) : BusM δ Unit := do
  pin.setMode .input
  pin.setPull .up

/-! ## Use -/

/-- Drive the pin to a level with a single write, which concerns no other pin. -/
def setLevel (pin : PinId) (level : Level) : BusM δ Unit := do
  let offset := match level with
    | .low => Gpio.resetShift
    | .high => 0
  let position ← Checked.add offset pin.number
  let mask ← Checked.shiftLeft 1 position
  Bus.write (pin.port.base + Gpio.bsrr) mask

/-- The pin's level in one of the port's data registers. -/
def readLevel (pin : PinId) (offset : Word) : BusM δ Level := do
  let mask ← Checked.shiftLeft 1 pin.number
  let high ← Bus.anySet (pin.port.base + offset) mask
  pure (.ofBool high)

/-- The level found at the pin. -/
def inputLevel (pin : PinId) : BusM δ Level :=
  pin.readLevel Gpio.idr

/-- The level the pin is driven to. -/
def outputLevel (pin : PinId) : BusM δ Level :=
  pin.readLevel Gpio.odr

/-- Drive the pin to the other level. -/
def toggle (pin : PinId) : BusM δ Unit := do
  match ← pin.outputLevel with
  | .high => pin.setLevel .low
  | .low => pin.setLevel .high

end PinId

end Peripherals
