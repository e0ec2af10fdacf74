import Peripherals.Driver.Pin
import Peripherals.Driver.Serial

/-! # The board

Which pins the three user LEDs, the user button and the console are on, and how
each is brought up from reset. -/

namespace Peripherals

/-- The three user LEDs. -/
structure Leds where
  green : PinId
  yellow : PinId
  red : PinId

namespace Board

variable {δ : Type} [Target δ]

def greenLed : PinId := ⟨.b, 0⟩
def yellowLed : PinId := ⟨.f, 4⟩
def redLed : PinId := ⟨.g, 4⟩

/-- The user button, which pulls its pin low when it is pressed. -/
def userButton : PinId := ⟨.c, 13⟩

def consoleTransmit : PinId := ⟨.d, 8⟩
def consoleReceive : PinId := ⟨.d, 9⟩

/-- The alternate function that connects the console's pins to USART3. -/
def consoleFunction : Fin 16 := 7

/-- Enable the clocks of the LEDs' ports, and make the LEDs outputs. -/
def setUpLeds : BusM δ Leds := do
  Gate.enablePort greenLed.port
  Gate.enablePort yellowLed.port
  Gate.enablePort redLed.port
  greenLed.configureOutput
  yellowLed.configureOutput
  redLed.configureOutput
  pure ⟨greenLed, yellowLed, redLed⟩

/-- Enable the clock of the button's port, and make the button an input that is pulled up. -/
def setUpButton : BusM δ PinId := do
  Gate.enablePort userButton.port
  userButton.configureInputPullUp
  pure userButton

/-- Connect a pin to USART3 at the highest speed. -/
def connectConsolePin (pin : PinId) (pull : Pull) : BusM δ Unit := do
  pin.setOutputType .pushPull
  pin.setOutputSpeed .veryHigh
  pin.setPull pull
  pin.setMode (.alternate consoleFunction)

/-- Bring up the console: clocks, kernel clock, pins, and then the line itself. -/
def setUpConsole (config : SerialConfig) : BusM δ Serial := do
  Gate.enablePort .d
  Gate.enableSerial
  Gate.selectKernelClock .peripheralBus
  connectConsolePin consoleTransmit .floating
  connectConsolePin consoleReceive .up
  Serial.setUp config

end Board

/-- Drive all three LEDs to one level. -/
def Leds.setAll {δ : Type} [Target δ] (leds : Leds) (level : Level) : BusM δ Unit := do
  leds.green.setLevel level
  leds.yellow.setLevel level
  leds.red.setLevel level

end Peripherals
