import Peripherals.Board
import Peripherals.Timing.Delay

/-! # The status report

An application that blinks the three LEDs and reports, once for each blink, how
many reports there were before and what levels the LEDs and the button have. A
report is one line on the console, followed by a pause. -/

namespace Peripherals

namespace StatusReport

/-- How long to pause between reports, in cycles, and how the console is set up. -/
structure Config where
  pause : Word
  serial : SerialConfig

/-- A pause of twelve million cycles, and the default console. -/
def Config.default : Config := ⟨12000000, .default⟩

/-- The line that is transmitted once, before the first report. -/
def banner : String := "H563-BLINK-UART\r\n"

end StatusReport

/-- The application between two reports. -/
structure StatusReport where
  leds : Leds
  button : PinId
  serial : Serial
  /-- Reports made so far, modulo the width of a word. -/
  count : Word
  lit : Bool
  config : StatusReport.Config

namespace StatusReport

variable {δ : Type} [Target δ]

/-- Bring up LEDs, button and console, and transmit the banner. -/
def setUp (config : Config) : BusM δ StatusReport := do
  let leds ← Board.setUpLeds
  let button ← Board.setUpButton
  let serial ← Board.setUpConsole config.serial
  Serial.sendText banner
  pure ⟨leds, button, serial, 0, false, config⟩

/-- Transmit a label and the level that a LED is driven to. The level is read first. -/
def reportLed (label : String) (led : PinId) : BusM δ Unit := do
  let level ← led.outputLevel
  Serial.sendText label
  Serial.sendDecimal level.bit

/-- Transmit one report line. -/
def reportLine (leds : Leds) (count : Word) (button : Level) : BusM δ Unit := do
  Serial.sendText "BLINK "
  Serial.sendDecimal count
  reportLed " PB0=" leds.green
  reportLed " PF4=" leds.yellow
  reportLed " PG4=" leds.red
  Serial.sendText " BTN13="
  Serial.sendDecimal button.bit
  Serial.sendText "\r\n"

/-- Blink, look at the button, report, and pause. -/
def step : HeldM δ StatusReport Unit := do
  Held.change fun report => { report with lit := !report.lit }
  let report ← Held.current
  Held.onBus do
    report.leds.setAll (.ofBool report.lit)
    let button ← report.button.inputLevel
    reportLine report.leds report.count button
  Held.change fun report => { report with count := report.count + 1 }
  Held.onBus (Delay.spin report.config.pause)

/-- Step for as long as a condition on the application holds, which is looked at before each
step. -/
def runWhile (condition : StatusReport → Bool) : HeldM δ StatusReport Unit :=
  Held.untilTrue do
    if condition (← Held.current) then
      step
      pure false
    else
      pure true

/-- Step without end. -/
def run : HeldM δ StatusReport Unit :=
  runWhile fun _ => true

end StatusReport

end Peripherals
