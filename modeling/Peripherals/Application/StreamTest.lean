import Peripherals.Board

/-! # The stream test

An application that streams a ramp of 256 bytes out of the console by DMA, once,
and then stops for the debugger. The first LED is lit while it runs, and a line
before and a line after the ramp tell how far it came: a transfer that never
completes leaves the LED lit and the second line missing. -/

namespace Peripherals

namespace StreamTest

/-- Which channel streams, how it is set up, and how the console is. -/
structure Config where
  channel : Channel
  transfer : ChannelConfig
  serial : SerialConfig

/-- The first channel, and a console that only transmits and is fed by DMA. -/
def Config.default : Config where
  channel := 0
  transfer := .default
  serial := { SerialConfig.default with dmaTransmit := true, receiver := false }

/-- How many bytes are streamed. -/
def size : Nat := 256

/-- The line before the ramp. -/
def started : String := "HIL Stress Test Started\r\n"

/-- The line after the ramp. -/
def passed : String := "HIL Stress Test Passed\r\n"

/-- The bytes that are streamed: each is its own position. -/
def ramp : Array Byte :=
  (Array.range size).map (BitVec.ofNat 8)

end StreamTest

/-- The application before or after a run. -/
structure StreamTest where
  led : PinId
  serial : Serial
  buffer : Buffer
  config : StreamTest.Config

namespace StreamTest

variable {δ : Type} [Target δ]

/-- Bring up the LED, the console and the DMA controller. -/
def setUp (buffer : Buffer) (config : Config) : BusM δ StreamTest := do
  Gate.enablePort Board.greenLed.port
  Board.greenLed.configureOutput
  let serial ← Board.setUpConsole config.serial
  Gate.enableDma
  pure ⟨Board.greenLed, serial, buffer, config⟩

/-- Fill the buffer with the ramp, whatever it held. -/
def fill (test : StreamTest) : StreamTest :=
  { test with buffer := { test.buffer with bytes := ramp } }

/-- Run the test up to its breakpoint. The first line is out before the channel starts, so the
two never mix. -/
def runToHalt : HeldM δ StreamTest Unit := do
  Held.change fill
  let test ← Held.current
  Held.onBus do
    test.led.setLevel .high
    Serial.sendText started
  Held.part serial (fun serial test => { test with serial })
    (Serial.sendBuffer test.buffer test.config.channel test.config.transfer)
  Held.onBus do
    Dma.wait test.config.channel
    Serial.sendText passed
    test.led.setLevel .low
    Bus.breakpoint

/-- Run the test, and then idle without end. -/
def run : HeldM δ StreamTest Unit := do
  runToHalt
  Held.onBus <| Bus.untilTrue do
    Bus.nop
    pure false

end StreamTest

end Peripherals
