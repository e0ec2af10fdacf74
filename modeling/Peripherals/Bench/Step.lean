import Peripherals.Application.StatusReport
import Peripherals.Application.StreamTest

/-! # Steps of a script

What a script can ask of the drivers, one step at a time, grouped by the driver
or application that the step is for. Pins are kept under names; of every other
driver and application a script has at most one. -/

namespace Peripherals.Bench

/-- Accesses that use no driver. -/
inductive BusStep
  | read (address : Word)
  | write (address value : Word)
  | xor (address value : Word)
  | setBits (address mask : Word)
  | clearBits (address mask : Word)
  | anySet (address mask : Word)
  | writeField (address : Word) (shift width : Byte) (value : Word)
  | readField (address : Word) (shift width : Byte)
  | share (bytes : Array Byte)
  | nop
  | breakpoint
  | spin (cycles : Word)

/-- Clock gates. -/
inductive GateStep
  | enablePort (port : Port)
  | enableSerial
  | enableDma
  | selectKernelClock (clock : KernelClock)

/-- How a pin is set up when it is claimed. -/
inductive PinSetUp
  | inMode (mode : PinMode)
  | unconfigured
  | output
  | inputPullUp

/-- Use of a pin. -/
inductive PinStep
  | configureOutput
  | configureInputPullUp
  | setMode (mode : PinMode)
  | setOutputType (type : OutputType)
  | setOutputSpeed (speed : OutputSpeed)
  | setPull (pull : Pull)
  | setAlternate (function : Fin 16)
  | setLevel (level : Level)
  | toggle
  | inputLevel
  | outputLevel
  | inputIs (level : Level)
  | outputIs (level : Level)
  /-- Point the handle at another port or number, without any check. -/
  | retarget (port : Option Port) (number : Option Byte)

/-- Use of the serial line. -/
inductive SerialStep
  | sendByte (byte : Byte)
  | send (bytes : List Byte)
  /-- Send bytes and answer how many there were. -/
  | sendCounted (bytes : List Byte)
  | sendText (text : String)
  | sendDecimal (n : Word)
  /-- Send a line that shows a word in decimal and a byte in hexadecimal digits. -/
  | sendLine (n : Word) (x : Byte)
  | receive
  | flush
  | enableDma
  | target
  | config

/-- Use of a DMA channel. -/
inductive DmaStep
  | configure (target source length : Word)
  | start (config : ChannelConfig)
  | stop
  | raised (flag : TransferFlag)
  | wait
  | clearFlag (flag : TransferFlag)
  | clearFlags
  | remaining

/-- Use of the delays. -/
inductive DelayStep
  | micros (n : Word)
  | millis (n : Word)
  | nanos (n : Word)

/-- Use of the status report. -/
inductive StatusStep
  | reportOnce
  | count
  | setPause (cycles : Word)
  | runWhileBelow (limit : Word)
  | run

/-- Use of the stream test. -/
inductive StreamStep
  | buffer
  | configure (change : StreamTest.Config → StreamTest.Config)
  | runToHalt
  | run

/-- One step of a script. -/
inductive Step
  | onBus (step : BusStep)
  | onGate (step : GateStep)
  | newPin (name : String) (pin : PinId) (setUp : PinSetUp)
  | newButton (name : String)
  | newLeds
  | setLeds (level : Level)
  | onPin (name : String) (step : PinStep)
  | newSerial (config : SerialConfig)
  | newConsole (config : SerialConfig)
  | onSerial (step : SerialStep)
  | sendBuffer (channel : Channel) (bytes : Array Byte) (config : ChannelConfig)
  | newDma
  | onDma (channel : Channel) (step : DmaStep)
  | newDelay (delay : Delay)
  | onDelay (step : DelayStep)
  | newStatus (config : StatusReport.Config)
  | onStatus (step : StatusStep)
  | newStream (fill : Byte) (config : StreamTest.Config)
  | onStream (step : StreamStep)

end Peripherals.Bench
