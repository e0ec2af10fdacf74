import Peripherals.Bench.Handles
import Peripherals.Bench.Step
import Peripherals.Chip.State

/-! # Performing steps

Each step of a script as a computation on the target and the handles. Nothing is
undone when a step fails: what it did to the target stays, and so do changes of
a handle. Only a handle that the step would have set up is not kept. -/

namespace Peripherals.Bench

/-- What a step answers. -/
inductive Answer
  | nothing
  | number (n : Nat)
  | flag (value : Bool)
  | bytes (bytes : List Byte)
  | optional (value : Option Word)
  | serialConfig (config : SerialConfig)
  | events (events : List Event)

/-- A computation on a target and the handles of a script. -/
abbrev BenchM (δ : Type) := EStateM Failure (Held δ Handles)

variable {δ η α : Type}

/-- Run an operation of the bus. -/
def viaBus (action : BusM δ α) : BenchM δ α := fun ⟨session, handles⟩ =>
  match action.run session with
  | .ok value session => .ok value ⟨session, handles⟩
  | .error fault session => .error (.fault fault) ⟨session, handles⟩

/-- Run an operation of the bus that answers nothing. -/
def quietly (action : BusM δ Unit) : BenchM δ Answer := do
  viaBus action
  pure .nothing

/-- The handle in a slot. -/
def require (slot : Slot) (get : Handles → Option η) : BenchM δ η := fun held =>
  match get held.handle with
  | some handle => .ok handle held
  | none => .error (.missing slot) held

/-- Change the handles. -/
def keep (change : Handles → Handles) : BenchM δ Unit := fun ⟨session, handles⟩ =>
  .ok () ⟨session, change handles⟩

/-- Run an operation on the handle in a slot, and keep the handle as the operation left it. -/
def viaHandle (slot : Slot) (get : Handles → Option η) (set : η → Handles → Handles)
    (action : HeldM δ η α) : BenchM δ α := fun ⟨session, handles⟩ =>
  match get handles with
  | none => .error (.missing slot) ⟨session, handles⟩
  | some handle =>
    match action.run ⟨session, handle⟩ with
    | .ok value ⟨session, handle⟩ => .ok value ⟨session, set handle handles⟩
    | .error fault ⟨session, handle⟩ => .error (.fault fault) ⟨session, set handle handles⟩

variable [Target δ]

/-- Perform an access that uses no driver. -/
def BusStep.perform : BusStep → BenchM δ Answer
  | .read address => do
    let value ← viaBus (Bus.read address)
    pure (.number value.toNat)
  | .write address value => quietly (Bus.write address value)
  | .xor address value => quietly (Bus.update address (· ^^^ value))
  | .setBits address mask => quietly (Bus.setBits address mask)
  | .clearBits address mask => quietly (Bus.clearBits address mask)
  | .anySet address mask => do
    let set ← viaBus (Bus.anySet address mask)
    pure (.flag set)
  | .writeField address shift width value => quietly (Bus.writeField address shift width value)
  | .readField address shift width => do
    let value ← viaBus (Bus.readField address shift width)
    pure (.number value.toNat)
  | .share bytes => do
    let buffer ← viaBus (Bus.place bytes)
    let address ← viaBus (Bus.share buffer)
    pure (.number address.toNat)
  | .nop => quietly Bus.nop
  | .breakpoint => quietly Bus.breakpoint
  | .spin cycles => quietly (Delay.spin cycles)

/-- Operate a clock gate. -/
def GateStep.perform : GateStep → BenchM δ Answer
  | .enablePort port => quietly (Gate.enablePort port)
  | .enableSerial => quietly Gate.enableSerial
  | .enableDma => quietly Gate.enableDma
  | .selectKernelClock clock => quietly (Gate.selectKernelClock clock)

/-- Set a pin up. -/
def PinSetUp.perform (pin : PinId) : PinSetUp → BusM δ Unit
  | .inMode mode => do
    pin.claim
    pin.setMode mode
  | .unconfigured => pin.claim
  | .output => do
    pin.claim
    pin.configureOutput
  | .inputPullUp => do
    pin.claim
    pin.configureInputPullUp

/-- Use a pin. -/
def PinStep.perform (name : String) (pin : PinId) : PinStep → BenchM δ Answer
  | .configureOutput => quietly pin.configureOutput
  | .configureInputPullUp => quietly pin.configureInputPullUp
  | .setMode mode => quietly (pin.setMode mode)
  | .setOutputType type => quietly (pin.setOutputType type)
  | .setOutputSpeed speed => quietly (pin.setOutputSpeed speed)
  | .setPull pull => quietly (pin.setPull pull)
  | .setAlternate function => quietly (pin.setAlternate function)
  | .setLevel level => quietly (pin.setLevel level)
  | .toggle => quietly pin.toggle
  | .inputLevel => do
    let level ← viaBus pin.inputLevel
    pure (.number level.bit.toNat)
  | .outputLevel => do
    let level ← viaBus pin.outputLevel
    pure (.number level.bit.toNat)
  | .inputIs expected => do
    let level ← viaBus pin.inputLevel
    pure (.flag (level = expected))
  | .outputIs expected => do
    let level ← viaBus pin.outputLevel
    pure (.flag (level = expected))
  | .retarget port number => do
    keep (·.setPin name ⟨port.getD pin.port, number.getD pin.number⟩)
    pure .nothing

/-- Use the serial line. -/
def SerialStep.perform (serial : Serial) : SerialStep → BenchM δ Answer
  | .sendByte byte => quietly (Serial.sendByte byte)
  | .send bytes => quietly (Serial.send bytes)
  | .sendCounted bytes => do
    let count ← viaBus (Serial.sendCounted bytes)
    pure (.number count)
  | .sendText text => quietly (Serial.sendText text)
  | .sendDecimal n => quietly (Serial.sendDecimal n)
  | .sendLine n x =>
    quietly <| Serial.send <|
      Text.bytes "n=" ++ Text.decimal n ++ Text.bytes " x=" ++ Text.hexadecimal x ++
        Text.bytes "\r\n"
  | .receive => do
    let byte ← viaBus Serial.receive
    pure (.number byte.toNat)
  | .flush => quietly Serial.flush
  | .enableDma => do
    viaHandle .serial Handles.serial (fun serial handles => { handles with serial })
      Serial.enableDma
    pure .nothing
  | .target => pure (.number Serial.target.toNat)
  | .config => pure (.serialConfig serial.config)

/-- Use a DMA channel. -/
def DmaStep.perform (c : Channel) : DmaStep → BenchM δ Answer
  | .configure target source length => quietly (Dma.configure c target source length)
  | .start config => quietly (Dma.start c config)
  | .stop => quietly (Dma.stop c)
  | .raised flag => do
    let set ← viaBus (Dma.raised c flag)
    pure (.flag set)
  | .wait => quietly (Dma.wait c)
  | .clearFlag flag => quietly (Dma.clearFlag c flag)
  | .clearFlags => quietly (Dma.clearFlags c)
  | .remaining => do
    let count ← viaBus (Dma.remaining c)
    pure (.number count.toNat)

/-- Let time pass. -/
def DelayStep.perform (delay : Delay) : DelayStep → BenchM δ Answer
  | .micros n => quietly (delay.micros Delay.spin n)
  | .millis n => quietly (delay.millis Delay.spin n)
  | .nanos n => quietly (delay.nanos Delay.spin n)

/-- Run an operation on the status report. -/
def viaStatus (action : HeldM δ StatusReport α) : BenchM δ α :=
  viaHandle .status Handles.status (fun status handles => { handles with status }) action

/-- How many reports were made. -/
def reportCount : BenchM δ Answer := do
  let status ← require .status Handles.status
  pure (.number status.count.toNat)

/-- Use the status report. A run without end uses it up. -/
def StatusStep.perform : StatusStep → BenchM δ Answer
  | .reportOnce => do
    viaStatus StatusReport.step
    reportCount
  | .count => reportCount
  | .setPause cycles => do
    viaStatus (Held.change fun report => { report with config.pause := cycles })
    pure .nothing
  | .runWhileBelow limit => do
    viaStatus (StatusReport.runWhile fun report => report.count < limit)
    reportCount
  | .run => do
    viaHandle .status Handles.status (fun _ handles => { handles with status := none })
      StatusReport.run
    pure .nothing

/-- Run an operation on the stream test. -/
def viaStream (action : HeldM δ StreamTest α) : BenchM δ α :=
  viaHandle .stream Handles.stream (fun stream handles => { handles with stream }) action

/-- Use the stream test. A run without end uses it up. -/
def StreamStep.perform : StreamStep → BenchM δ Answer
  | .buffer => do
    let stream ← require .stream Handles.stream
    pure (.bytes stream.buffer.bytes.toList)
  | .configure change => do
    viaStream (Held.change fun test => { test with config := change test.config })
    pure .nothing
  | .runToHalt => do
    viaStream StreamTest.runToHalt
    pure .nothing
  | .run => do
    viaHandle .stream Handles.stream (fun _ handles => { handles with stream := none })
      StreamTest.run
    pure .nothing

/-- Fail if the DMA controller was never set up. -/
def requireDma : BenchM δ Unit :=
  require .dma fun handles => if handles.dma then some () else none

/-- Perform one step of a script. -/
def Step.perform : Step → BenchM δ Answer
  | .onBus step => step.perform
  | .onGate step => step.perform
  | .newPin name pin setUp => do
    viaBus (setUp.perform pin)
    keep (·.addPin name pin)
    pure .nothing
  | .newButton name => do
    let pin ← viaBus Board.setUpButton
    keep (·.addPin name pin)
    pure .nothing
  | .newLeds => do
    let leds ← viaBus Board.setUpLeds
    keep ({ · with leds := some leds })
    pure .nothing
  | .setLeds level => do
    let leds ← require .leds Handles.leds
    quietly (leds.setAll level)
  | .onPin name step => do
    let pin ← require .pin (·.pin? name)
    step.perform name pin
  | .newSerial config => do
    let serial ← viaBus (Serial.setUp config)
    keep ({ · with serial := some serial })
    pure .nothing
  | .newConsole config => do
    let serial ← viaBus (Board.setUpConsole config)
    keep ({ · with serial := some serial })
    pure .nothing
  | .onSerial step => do
    let serial ← require .serial Handles.serial
    step.perform serial
  | .sendBuffer channel bytes config => do
    let _ ← require .serial Handles.serial
    requireDma
    let buffer ← viaBus (Bus.place bytes)
    viaHandle .serial Handles.serial (fun serial handles => { handles with serial })
      (Serial.sendBuffer buffer channel config)
    pure .nothing
  | .newDma => do
    viaBus Gate.enableDma
    keep ({ · with dma := true })
    pure .nothing
  | .onDma channel step => do
    requireDma
    step.perform channel
  | .newDelay delay => do
    keep ({ · with delay := some delay })
    pure .nothing
  | .onDelay step => do
    let delay ← require .delay Handles.delay
    step.perform delay
  | .newStatus config => do
    let status ← viaBus (StatusReport.setUp config)
    keep ({ · with status := some status })
    pure .nothing
  | .onStatus step => step.perform
  | .newStream fill config => do
    let buffer ← viaBus (Bus.place (Array.replicate StreamTest.size fill))
    let stream ← viaBus (StreamTest.setUp buffer config)
    keep ({ · with stream := some stream })
    pure .nothing
  | .onStream step => step.perform

end Peripherals.Bench
