import Peripherals.Application.StatusReport
import Peripherals.Application.StreamTest
import Peripherals.Proofs.RestingCalls

/-! # Bringing up the board

What bringing up does to the registers is a list of amendments, each a function
of a register's old value. A list is admitted if every register that it amends
is plain storage of a block that is clocked by then, which the list itself may
have brought about. Where no channel is active, a driver call that configures
something carries out its list and nothing else. -/

namespace Peripherals

open Bus Chip

/-- A change of one register, as a function of its old value. -/
structure Amendment where
  address : Word
  change : Word → Word

namespace Amendment

/-- The values of all registers after a change. -/
def on (values : Word → Word) (amendment : Amendment) (address : Word) : Word :=
  if amendment.address = address then amendment.change (values amendment.address)
  else values address

/-- Whether a block is clocked, as the values of the clock gates say. -/
def clocked (values : Word → Word) : Block → Bool
  | .gpio port _ => values Rcc.ahb2enr &&& Rcc.portEnable port != 0
  | .usart3 _ => values Rcc.apb1lenr &&& Rcc.usart3Enable != 0
  | .dma1 _ => values Rcc.ahb1enr &&& Rcc.dma1Enable != 0
  | .other => true

/-- Whether a register reads as it was stored, and a store does nothing else. -/
def storage : Block → Bool
  | .gpio _ offset =>
    offset != Gpio.idr && offset != Gpio.odr && offset != Gpio.bsrr && offset != Gpio.brr
  | .usart3 offset =>
    offset != Usart3.isr && offset != Usart3.icr && offset != Usart3.rdr && offset != Usart3.tdr
  | .dma1 _ => false
  | .other => true

/-- Whether each register of a list is plain storage of a clocked block when its turn comes. -/
def admitted (values : Word → Word) : List Amendment → Bool
  | [] => true
  | amendment :: rest =>
    storage (Block.decode amendment.address) && clocked values (Block.decode amendment.address) &&
      admitted (amendment.on values) rest

theorem admitted_append (values : Word → Word) (first second : List Amendment) :
    admitted values (first ++ second) =
      (admitted values first && admitted (first.foldl on values) second) := by
  induction first generalizing values with
  | nil => rfl
  | cons amendment rest ih =>
    simp only [List.cons_append, admitted, List.foldl_cons, ih, Bool.and_assoc]

/-- No register of DMA1 is plain storage, so that a list which is admitted leaves them alone. -/
theorem foldl_on_dma {values : Word → Word} {amendments : List Amendment} {address offset : Word}
    (admits : admitted values amendments = true)
    (decoded : Block.decode address = .dma1 offset) :
    amendments.foldl on values address = values address := by
  induction amendments generalizing values with
  | nil => rfl
  | cons amendment rest ih =>
    simp only [admitted, Bool.and_eq_true] at admits
    rw [List.foldl_cons, ih admits.2, on, if_neg]
    rintro rfl
    rw [decoded] at admits
    cases admits.1.1

end Amendment

namespace Chip

variable {chip : Chip} {address : Word}

/-- The chip with one register changed. -/
def amend (chip : Chip) (amendment : Amendment) : Chip :=
  chip.poke amendment.address (amendment.change (chip.peek amendment.address))

/-- The chip after a list of changes, in order. -/
def amended (chip : Chip) (amendments : List Amendment) : Chip :=
  amendments.foldl amend chip

theorem peek_amend (chip : Chip) (amendment : Amendment) :
    (chip.amend amendment).peek = amendment.on chip.peek := by
  funext address
  exact peek_poke _ _ _ _

theorem peek_amended (chip : Chip) (amendments : List Amendment) :
    (chip.amended amendments).peek = amendments.foldl Amendment.on chip.peek := by
  induction amendments generalizing chip with
  | nil => rfl
  | cons amendment rest ih =>
    rw [amended, List.foldl_cons, List.foldl_cons, ← peek_amend]
    exact ih (chip.amend amendment)

theorem amended_append (chip : Chip) (first second : List Amendment) :
    chip.amended (first ++ second) = (chip.amended first).amended second :=
  List.foldl_append

/-- After reset every register is zero. -/
theorem peek_fresh (latency : Nat) : (Chip.reset.setLatency latency).peek = fun _ => 0 := by
  funext address
  exact Registers.get_zero address

/-- After reset no channel is active. -/
theorem inactive_fresh (latency : Nat) (c : Channel) :
    ((Chip.reset.setLatency latency).latch c).active = false := by
  change ((Vector.replicate 7 (⟨false, 0, 0, 0⟩ : Latch))[c.val]).active = false
  rw [Vector.getElem_replicate]

/-- Amendments change registers only. -/
theorem amended_eq (chip : Chip) (amendments : List Amendment) :
    chip.amended amendments = { chip with registers := (chip.amended amendments).registers } := by
  induction amendments generalizing chip with
  | nil => rfl
  | cons amendment rest ih => exact ih (chip.amend amendment)

theorem clocked_eq (chip : Chip) (block : Block) :
    chip.clocked block = Amendment.clocked chip.peek block := by
  cases block <;> rfl

/-- A register that is plain storage shows its value. -/
theorem shows_storage (storage : Amendment.storage (Block.decode address) = true)
    (clocked : chip.clocked (Block.decode address) = true) :
    chip.Shows address (chip.peek address) := by
  intro busy written
  simp only [load, EStateM.run, clocked_timed, clocked, if_true]
  split
  · next port offset decoded =>
    rw [decoded] at storage
    simp only [Amendment.storage, Bool.and_eq_true, bne_iff_ne] at storage
    rw [if_neg storage.1.1.1, peek_timed]
  · next offset decoded =>
    rw [decoded] at storage
    simp only [Amendment.storage, Bool.and_eq_true, bne_iff_ne] at storage
    rw [if_neg storage.1.1.1, if_neg storage.1.2, peek_timed]
  · rw [peek_timed]

/-- A store into plain storage replaces its value. -/
theorem store_storage (storage : Amendment.storage (Block.decode address) = true)
    (clocked : chip.clocked (Block.decode address) = true) (value : Word) :
    chip.store address value = chip.poke address value := by
  simp only [store, clocked, if_true]
  split
  · next port offset decoded =>
    obtain ⟨place, -⟩ := Block.decode_eq_gpio_iff.mp decoded
    rw [decoded] at storage
    simp only [Amendment.storage, Bool.and_eq_true, bne_iff_ne] at storage
    rw [storeGpio, if_neg storage.1.2, if_neg storage.2, if_neg storage.1.1.2,
      if_neg storage.1.1.1, place]
  · next offset decoded =>
    obtain ⟨place, -⟩ := Block.decode_eq_usart3_iff.mp decoded
    rw [decoded] at storage
    simp only [Amendment.storage, Bool.and_eq_true, bne_iff_ne] at storage
    rw [storeUsart, if_neg storage.2, if_neg (by simp [storage]), place]
  · next offset decoded =>
    rw [decoded] at storage
    cases storage
  · rfl

/-- The data register is no plain storage. -/
theorem ne_data_of_storage (storage : Amendment.storage (Block.decode address) = true) :
    address ≠ Serial.target := by
  rintro rfl
  exact absurd storage (by decide)

end Chip

namespace Bus

variable {α β : Type}

/-- Where no channel is active, a computation carries out a list of amendments that the chip
admits, and gives a value. -/
def Amends (x : BusM Chip α) (value : α) (amendments : List Amendment) : Prop :=
  ∀ (base : Chip) (limit : Nat), (∀ c, (base.latch c).active = false) →
    Amendment.admitted base.peek amendments = true →
      Transforms limit base x value (base.amended amendments)

theorem Amends.pure (value : α) : Amends (Pure.pure value) value [] :=
  fun _ _ _ _ => Transforms.pure value

theorem Amends.bind {x : BusM Chip α} {f : α → BusM Chip β} {a : α} {b : β}
    {first second : List Amendment} (start : Amends x a first) (rest : Amends (f a) b second) :
    Amends (x >>= f) b (first ++ second) := by
  intro base limit inactive admitted
  rw [Amendment.admitted_append, Bool.and_eq_true, ← peek_amended] at admitted
  have inactive' : ∀ c, ((base.amended first).latch c).active = false := by
    intro c
    rw [amended_eq]
    exact inactive c
  rw [amended_append]
  exact Transforms.bind (start base limit inactive admitted.1)
    (rest (base.amended first) limit inactive' admitted.2)

theorem Amends.write (address value : Word) :
    Amends (write address value) () [⟨address, fun _ => value⟩] := by
  intro base limit _ admitted
  simp only [Amendment.admitted, Bool.and_true, Bool.and_eq_true, ← clocked_eq] at admitted
  have stored : base.store address value = base.amended [⟨address, fun _ => value⟩] :=
    store_storage admitted.1 admitted.2 value
  rw [← stored]
  exact Transforms.write (ne_data_of_storage admitted.1)

theorem Amends.update (address : Word) (f : Word → Word) :
    Amends (update address f) () [⟨address, f⟩] := by
  intro base limit inactive admitted
  simp only [Amendment.admitted, Bool.and_true, Bool.and_eq_true, ← clocked_eq] at admitted
  have stored : base.store address (f (base.peek address)) = base.amended [⟨address, f⟩] :=
    store_storage admitted.1 admitted.2 _
  apply Transforms.bind (Transforms.read (.of_inactive inactive)
    (shows_storage admitted.1 admitted.2))
  rw [← stored]
  exact Transforms.write (ne_data_of_storage admitted.1)

section Programs

variable {δ : Type} [Target δ]

/-- Change registers in order. -/
def amendAll (amendments : List Amendment) : BusM δ Unit :=
  forM amendments fun amendment => update amendment.address amendment.change

theorem amendAll_append (first second : List Amendment) :
    (amendAll (first ++ second) : BusM δ Unit) = amendAll first >>= fun _ => amendAll second :=
  List.forM_append

theorem amendAll_singleton (amendment : Amendment) :
    (amendAll [amendment] : BusM δ Unit) = update amendment.address amendment.change := by
  rw [amendAll, List.forM_cons, List.forM_nil]
  exact bind_pure _

end Programs

theorem Amends.amendAll (amendments : List Amendment) :
    Amends (Bus.amendAll amendments) () amendments := by
  induction amendments with
  | nil => exact Amends.pure ()
  | cons amendment rest ih => exact Amends.bind (Amends.update _ _) ih

end Bus

/-- A field of a register is given a value. -/
def Amendment.field (address : Word) (shift width : Byte) (value : Word) : Amendment where
  address := address
  change old := (old &&& ~~~(fieldMask width <<< shift.toNat)) |||
    ((value <<< shift.toNat) &&& (fieldMask width <<< shift.toNat))

theorem Bus.writeField_eq {δ : Type} [Target δ] (address : Word) {shift : Byte}
    (inside : shift.toNat < 32) (width : Byte) (value : Word) :
    (writeField address shift width value : BusM δ Unit) =
      amendAll [.field address shift width value] := by
  rw [amendAll_singleton, writeField, Checked.shiftLeft_eq_ok inside]
  rfl

theorem Bus.Amends.writeField (address : Word) {shift : Byte} (inside : shift.toNat < 32)
    (width : Byte) (value : Word) :
    Amends (Bus.writeField address shift width value) () [.field address shift width value] := by
  rw [writeField_eq address inside]
  exact Amends.amendAll _

/-! ## Pins -/

namespace PinId

variable {pin : PinId}

/-- A pin's field in a register with two bits for each pin is given a value. -/
def pair (pin : PinId) (offset value : Word) : Amendment :=
  .field (pin.port.base + offset) (pin.number * 2) 2 value

/-- A pin's alternate function is selected. -/
def alternate (pin : PinId) (function : Fin 16) : Amendment :=
  if pin.number < 8 then
    .field (pin.port.base + Gpio.afrl) (pin.number * 4) 4 (BitVec.ofNat 32 function)
  else
    .field (pin.port.base + Gpio.afrh) ((pin.number - 8) * 4) 4 (BitVec.ofNat 32 function)

/-- A pin's mode is set, after its alternate function if it gets one. -/
def mode (pin : PinId) (mode : PinMode) : List Amendment :=
  match mode with
  | .alternate function => [pin.alternate function, pin.pair Gpio.moder mode.code]
  | _ => [pin.pair Gpio.moder mode.code]

/-- A pin's output type is set. -/
def outputType (pin : PinId) (type : OutputType) : Amendment :=
  .field (pin.port.base + Gpio.otyper) pin.number 1 type.code

/-- A pin becomes a push-pull output. -/
def output (pin : PinId) : List Amendment :=
  pin.mode .output ++ ([pin.outputType .pushPull] ++
    ([pin.pair Gpio.ospeedr OutputSpeed.medium.code] ++ [pin.pair Gpio.pupdr Pull.floating.code]))

/-- A pin becomes an input that is pulled up. -/
def inputPullUp (pin : PinId) : List Amendment :=
  pin.mode .input ++ [pin.pair Gpio.pupdr Pull.up.code]

section Programs

variable {δ : Type} [Target δ] (valid : pin.number.toNat < 16)

include valid

theorem writePair_eq (offset value : Word) :
    (pin.writePair offset value : BusM δ Unit) = amendAll [pin.pair offset value] := by
  have fits : pin.number.umulOverflow 2 = false := by
    have two : (2 : Byte).toNat = 2 := rfl
    simp only [BitVec.umulOverflow, decide_eq_false_iff_not, two]
    omega
  rw [writePair, Checked.mul_eq_ok fits]
  exact writeField_eq _ (by bv_omega) 2 value

theorem setAlternate_eq (function : Fin 16) :
    (pin.setAlternate function : BusM δ Unit) = amendAll [pin.alternate function] := by
  have slot {low : Byte} (few : low.toNat < 8) (offset : Word) :
      (do
        let shift ← liftM (Checked.mul low 4)
        writeField (pin.port.base + offset) shift 4 (BitVec.ofNat 32 function) : BusM δ Unit) =
        amendAll [.field (pin.port.base + offset) (low * 4) 4 (BitVec.ofNat 32 function)] := by
    have fits : low.umulOverflow 4 = false := by
      have four : (4 : Byte).toNat = 4 := rfl
      simp only [BitVec.umulOverflow, decide_eq_false_iff_not, four]
      omega
    rw [Checked.mul_eq_ok fits]
    exact writeField_eq _ (by bv_omega) 4 _
  rw [setAlternate, alternate]
  split
  next offset low chosen =>
  split at chosen
  · next small =>
    obtain ⟨rfl, rfl⟩ := Prod.mk.inj chosen
    rw [if_pos small]
    exact slot (by bv_omega) _
  · next large =>
    obtain ⟨rfl, rfl⟩ := Prod.mk.inj chosen
    rw [if_neg large]
    exact slot (by bv_omega) _

theorem setMode_eq (mode : PinMode) :
    (pin.setMode mode : BusM δ Unit) = amendAll (pin.mode mode) := by
  cases mode with
  | alternate function =>
    rw [setMode, setAlternate_eq valid, writePair_eq valid, ← amendAll_append]
    rfl
  | input | output | analog => exact writePair_eq valid _ _

theorem setOutputType_eq (type : OutputType) :
    (pin.setOutputType type : BusM δ Unit) = amendAll [pin.outputType type] :=
  writeField_eq _ (by omega) 1 _

theorem configureOutput_eq : (pin.configureOutput : BusM δ Unit) = amendAll pin.output := by
  rw [configureOutput, setMode_eq valid, setOutputType_eq valid, setOutputSpeed, setPull,
    writePair_eq valid, writePair_eq valid, ← amendAll_append, ← amendAll_append,
    ← amendAll_append]
  rfl

theorem configureInputPullUp_eq :
    (pin.configureInputPullUp : BusM δ Unit) = amendAll pin.inputPullUp := by
  rw [configureInputPullUp, setMode_eq valid, setPull, writePair_eq valid, ← amendAll_append]
  rfl

end Programs

variable (valid : pin.number.toNat < 16)

include valid

theorem configureOutput_amends : Amends pin.configureOutput () pin.output := by
  rw [configureOutput_eq valid]
  exact Amends.amendAll _

theorem configureInputPullUp_amends : Amends pin.configureInputPullUp () pin.inputPullUp := by
  rw [configureInputPullUp_eq valid]
  exact Amends.amendAll _

end PinId

/-! ## Blocks -/

/-- A clock is enabled. -/
def Amendment.gate (address mask : Word) : Amendment :=
  ⟨address, (· ||| mask)⟩

/-- The line is set up. -/
def SerialConfig.amendments (config : SerialConfig) : List Amendment :=
  [⟨Usart3.base + Usart3.cr1, fun _ => 0⟩] ++ ([⟨Usart3.base + Usart3.cr2, fun _ => 0⟩] ++
    ([⟨Usart3.base + Usart3.cr3, fun _ => 0⟩] ++
    ([⟨Usart3.base + Usart3.brr, fun _ => config.divisor⟩] ++
    ((if config.dmaTransmit then [⟨Usart3.base + Usart3.cr3, fun _ => Usart3.dmaTransmit⟩]
      else []) ++
    ([⟨Usart3.base + Usart3.cr1, fun _ => Usart3.transmitterEnable ||| Usart3.enable |||
      (if config.receiver then Usart3.receiverEnable else 0)⟩] ++ [])))))

/-- Setting up the line fails only for a divisor of zero. -/
theorem Serial.setUp_amends {config : SerialConfig} (divisor : config.divisor ≠ 0) :
    Amends (Serial.setUp config) ⟨config⟩ config.amendments := by
  have last : Amends (do
      Bus.write (Usart3.base + Usart3.cr1) (Usart3.transmitterEnable ||| Usart3.enable |||
        (if config.receiver then Usart3.receiverEnable else 0))
      let _ ← liftM (BaudRate.ofDivisor BaudRate.kernelClock config.divisor)
      pure ⟨config⟩) (⟨config⟩ : Serial)
      ([⟨Usart3.base + Usart3.cr1, fun _ => Usart3.transmitterEnable ||| Usart3.enable |||
        (if config.receiver then Usart3.receiverEnable else 0)⟩] ++ []) := by
    rw [BaudRate.ofDivisor, Checked.div_eq_ok divisor]
    exact Amends.bind (Amends.write _ _) (Amends.pure _)
  refine Amends.bind (Amends.write _ _) <| Amends.bind (Amends.write _ _) <|
    Amends.bind (Amends.write _ _) <| Amends.bind (Amends.write _ _) ?_
  cases config.dmaTransmit with
  | true => exact Amends.bind (Amends.write _ _) last
  | false => exact last

namespace Board

/-- A pin is connected to USART3. -/
def consolePin (pin : PinId) (pull : Pull) : List Amendment :=
  [pin.outputType .pushPull] ++ ([pin.pair Gpio.ospeedr OutputSpeed.veryHigh.code] ++
    ([pin.pair Gpio.pupdr pull.code] ++ pin.mode (.alternate consoleFunction)))

/-- The console is brought up. -/
def console (config : SerialConfig) : List Amendment :=
  [.gate Rcc.ahb2enr (Rcc.portEnable .d)] ++ ([.gate Rcc.apb1lenr Rcc.usart3Enable] ++
    ([.field Rcc.ccipr1 Rcc.usart3SelectShift Rcc.usart3SelectWidth
      KernelClock.peripheralBus.code] ++
    (consolePin consoleTransmit .floating ++ (consolePin consoleReceive .up ++
      config.amendments))))

/-- The LEDs become outputs. -/
def leds : List Amendment :=
  [.gate Rcc.ahb2enr (Rcc.portEnable greenLed.port)] ++
    ([.gate Rcc.ahb2enr (Rcc.portEnable yellowLed.port)] ++
    ([.gate Rcc.ahb2enr (Rcc.portEnable redLed.port)] ++
    (greenLed.output ++ (yellowLed.output ++ (redLed.output ++ [])))))

/-- The button becomes an input. -/
def button : List Amendment :=
  [.gate Rcc.ahb2enr (Rcc.portEnable userButton.port)] ++ (userButton.inputPullUp ++ [])

theorem setUpLeds_amends : Amends setUpLeds ⟨greenLed, yellowLed, redLed⟩ leds :=
  Amends.bind (Amends.update _ _) <| Amends.bind (Amends.update _ _) <|
    Amends.bind (Amends.update _ _) <|
    Amends.bind (PinId.configureOutput_amends (by decide)) <|
    Amends.bind (PinId.configureOutput_amends (by decide)) <|
    Amends.bind (PinId.configureOutput_amends (by decide)) (Amends.pure _)

theorem setUpButton_amends : Amends setUpButton userButton button :=
  Amends.bind (Amends.update _ _) <|
    Amends.bind (PinId.configureInputPullUp_amends (by decide)) (Amends.pure _)

/-- Connecting a pin to USART3 changes registers in order. -/
theorem connectConsolePin_eq {δ : Type} [Target δ] {pin : PinId} (valid : pin.number.toNat < 16)
    (pull : Pull) :
    (connectConsolePin pin pull : BusM δ Unit) = amendAll (consolePin pin pull) := by
  rw [connectConsolePin, PinId.setOutputType_eq valid, PinId.setOutputSpeed,
    PinId.writePair_eq valid, PinId.setPull, PinId.writePair_eq valid, PinId.setMode_eq valid,
    ← amendAll_append, ← amendAll_append, ← amendAll_append]
  rfl

theorem connectConsolePin_amends {pin : PinId} (valid : pin.number.toNat < 16) (pull : Pull) :
    Amends (connectConsolePin pin pull) () (consolePin pin pull) := by
  rw [connectConsolePin_eq valid]
  exact Amends.amendAll _

theorem setUpConsole_amends {config : SerialConfig} (divisor : config.divisor ≠ 0) :
    Amends (setUpConsole config) ⟨config⟩ (console config) :=
  Amends.bind (Amends.update _ _) <| Amends.bind (Amends.update _ _) <|
    Amends.bind (Amends.writeField _ (by decide) _ _) <|
    Amends.bind (connectConsolePin_amends (by decide) _) <|
    Amends.bind (connectConsolePin_amends (by decide) _) (Serial.setUp_amends divisor)

end Board

/-! ## Applications -/

/-- The stream test brings up its LED, the console and DMA1. -/
def StreamTest.Config.amendments (config : StreamTest.Config) : List Amendment :=
  [.gate Rcc.ahb2enr (Rcc.portEnable .b)] ++ (Board.greenLed.output ++
    (Board.console config.serial ++ ([.gate Rcc.ahb1enr Rcc.dma1Enable] ++ [])))

theorem StreamTest.setUp_amends {config : StreamTest.Config} (divisor : config.serial.divisor ≠ 0)
    (buffer : Buffer) :
    Amends (StreamTest.setUp buffer config) ⟨Board.greenLed, ⟨config.serial⟩, buffer, config⟩
      config.amendments :=
  Amends.bind (Amends.update _ _) <|
    Amends.bind (PinId.configureOutput_amends (by decide)) <|
    Amends.bind (Board.setUpConsole_amends divisor) <|
    Amends.bind (Amends.update _ _) (Amends.pure _)

/-- The status report brings up the LEDs, the button and the console. -/
def StatusReport.Config.amendments (config : StatusReport.Config) : List Amendment :=
  Board.leds ++ (Board.button ++ (Board.console config.serial ++ []))

end Peripherals
