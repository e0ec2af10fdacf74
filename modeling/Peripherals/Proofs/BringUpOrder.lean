import Peripherals.Proofs.BoardSetUp
import Peripherals.Proofs.WriteRules

/-! # The order of bringing up

It matters not only where a set-up call ends, but also what the registers hold
whenever it writes: a pin must not drive an alternate function that it has yet to
select, and the divisor may change only while the line is off. Both are rules for
writes, which the amendments of the calls follow from whatever the registers held
before. -/

namespace Peripherals

open Bus Chip

/-! ## Turning a pin over -/

namespace PinId

variable {pin other : PinId} {function chosen : Fin 16} {values : Word → Word}
  {amendment : Amendment}

/-- The mode field of a pin that has an alternate function. -/
def muxed (pin : PinId) : Setting :=
  pin.pairSetting Gpio.moder 2

/-- The function field of a pin, in the register for its half of the port. -/
def selection (pin : PinId) (function : Fin 16) : Setting :=
  if pin.number < 8 then
    ⟨pin.port.base + Gpio.afrl, 4 * pin.number.toNat, 4, BitVec.ofNat 32 function⟩
  else
    pin.functionSetting (BitVec.ofNat 32 function)

/-- A write that turns a pin over to its alternate function finds a function selected. -/
def Muxes (pin : PinId) (function : Fin 16) : WriteRule := fun _ _ before after =>
  ¬pin.muxed.Holds before → pin.muxed.Holds after → (pin.selection function).Holds before

/-- A pin is at its alternate function, and this is one function. -/
def Serves (pin : PinId) (function : Fin 16) (values : Word → Word) : Prop :=
  pin.muxed.Holds values ∧ (pin.selection function).Holds values

theorem Muxes.of_leaves (leaves : pin.muxed.Holds (amendment.on values) → pin.muxed.Holds values) :
    amendment.Obeys (pin.Muxes function) values :=
  fun off on => absurd (leaves on) off

/-- Only a write of the mode register turns a pin over. -/
theorem Muxes.elsewhere (ne : amendment.address ≠ pin.port.base + Gpio.moder) :
    amendment.Obeys (pin.Muxes function) values := by
  apply of_leaves
  intro holds
  have same : amendment.on values pin.muxed.address = values pin.muxed.address := if_neg ne
  rwa [Setting.Holds, same] at holds

theorem selection_inside (valid : pin.number.toNat < 16) (function : Fin 16) :
    (pin.selection function).low + (pin.selection function).width ≤ 32 := by
  rw [selection]
  split
  · change 4 * pin.number.toNat + 4 ≤ 32
    bv_omega
  · change 4 * (pin.number.toNat - 8) + 4 ≤ 32
    omega

theorem alternate_selects (valid : pin.number.toNat < 16) (function : Fin 16) :
    (pin.alternate function).Sets (pin.selection function) := by
  rw [selection]
  split
  · next low =>
    have shift : (pin.number * 4).toNat = 4 * pin.number.toNat := by bv_omega
    have sets := Amendment.field_sets (pin.port.base + Gpio.afrl) (BitVec.ofNat 32 function)
      (pin.number * 4) 4
    rw [alternate, if_pos low]
    rwa [shift] at sets
  · next high => exact alternate_sets valid high function

theorem alternate_elsewhere (pin : PinId) (function : Fin 16) :
    (pin.alternate function).address ≠ pin.port.base + Gpio.moder := by
  rw [alternate]
  split <;> exact pin.port.register_ne (by decide)

/-- A pin is turned over after its function is selected, and no other pin of its port is. -/
theorem along_mode (valid : other.number.toNat < 16) (port : other.port = pin.port)
    (own : other = pin → chosen = function) (values : Word → Word) :
    Amendment.Along (pin.Muxes function) values (other.mode (.alternate chosen)) := by
  have first : (other.alternate chosen).address ≠ pin.port.base + Gpio.moder :=
    port ▸ other.alternate_elsewhere chosen
  refine ⟨Muxes.elsewhere first, ?_, trivial⟩
  by_cases same : other = pin
  · subst same
    obtain rfl := own rfl
    intro _ _
    have selected := (alternate_selects valid chosen).settles (selection_inside valid chosen) values
    exact selected.holds _ (List.mem_singleton_self _)
  · have numbers : other.number.toNat ≠ pin.number.toNat := by
      intro number
      obtain ⟨home, place⟩ := pin
      obtain ⟨home', place'⟩ := other
      exact same (congrArg₂ PinId.mk port (BitVec.eq_of_toNat_eq number))
    have apart : other.muxed.Apart pin.muxed := by
      refine .inr ?_
      change 2 * other.number.toNat + 2 ≤ 2 * pin.number.toNat ∨
        2 * pin.number.toNat + 2 ≤ 2 * other.number.toNat
      omega
    apply Muxes.of_leaves
    intro holds
    refine holds.of_same fun bit covers => Eq.symm ?_
    have settled := (pair_sets valid Gpio.moder 2).settles (show 2 * _ + 2 ≤ 32 by omega)
      ((other.alternate chosen).on values)
    exact settled.spares _ _ (List.forall_mem_singleton.mpr (apart.symm.not_covers covers))

/-- On a clocked port, selecting the function and turning the pin over take two ticks. -/
theorem mode_runs (valid : pin.number.toNat < 16) (function : Fin 16) (start : Chip)
    (clock : Amendment.clocked start.peek (.gpio pin.port 0) = true) :
    Runs 2 (fun session => Recorded.Traced (pin.Muxes function) start start.peek session.device)
      (amendAll (pin.mode (.alternate function)))
      (fun _ session => Recorded.Traced (pin.Muxes function) start
        ((pin.mode (.alternate function)).foldl Amendment.on start.peek) session.device)
      fun session => session.device.Follows (pin.Muxes function) start := by
  have admitted := Amendment.admitted_of_port clock fun amendment member =>
    (configures_mode valid (.alternate function) amendment member).place
  exact Carries.amendAll _ _ start _ admitted (along_mode valid rfl (fun _ => rfl) _)

/-- Whatever the registers hold and whether or not the port is clocked, a pin is turned over to
an alternate function only while this function is selected. -/
theorem setMode_follows {start : Chip} (inactive : ∀ c, (start.latch c).active = false)
    (valid : pin.number.toNat < 16) (function : Fin 16) (ticks : Nat) :
    (Recorded.of (pin.setMode (.alternate function)) start ticks).Follows (pin.Muxes function)
      start := by
  rw [setMode_eq valid]
  cases clock : Amendment.clocked start.peek (.gpio pin.port 0) with
  | true =>
    have runs := mode_runs valid function start clock
    exact (runs.ends.weaken (fun _ _ traced => traced.follows) fun _ left => left).follows
      inactive ticks
  | false =>
    have gated : ∀ amendment ∈ pin.mode (.alternate function),
        Amendment.clocked start.peek (Block.decode amendment.address) = false := by
      intro amendment member
      obtain ⟨offset, place, inside, -⟩ :=
        (configures_mode valid (.alternate function) amendment member).place
      rw [Block.decode_eq_gpio_iff.mpr ⟨place, inside⟩]
      exact clock
    have runs : Runs _ (fun session => Recorded.Traced (pin.Muxes function) start start.peek
        session.device) _ _ _ := Runs.amendAll_gated gated fun _ _ off on => absurd on off
    exact (runs.ends.weaken (fun _ _ traced => traced.follows) fun _ left => left).follows
      inactive ticks

/-- In the end, the pin is at the function. -/
theorem mode_serves (valid : pin.number.toNat < 16) (function : Fin 16) (values : Word → Word) :
    pin.Serves function ((pin.mode (.alternate function)).foldl Amendment.on values) := by
  have selected := (alternate_selects valid function).settles (selection_inside valid function)
    values
  have muxed := (pair_sets valid Gpio.moder 2).settles (show 2 * _ + 2 ≤ 32 by omega)
    ((pin.alternate function).on values)
  have apart : pin.muxed.address ≠ (pin.selection function).address := by
    rw [← (alternate_selects valid function).place]
    exact (pin.alternate_elsewhere function).symm
  refine ⟨muxed.holds _ (List.mem_singleton_self _), ?_⟩
  refine (selected.holds _ (List.mem_singleton_self _)).of_same fun bit _ => ?_
  apply muxed.spares
  exact List.forall_mem_singleton.mpr fun covers => apart covers.1

/-- With its two ticks, the call returns and has turned the pin over, if the port is clocked. -/
theorem run_setMode {start : Chip} (inactive : ∀ c, (start.latch c).active = false)
    (valid : pin.number.toNat < 16) (function : Fin 16)
    (clocked : start.clocked (.gpio pin.port 0) = true) {ticks : Nat} (enough : 2 ≤ ticks) :
    ∃ after : Session Recorded,
      (pin.setMode (.alternate function)).run ⟨⟨start, []⟩, ticks, #[]⟩ = .ok () after ∧
        pin.Serves function after.device.chip.peek := by
  have runs := mode_runs valid function start ((clocked_eq start _).symm.trans clocked)
  have traced : Recorded.Traced (pin.Muxes function) start start.peek
      (⟨⟨start, []⟩, ticks, #[]⟩ : Session Recorded).device := .nothing inactive
  obtain ⟨_, after, returned, reached⟩ := runs.returns traced enough
  rw [setMode_eq valid]
  refine ⟨after, returned, ?_⟩
  rw [reached.holds]
  exact mode_serves valid function start.peek

end PinId

/-! ## The console -/

/-- The value that turns the line on. -/
def SerialConfig.control (config : SerialConfig) : Word :=
  Usart3.transmitterEnable ||| Usart3.enable |||
    (if config.receiver then Usart3.receiverEnable else 0)

/-- What the third control register is to hold. -/
def SerialConfig.requests (config : SerialConfig) : Word :=
  if config.dmaTransmit then Usart3.dmaTransmit else 0

theorem SerialConfig.control_enables (config : SerialConfig) :
    config.control &&& Usart3.enable ≠ 0 := by
  rw [control]
  cases config.receiver <;> decide

/-- What setting up the line amends before it turns the line on. -/
def SerialConfig.preparation (config : SerialConfig) : List Amendment :=
  [⟨Usart3.base + Usart3.cr1, fun _ => 0⟩] ++ ([⟨Usart3.base + Usart3.cr2, fun _ => 0⟩] ++
    ([⟨Usart3.base + Usart3.cr3, fun _ => 0⟩] ++
    ([⟨Usart3.base + Usart3.brr, fun _ => config.divisor⟩] ++
    (if config.dmaTransmit then [⟨Usart3.base + Usart3.cr3, fun _ => Usart3.dmaTransmit⟩]
      else []))))

/-- Turning the line on. -/
def SerialConfig.switch (config : SerialConfig) : Amendment :=
  ⟨Usart3.base + Usart3.cr1, fun _ => config.control⟩

theorem SerialConfig.amendments_eq (config : SerialConfig) :
    config.amendments = config.preparation ++ [config.switch] := by
  simp only [amendments, preparation, List.append_assoc]
  rfl

namespace Serial

variable {δ : Type}

/-- The handle, once the rate that the divisor gives is known. -/
def finish (config : SerialConfig) : BusM δ Serial := do
  let _ ← BaudRate.ofDivisor BaudRate.kernelClock config.divisor
  pure ⟨config⟩

theorem run_finish (config : SerialConfig) (session : Session δ) :
    (finish config).run session =
      if config.divisor = 0 then .error .divisionByZero session else .ok ⟨config⟩ session := by
  rw [finish, BaudRate.ofDivisor, Checked.div]
  split <;> rfl

variable [Target δ]

/-- What setting up the line writes before it turns the line on. -/
def prepare (config : SerialConfig) : BusM δ Unit := do
  Bus.write (Usart3.base + Usart3.cr1) 0
  Bus.write (Usart3.base + Usart3.cr2) 0
  Bus.write (Usart3.base + Usart3.cr3) 0
  Bus.write (Usart3.base + Usart3.brr) config.divisor
  if config.dmaTransmit then
    Bus.write (Usart3.base + Usart3.cr3) Usart3.dmaTransmit

theorem setUp_eq (config : SerialConfig) :
    (setUp config : BusM δ Serial) = prepare config >>= fun _ =>
      Bus.write (Usart3.base + Usart3.cr1) config.control >>= fun _ => finish config := by
  simp only [setUp, prepare, bind_assoc]
  cases config.dmaTransmit <;> rfl

theorem prepare_carries (config : SerialConfig) :
    Carries 0 (prepare config) config.preparation := by
  rw [prepare, SerialConfig.preparation]
  change Carries (0 + (0 + (0 + (0 + 0)))) _ _
  refine Carries.bind (Carries.write _ _) <| Carries.bind (Carries.write _ _) <|
    Carries.bind (Carries.write _ _) <| Carries.bind (Carries.write _ _) ?_
  cases config.dmaTransmit with
  | true => exact Carries.write _ _
  | false => exact Carries.pure

end Serial

namespace Board

variable {config : SerialConfig} {values : Word → Word}

/-- The pins of the console. -/
def consolePins : List PinId := [consoleTransmit, consoleReceive]

/-- The line is clocked, and its control registers are clear. -/
def LineOff (values : Word → Word) : Prop :=
  values (Usart3.base + Usart3.cr1) = 0 ∧ values (Usart3.base + Usart3.cr2) = 0 ∧
    values (Usart3.base + Usart3.cr3) = 0 ∧ Amendment.clocked values (.usart3 0) = true

/-- The pins serve USART3, and the divisor and the requests are those of a configuration. -/
def LineReady (config : SerialConfig) (values : Word → Word) : Prop :=
  (∀ pin ∈ consolePins, pin.Serves consoleFunction values) ∧
    values (Usart3.base + Usart3.brr) = config.divisor ∧
    values (Usart3.base + Usart3.cr3) = config.requests

/-- What bringing up the console asks of its writes: a pin is turned over to USART3 only after
USART3 is selected, the divisor is written while the line is off, and the line is turned on after
it was made ready. -/
structure InOrder (config : SerialConfig) (address value : Word) (before after : Word → Word) :
    Prop where
  muxes : ∀ pin ∈ consolePins, pin.Muxes consoleFunction address value before after
  divides : address = Usart3.base + Usart3.brr → LineOff before
  enables : address = Usart3.base + Usart3.cr1 → value &&& Usart3.enable ≠ 0 →
    LineReady config before

/-- Before the line is set up, its clock runs and its pins serve USART3. -/
structure Connected (values : Word → Word) : Prop where
  clocked : Amendment.clocked values (.usart3 0) = true
  serves : ∀ pin ∈ consolePins, pin.Serves consoleFunction values

/-- The registers that connect the line. -/
def connecting : List Word :=
  [Rcc.apb1lenr, Port.base .d + Gpio.afrh, Port.base .d + Gpio.moder]

/-- The line is set up in its own registers. -/
theorem line_elsewhere {address : Word} (elsewhere : address ∈ connecting) :
    ∀ amendment ∈ config.amendments, amendment.address ≠ address := by
  have apart : ∀ amendment ∈ config.amendments, amendment.address ∉ connecting := by
    cases dma : config.dmaTransmit <;>
      simp only [SerialConfig.amendments, dma, List.forall_mem_append,
        List.forall_mem_singleton] <;> decide +kernel
  rintro amendment member rfl
  exact apart amendment member elsewhere

/-- What the console settles in a register that is not one of the line's is settled before. -/
theorem front_holds (config : SerialConfig) {setting : Setting}
    (member : setting ∈ BoardCall.console.settings config)
    (elsewhere : setting.address ∈ connecting) (values : Word → Word) :
    setting.Holds (BoardCall.consoleFront.foldl Amendment.on values) := by
  have holds := (BoardCall.settles config .console values).holds setting member
  rw [BoardCall.amendments, BoardCall.console_eq, List.foldl_append] at holds
  rwa [Setting.Holds, Amendment.foldl_elsewhere (line_elsewhere elsewhere)] at holds

/-- A pin's mode and function are among the settings that connect it. -/
theorem consolePin_mem {pin : PinId} (high : ¬pin.number < 8) (pull : Word) :
    pin.muxed ∈ consolePinSettings pin pull ∧
      pin.selection consoleFunction ∈ consolePinSettings pin pull := by
  have function : pin.selection consoleFunction = pin.functionSetting 7 := if_neg high
  rw [function]
  exact ⟨.tail _ (.tail _ (.tail _ (.tail _ (.head _)))), .tail _ (.tail _ (.tail _ (.head _)))⟩

theorem front_connects (values : Word → Word) :
    Connected (BoardCall.consoleFront.foldl Amendment.on values) where
  clocked := BoardCall.clocked_serial
    (front_holds .default (.tail _ (.head _)) (by decide) values) 0
  serves := by
    have transmit := consolePin_mem (show ¬consoleTransmit.number < 8 by decide) 0
    have receive := consolePin_mem (show ¬consoleReceive.number < 8 by decide) 1
    have first {setting : Setting} (member : setting ∈ consolePinSettings consoleTransmit 0) :
        setting ∈ BoardCall.console.settings .default :=
      List.mem_append_right _ (List.mem_append_left _ member)
    have second {setting : Setting} (member : setting ∈ consolePinSettings consoleReceive 1) :
        setting ∈ BoardCall.console.settings .default :=
      List.mem_append_right _ (List.mem_append_right _ (List.mem_append_left _ member))
    refine List.forall_mem_cons.mpr ⟨⟨?_, ?_⟩, List.forall_mem_singleton.mpr ⟨?_, ?_⟩⟩
    · exact front_holds .default (first transmit.1) (by decide) values
    · exact front_holds .default (first transmit.2) (by decide) values
    · exact front_holds .default (second receive.1) (by decide) values
    · exact front_holds .default (second receive.2) (by decide) values

/-! ### The order of the writes -/

/-- Each pin is turned over in its turn. -/
theorem along_consolePin {pin other : PinId} (valid : other.number.toNat < 16)
    (port : other.port = pin.port) (pull : Pull) (values : Word → Word) :
    Amendment.Along (pin.Muxes consoleFunction) values (consolePin other pull) := by
  have elsewhere {offset : Word} (differs : offset ≠ Gpio.moder) :
      other.port.base + offset ≠ pin.port.base + Gpio.moder :=
    port ▸ other.port.register_ne differs
  refine ⟨PinId.Muxes.elsewhere (elsewhere (by decide)),
    PinId.Muxes.elsewhere (elsewhere (by decide)),
    PinId.Muxes.elsewhere (elsewhere (by decide)), ?_⟩
  exact PinId.along_mode valid port (fun _ => rfl) _

theorem front_muxes {pin : PinId} (port : pin.port = .d) (values : Word → Word) :
    Amendment.Along (pin.Muxes consoleFunction) values BoardCall.consoleFront := by
  have gate {address : Word} (decoded : Block.decode address = .other) :
      address ≠ pin.port.base + Gpio.moder := by
    rintro rfl
    rw [Block.decode_eq_gpio_iff.mpr ⟨rfl, by decide⟩] at decoded
    cases decoded
  have transmit (values : Word → Word) : Amendment.Along (pin.Muxes consoleFunction) values
      (consolePin consoleTransmit .floating) := along_consolePin (by decide) port.symm _ values
  have receive (values : Word → Word) : Amendment.Along (pin.Muxes consoleFunction) values
      (consolePin consoleReceive .up) := along_consolePin (by decide) port.symm _ values
  have pins (values : Word → Word) : Amendment.Along (pin.Muxes consoleFunction) values
      (consolePin consoleTransmit .floating ++ consolePin consoleReceive .up) :=
    Amendment.along_append.mpr ⟨transmit _, receive _⟩
  exact ⟨PinId.Muxes.elsewhere (gate rfl), PinId.Muxes.elsewhere (gate rfl),
    PinId.Muxes.elsewhere (gate rfl), pins _⟩

/-- Connecting the pins is in order. -/
theorem front_inOrder (config : SerialConfig) (values : Word → Word) :
    Amendment.Along (InOrder config) values BoardCall.consoleFront := by
  have apart : ∀ amendment ∈ BoardCall.consoleFront,
      amendment.address ∉ [Usart3.base + Usart3.brr, Usart3.base + Usart3.cr1] := by
    decide +kernel
  have away : Amendment.Along (fun address _ _ _ =>
      address ∉ [Usart3.base + Usart3.brr, Usart3.base + Usart3.cr1]) values
      BoardCall.consoleFront :=
    Amendment.along_of_forall fun amendment member _ => apart amendment member
  have transmit := front_muxes (show consoleTransmit.port = .d from rfl) values
  have receive := front_muxes (show consoleReceive.port = .d from rfl) values
  refine ((transmit.and receive).and away).mono ?_
  rintro address value before after ⟨⟨transmit, receive⟩, away⟩
  simp only [List.mem_cons, List.not_mem_nil, or_false, not_or] at away
  exact
    { muxes := List.forall_mem_cons.mpr ⟨transmit, List.forall_mem_singleton.mpr receive⟩
      divides := fun same => absurd same away.1
      enables := fun same => absurd same away.2 }

/-- A write of one of the line's registers is in order if it keeps to the rules for this one. -/
theorem InOrder.of_line {address : Word} {change : Word → Word}
    (mode : address ≠ Port.base .d + Gpio.moder)
    (divides : address = Usart3.base + Usart3.brr → LineOff values)
    (enables : address = Usart3.base + Usart3.cr1 →
      change (values address) &&& Usart3.enable ≠ 0 → LineReady config values) :
    Amendment.Obeys (InOrder config) values ⟨address, change⟩ where
  muxes := List.forall_mem_cons.mpr
    ⟨PinId.Muxes.elsewhere mode, List.forall_mem_singleton.mpr (PinId.Muxes.elsewhere mode)⟩
  divides := divides
  enables := enables

theorem InOrder.of_apart {address : Word} {change : Word → Word} (apart : address ∉
      [Port.base .d + Gpio.moder, Usart3.base + Usart3.brr, Usart3.base + Usart3.cr1]) :
    Amendment.Obeys (InOrder config) values ⟨address, change⟩ := by
  simp only [List.mem_cons, List.not_mem_nil, or_false, not_or] at apart
  exact of_line apart.1 (fun same => absurd same apart.2.1) fun same => absurd same apart.2.2

/-- Clearing the control registers lets the divisor be written. -/
theorem preparation_inOrder (connected : Connected values) :
    Amendment.Along (InOrder config) values config.preparation := by
  have off : Amendment.Obeys (InOrder config) values ⟨Usart3.base + Usart3.cr1, fun _ => 0⟩ :=
    .of_line (by decide) (fun same => absurd same (by decide))
      fun _ on => absurd BitVec.zero_and on
  have divisor (values : Word → Word) (cleared : LineOff values) :
      Amendment.Obeys (InOrder config) values
        ⟨Usart3.base + Usart3.brr, fun _ => config.divisor⟩ :=
    .of_line (by decide) (fun _ => cleared) fun same => absurd same (by decide)
  refine ⟨off, .of_apart (by decide), .of_apart (by decide),
    divisor _ ⟨rfl, rfl, rfl, connected.clocked⟩, ?_⟩
  cases config.dmaTransmit with
  | true => exact ⟨.of_apart (by decide), trivial⟩
  | false => trivial

theorem Connected.of_same {others : Word → Word} (connected : Connected values)
    (same : ∀ address ∈ connecting, others address = values address) : Connected others where
  clocked := by
    rw [Amendment.clocked, same _ (by decide)]
    exact connected.clocked
  serves pin member := by
    have places : ∀ pin ∈ consolePins, pin.muxed.address ∈ connecting ∧
        (pin.selection consoleFunction).address ∈ connecting := by
      decide
    obtain ⟨mode, function⟩ := places pin member
    rw [PinId.Serves, Setting.Holds, same _ mode, Setting.Holds, same _ function]
    exact connected.serves pin member

/-- With the line prepared, it may be turned on. -/
theorem switch_inOrder (connected : Connected values) :
    config.switch.Obeys (InOrder config) (config.preparation.foldl Amendment.on values) := by
  have kept : Connected (config.preparation.foldl Amendment.on values) := by
    apply connected.of_same
    intro address elsewhere
    apply Amendment.foldl_elsewhere
    intro amendment member
    apply line_elsewhere elsewhere
    rw [SerialConfig.amendments_eq]
    exact List.mem_append_left _ member
  refine .of_line (by decide) (fun same => absurd same (by decide)) fun _ _ => ⟨kept.serves, ?_⟩
  rw [SerialConfig.preparation, SerialConfig.requests]
  cases config.dmaTransmit with
  | true | false => exact ⟨rfl, rfl⟩

/-! ### Bringing up the console -/

/-- All that bringing up the console does to the chip. -/
def turnOn {δ : Type} [Target δ] (config : SerialConfig) : BusM δ Unit := do
  amendAll BoardCall.consoleFront
  Serial.prepare config
  Bus.write (Usart3.base + Usart3.cr1) config.control

/-- After that, only the rate is left to be computed. -/
theorem setUpConsole_eq {δ : Type} [Target δ] (config : SerialConfig) :
    (setUpConsole config : BusM δ Serial) =
      turnOn config >>= fun _ => Serial.finish config := by
  simp only [setUpConsole, Gate.enablePort, Gate.enableSerial, Gate.selectKernelClock, setBits,
    connectConsolePin_eq (show consoleTransmit.number.toNat < 16 by decide),
    connectConsolePin_eq (show consoleReceive.number.toNat < 16 by decide),
    writeField_eq Rcc.ccipr1 (show Rcc.usart3SelectShift.toNat < 32 by decide),
    turnOn, BoardCall.consoleFront, amendAll_append, amendAll_singleton, Amendment.gate,
    bind_assoc, Serial.setUp_eq]

theorem console_admitted (config : SerialConfig) (values : Word → Word) :
    Amendment.admitted values (BoardCall.consoleFront ++ config.preparation) = true ∧
      Amendment.admitted ((BoardCall.consoleFront ++ config.preparation).foldl Amendment.on values)
        [config.switch] = true := by
  have admitted := BoardCall.admitted config .console values
  rw [BoardCall.amendments, BoardCall.console_eq, SerialConfig.amendments_eq, ← List.append_assoc,
    Amendment.admitted_append, Bool.and_eq_true] at admitted
  exact admitted

theorem console_inOrder (config : SerialConfig) (values : Word → Word) :
    Amendment.Along (InOrder config) values (BoardCall.consoleFront ++ config.preparation) ∧
      config.switch.Obeys (InOrder config)
        ((BoardCall.consoleFront ++ config.preparation).foldl Amendment.on values) := by
  have connected := front_connects values
  rw [List.foldl_append]
  exact ⟨Amendment.along_append.mpr ⟨front_inOrder config values, preparation_inOrder connected⟩,
    switch_inOrder connected⟩

/-- Thirteen ticks are enough for it, and the line is turned on last. -/
theorem turnOn_runs (config : SerialConfig) (start : Chip) (values : Word → Word) :
    Runs 13 (fun session => Recorded.Traced (InOrder config) start values session.device)
      (turnOn config)
      (fun _ session => Recorded.Traced (InOrder config) start
          ((console config).foldl Amendment.on values) session.device ∧
        session.device.Closes (.whole (.write (Usart3.base + Usart3.cr1) config.control)))
      fun session => session.device.Follows (InOrder config) start := by
  obtain ⟨admitted, last⟩ := console_admitted config values
  obtain ⟨along, switch⟩ := console_inOrder config values
  have front : Carries 13 (amendAll BoardCall.consoleFront) BoardCall.consoleFront :=
    Carries.amendAll _
  have before : Carries (13 + 0) _ _ :=
    Carries.bind (f := fun _ => Serial.prepare config) front (Serial.prepare_carries config)
  simp only [Amendment.admitted, Bool.and_true, Bool.and_eq_true] at last
  rw [BoardCall.console_eq, SerialConfig.amendments_eq, ← List.append_assoc, List.foldl_append,
    turnOn, ← bind_assoc]
  exact Runs.bind (before (InOrder config) start values admitted along) fun _ =>
    Runs.write_closes (stores_clocked last.1 last.2) switch

/-- Computing the rate changes nothing, even where it fails. -/
theorem setUpConsole_follows {start : Chip} (inactive : ∀ c, (start.latch c).active = false)
    (config : SerialConfig) (ticks : Nat) :
    (Recorded.of (setUpConsole config) start ticks).Follows (InOrder config) start := by
  have finish : Ends (fun session => session.device.Follows (InOrder config) start)
      (Serial.finish config : BusM Recorded Serial)
      (fun _ session => session.device.Follows (InOrder config) start)
      fun session => session.device.Follows (InOrder config) start := by
    intro session follows
    rw [Serial.run_finish]
    by_cases zero : config.divisor = 0
    · rw [if_pos zero]
      exact follows
    · rw [if_neg zero]
      exact follows
  have begins := (turnOn_runs config start start.peek).ends.weaken
    (fun _ _ reached => reached.1.follows) fun _ left => left
  rw [setUpConsole_eq]
  exact (begins.bind fun _ => finish).follows inactive ticks

/-- The divisor reaches one register only. -/
theorem console_values (config : SerialConfig) (values : Word → Word) (address : Word) :
    (console config).foldl Amendment.on values address =
      if address = Usart3.base + Usart3.brr then config.divisor
      else
        (console ⟨0, config.dmaTransmit, config.receiver⟩).foldl Amendment.on values address := by
  rw [BoardCall.console_eq, BoardCall.console_eq, List.foldl_append, List.foldl_append,
    BoardCall.foldl_lineAmendments, BoardCall.foldl_lineAmendments]
  simp only [BoardCall.lineAmendments, List.foldl_cons, List.foldl_nil, Amendment.on]
  by_cases here : address = Usart3.base + Usart3.brr
  · rw [if_pos here, here, if_neg (by decide), if_pos rfl]
  · rw [if_neg here, if_neg (Ne.symm here), if_neg (Ne.symm here)]

end Board

/-! ### Recording changes nothing -/

theorem Serial.prepare_projects (config : SerialConfig) :
    Projects Recorded.unrecorded (prepare config) (prepare config) := by
  rw [prepare, prepare]
  refine .bind (Recorded.write_projects _ _) fun _ => .bind (Recorded.write_projects _ _) fun _ =>
    .bind (Recorded.write_projects _ _) fun _ => .bind (Recorded.write_projects _ _) fun _ => ?_
  cases config.dmaTransmit with
  | true => exact Recorded.write_projects _ _
  | false => exact .pure ()

theorem Serial.finish_projects (config : SerialConfig) :
    Projects Recorded.unrecorded (finish config) (finish config) := by
  intro session
  rw [run_finish, run_finish]
  by_cases zero : config.divisor = 0
  · rw [if_pos zero, if_pos zero]
  · rw [if_neg zero, if_neg zero]

theorem Board.setUpConsole_projects (config : SerialConfig) :
    Projects Recorded.unrecorded (setUpConsole config) (setUpConsole config) := by
  have turned : Projects Recorded.unrecorded (turnOn config) (turnOn config) :=
    .bind (amendAll_projects _) fun _ => .bind (Serial.prepare_projects config) fun _ =>
      Recorded.write_projects _ _
  rw [setUpConsole_eq, setUpConsole_eq]
  exact .bind turned fun _ => Serial.finish_projects config

theorem PinId.setMode_projects {pin : PinId} (valid : pin.number.toNat < 16) (mode : PinMode) :
    Projects Recorded.unrecorded (pin.setMode mode) (pin.setMode mode) := by
  rw [setMode_eq valid, setMode_eq valid]
  exact amendAll_projects _

/-! ## Every write on the way -/

/-- With its ticks, bringing up the console returns, or faults when the rate is computed from a
divisor of zero. Either way it has turned the line on last. -/
theorem Board.run_setUpConsole {start : Chip} (inactive : ∀ c, (start.latch c).active = false)
    (config : SerialConfig) {ticks : Nat} (enough : 13 ≤ ticks) :
    ∃ after : Session Recorded,
      (setUpConsole config).run ⟨⟨start, []⟩, ticks, #[]⟩ =
        (if config.divisor = 0 then .error .divisionByZero after else .ok ⟨config⟩ after) ∧
      after.device.chip.peek = (console config).foldl Amendment.on start.peek ∧
      after.device.Closes (.whole (.write (Usart3.base + Usart3.cr1) config.control)) := by
  have traced : Recorded.Traced (InOrder config) start start.peek
      (⟨⟨start, []⟩, ticks, #[]⟩ : Session Recorded).device := .nothing inactive
  obtain ⟨_, after, returned, reached, closes⟩ :=
    (turnOn_runs config start start.peek).returns traced enough
  refine ⟨after, ?_, reached.holds, closes⟩
  rw [setUpConsole_eq, EStateM.run_bind, returned]
  exact Serial.run_finish config after

/-- Bringing up is safe at every moment, whatever the registers held before, as long as no channel
is active. A pin is turned over to an alternate function only while this function is selected, and
is turned over in the end. Of the console's writes, each that turns a pin over to USART3 finds
USART3 selected, one of the divisor finds the line off and clocked, and the one that turns the line
on finds the pins, the divisor and the requests set up. It is the last write. Only after it a
divisor of zero is a fault, and then the registers are those for any other divisor. -/
theorem Board.setUpConsole_inOrder {start : Chip}
    (inactive : ∀ c, (start.latch c).active = false) :
    (∀ (pin : PinId) (function : Fin 16), pin.number.toNat < 16 →
      Projects Recorded.unrecorded (pin.setMode (.alternate function))
        (pin.setMode (.alternate function)) ∧
      (∀ ticks, (Recorded.of (pin.setMode (.alternate function)) start ticks).Follows
        (pin.Muxes function) start) ∧
      (start.clocked (.gpio pin.port 0) = true → ∀ ticks, 2 ≤ ticks → ∃ after : Session Recorded,
        (pin.setMode (.alternate function)).run ⟨⟨start, []⟩, ticks, #[]⟩ = .ok () after ∧
          pin.Serves function after.device.chip.peek)) ∧
    (∀ config : SerialConfig,
      Projects Recorded.unrecorded (setUpConsole config) (setUpConsole config) ∧
      ∀ ticks, (Recorded.of (setUpConsole config) start ticks).Follows (InOrder config) start) ∧
    ∃ common : Bool → Bool → Word → Word, ∀ (config : SerialConfig) (ticks : Nat), 13 ≤ ticks →
      ∃ after : Session Recorded,
        (setUpConsole config).run ⟨⟨start, []⟩, ticks, #[]⟩ =
          (if config.divisor = 0 then .error .divisionByZero after else .ok ⟨config⟩ after) ∧
        (∀ address, after.device.chip.peek address =
          if address = Usart3.base + Usart3.brr then config.divisor
          else common config.dmaTransmit config.receiver address) ∧
        config.control &&& Usart3.enable ≠ 0 ∧
        after.device.Closes (.whole (.write (Usart3.base + Usart3.cr1) config.control)) := by
  refine ⟨fun pin function valid => ⟨PinId.setMode_projects valid _,
      PinId.setMode_follows inactive valid function, fun clocked _ enough =>
      PinId.run_setMode inactive valid function clocked enough⟩,
    fun config => ⟨setUpConsole_projects config, setUpConsole_follows inactive config⟩,
    fun dmaTransmit receiver =>
      (console ⟨0, dmaTransmit, receiver⟩).foldl Amendment.on start.peek, ?_⟩
  intro config ticks enough
  obtain ⟨after, ran, values, closes⟩ := run_setUpConsole inactive config enough
  refine ⟨after, ran, fun address => ?_, config.control_enables, closes⟩
  rw [values]
  exact console_values config start.peek address

/-- The divisor may be zero, and ticks may be too few. -/
theorem Board.setUpConsole_inOrder_stale :
    (∀ c, (Chip.stale.latch c).active = false) ∧ consoleReceive.number.toNat < 16 ∧
    (Recorded.of (consoleReceive.setMode (.alternate consoleFunction)) Chip.stale 1).Follows
      (consoleReceive.Muxes consoleFunction) Chip.stale ∧
    (Recorded.of (setUpConsole .default) Chip.stale 12).Follows (InOrder .default) Chip.stale ∧
    ∃ after : Session Recorded,
      (setUpConsole ⟨0, true, false⟩).run ⟨⟨Chip.stale, []⟩, 13, #[]⟩ =
        .error .divisionByZero after ∧
      after.device.chip.peek (Usart3.base + Usart3.brr) = 0 := by
  have inactive : ∀ c, (Chip.stale.latch c).active = false := inactive_fresh 2
  have valid : consoleReceive.number.toNat < 16 := by decide
  obtain ⟨pins, console, common, reaches⟩ := Board.setUpConsole_inOrder inactive
  obtain ⟨after, ran, values, -⟩ := reaches ⟨0, true, false⟩ 13 (Nat.le_refl 13)
  exact ⟨inactive, valid, (pins consoleReceive consoleFunction valid).2.1 1,
    (console .default).2 12, after, ran, values (Usart3.base + Usart3.brr)⟩

end Peripherals
