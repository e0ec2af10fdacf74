import Peripherals.Proofs.Configuration
import Peripherals.Proofs.HandleCalls

/-! # Agreement of two targets

Calls that configure something, in any order in which a block's clock is enabled
before the block is first accessed, make the same accesses on the chip from
reset as on plain memory full of zeros, read the same values, and leave the same
configuration in the registers. -/

namespace Peripherals

open Bus Chip

/-! ## Calls -/

/-- A change of how a pin is configured. -/
inductive PinChange
  | setMode (mode : PinMode)
  | setAlternate (function : Fin 16)
  | setOutputType (type : OutputType)
  | setOutputSpeed (speed : OutputSpeed)
  | setPull (pull : Pull)
  | configureOutput
  | configureInputPullUp

/-- A call that configures something and starts nothing. Setting DMA1 up is enabling its clock. -/
inductive ConfigCall
  | enablePort (port : Port)
  | enableSerial
  | enableDma
  | selectKernelClock (clock : KernelClock)
  | newPin (pin : PinId) (setUp : Bench.PinSetUp)
  | onPin (pin : PinId) (change : PinChange)
  | setUpLeds
  | setUpButton
  | setUpConsole (config : SerialConfig)
  | setUpSerial (config : SerialConfig)
  | enableDmaTransmit (serial : Serial)
  | configure (c : Channel) (target source length : Word)
  | clearFlags (c : Channel)

/-- What an operation on a handle does to the session. -/
def Held.dropping {δ η α : Type} (handle : η) (action : HeldM δ η α) : BusM δ α := fun session =>
  match action.run ⟨session, handle⟩ with
  | .ok value held => .ok value held.session
  | .error fault held => .error fault held.session

theorem Held.Does.dropping {δ η α : Type} {action : HeldM δ η α} {calls : BusM δ α}
    (does : Held.Does action calls) (handle : η) : Held.dropping handle action = calls := by
  funext session
  have done := does session handle
  rw [Held.dropping]
  cases ended : action.run ⟨session, handle⟩ with
  | ok value held =>
    simp only [ended] at done
    exact done.symm
  | error fault held =>
    simp only [ended] at done
    exact done.symm

theorem Serial.enableDma_dropping {δ : Type} [Target δ] (serial : Serial) :
    (Held.dropping serial Serial.enableDma : BusM δ Unit) =
      Bus.setBits (Usart3.base + Usart3.cr3) Usart3.dmaTransmit >>= fun _ => pure () :=
  (Held.Does.bind (Held.Does.onBus _) fun _ => Held.Does.change _).dropping serial

section Perform

variable {δ : Type} [Target δ]

/-- What a change does on any target. -/
def PinChange.perform (pin : PinId) : PinChange → BusM δ Unit
  | .setMode mode => pin.setMode mode
  | .setAlternate function => pin.setAlternate function
  | .setOutputType type => pin.setOutputType type
  | .setOutputSpeed speed => pin.setOutputSpeed speed
  | .setPull pull => pin.setPull pull
  | .configureOutput => pin.configureOutput
  | .configureInputPullUp => pin.configureInputPullUp

/-- What a call does on any target, its answer dropped. -/
def ConfigCall.perform : ConfigCall → BusM δ Unit
  | .enablePort port => Gate.enablePort port
  | .enableSerial => Gate.enableSerial
  | .enableDma => Gate.enableDma
  | .selectKernelClock clock => Gate.selectKernelClock clock
  | .newPin pin setUp => setUp.perform pin
  | .onPin pin change => change.perform pin
  | .setUpLeds => do
    let _ ← Board.setUpLeds
    pure ()
  | .setUpButton => do
    let _ ← Board.setUpButton
    pure ()
  | .setUpConsole config => do
    let _ ← Board.setUpConsole config
    pure ()
  | .setUpSerial config => do
    let _ ← Serial.setUp config
    pure ()
  | .enableDmaTransmit serial => Held.dropping serial Serial.enableDma
  | .configure c target source length => Dma.configure c target source length
  | .clearFlags c => Dma.clearFlags c

/-- Calls, one after the other. -/
def ConfigCall.performAll (calls : List ConfigCall) : BusM δ Unit :=
  forM calls perform

end Perform

namespace ConfigCall

/-- Whether a call's arguments are ones that it accepts: a pin that its port has, a divisor that
gives a rate, and a length that a channel can count. -/
def Valid : ConfigCall → Prop
  | .newPin pin _ | .onPin pin _ => pin.number.toNat < 16
  | .setUpConsole config | .setUpSerial config => config.divisor ≠ 0
  | .configure _ _ _ length => length ≤ Dma1.countMax
  | _ => True

instance instDecidableValid : DecidablePred Valid
  | .newPin pin _ | .onPin pin _ => inferInstanceAs (Decidable (pin.number.toNat < 16))
  | .setUpConsole config | .setUpSerial config => inferInstanceAs (Decidable (config.divisor ≠ 0))
  | .configure _ _ _ length => inferInstanceAs (Decidable (length ≤ Dma1.countMax))
  | .enablePort _ | .enableSerial | .enableDma | .selectKernelClock _ | .setUpLeds | .setUpButton
  | .enableDmaTransmit _ | .clearFlags _ => .isTrue trivial

/-- The blocks with a clock gate that a call accesses, except those that it enables first. -/
def needs : ConfigCall → List Gated
  | .newPin pin setUp => pin.setUpNeeds setUp
  | .onPin pin _ => [.gpio pin.port]
  | .setUpSerial _ | .enableDmaTransmit _ => [.serial]
  | .configure .. | .clearFlags _ => [.dma]
  | .enablePort _ | .enableSerial | .enableDma | .selectKernelClock _ | .setUpLeds | .setUpButton
  | .setUpConsole _ => []

/-- The blocks whose clocks a call enables. -/
def enables : ConfigCall → List Gated
  | .enablePort port => [.gpio port]
  | .enableSerial => [.serial]
  | .enableDma => [.dma]
  | .setUpLeds => [.gpio Board.redLed.port, .gpio Board.yellowLed.port, .gpio Board.greenLed.port]
  | .setUpButton => [.gpio Board.userButton.port]
  | .setUpConsole _ => [.serial, .gpio .d]
  | _ => []

/-- Each block's clock is enabled before the block is first accessed, if a list of blocks are
clocked from the start. -/
def Ordered (awake : List Gated) : List ConfigCall → Prop
  | [] => True
  | call :: rest => (∀ gated ∈ call.needs, gated ∈ awake) ∧ Ordered (call.enables ++ awake) rest

instance instDecidableOrdered : ∀ awake calls, Decidable (Ordered awake calls)
  | _, [] => .isTrue trivial
  | awake, call :: rest =>
    have := instDecidableOrdered (call.enables ++ awake) rest
    inferInstanceAs (Decidable (_ ∧ _))

/-- Every call does the same on both targets. -/
theorem mirrors (call : ConfigCall) :
    Mirrors call.Valid call.needs call.perform call.perform call.enables := by
  cases call with
  | enablePort port => exact Gated.setBits_mirrors (.gpio port)
  | enableSerial => exact Gated.setBits_mirrors .serial
  | enableDma => exact Gated.setBits_mirrors .dma
  | selectKernelClock clock => exact Gate.selectKernelClock_mirrors clock
  | newPin pin setUp => exact pin.setUp_mirrors setUp
  | onPin pin change =>
    cases change with
    | setMode mode => exact pin.setMode_mirrors mode
    | setAlternate function => exact pin.setAlternate_mirrors function
    | setOutputType type => exact pin.setOutputType_mirrors type
    | setOutputSpeed speed => exact pin.setOutputSpeed_mirrors speed
    | setPull pull => exact pin.setPull_mirrors pull
    | configureOutput => exact pin.configureOutput_mirrors
    | configureInputPullUp => exact pin.configureInputPullUp_mirrors
  | setUpLeds => exact .bind Board.setUpLeds_mirrors fun _ => .pure ()
  | setUpButton => exact .bind Board.setUpButton_mirrors fun _ => .pure ()
  | setUpConsole config => exact .bind (Board.setUpConsole_mirrors config) fun _ => .pure ()
  | setUpSerial config => exact .bind (Serial.setUp_mirrors config) fun _ => .pure ()
  | enableDmaTransmit serial =>
    change Mirrors True [.serial] (Held.dropping serial Serial.enableDma)
      (Held.dropping serial Serial.enableDma) []
    rw [Serial.enableDma_dropping, Serial.enableDma_dropping]
    exact .seq Serial.enableDma_mirrors fun _ => .pure ()
  | configure c target source length => exact Dma.configure_mirrors c target source length
  | clearFlags c => exact Dma.clear_mirrors c _

/-- A run of calls in order does the same on targets that agree. -/
theorem performAll_agrees {awake : List Gated} {calls : List ConfigCall}
    (ordered : Ordered awake calls) {chip : Chip} {memory : FlatMemory}
    (alike : Alike awake chip memory) :
    ∃ spent entries outcome after left,
      Yields (performAll calls) chip spent entries outcome after ∧
      Yields (performAll calls) memory spent entries outcome left ∧
      Agreed (∀ call ∈ calls, call.Valid) [] outcome after left := by
  -- The blocks that each call enables are clocked for the rest of the run.
  induction calls generalizing awake chip memory with
  | nil =>
    exact ⟨0, #[], .ok (), chip, memory, Yields.lift (.ok ()), Yields.lift (.ok ()),
      alike.mono nofun⟩
  | cons call rest ih =>
    obtain ⟨available, later⟩ := ordered
    obtain ⟨spent, entries, outcome, after, left, onChip, onMemory, agreed⟩ :=
      call.mirrors awake chip memory available alike
    cases outcome with
    | error fault =>
      exact ⟨spent, entries, .error fault, after, left, onChip.stop, onMemory.stop,
        fun valid => agreed.1 (valid call List.mem_cons_self), agreed.2⟩
    | ok value =>
      obtain ⟨spent', entries', outcome, after', left', onChip', onMemory', agreed'⟩ :=
        ih later agreed
      refine ⟨_, _, outcome, after', left', onChip.bind onChip', onMemory.bind onMemory', ?_⟩
      cases outcome with
      | ok value => exact agreed'
      | error fault =>
        exact ⟨fun valid => agreed'.1 fun call member => valid call (List.mem_cons_of_mem _ member),
          agreed'.2⟩

end ConfigCall

/-! ## The registers of a configuration -/

/-- The registers in which configuration is kept. -/
def configuration : List Word :=
  [Rcc.ahb1enr, Rcc.ahb2enr, Rcc.apb1lenr, Rcc.ccipr1] ++
    Port.all.flatMap (fun port => Gpio.configuration.map (port.base + ·)) ++
    Usart3.configuration.map (Usart3.base + ·) ++
    Channel.all.flatMap fun c =>
      [Dma1.ccr, Dma1.cndtr, Dma1.cpar, Dma1.cmar].map (Dma1.register c)

theorem retains_configuration :
    ∀ address ∈ configuration, retains (Block.decode address) = true :=
  List.all_eq_true.mp (by decide +kernel :
    (configuration.all fun address => retains (Block.decode address)) = true)

namespace ConfigCall

/-- From reset, calls in order make the same reads, with the same values, and the same writes on the
chip as on memory full of zeros. They return if they are valid, and the registers of the
configuration are the same then. -/
theorem targets_agree {calls : List ConfigCall} (ordered : Ordered [] calls) :
    ∃ spent entries outcome chip memory,
      Yields (performAll calls) Chip.reset spent entries outcome chip ∧
      Yields (performAll calls) FlatMemory.zeroed spent entries outcome memory ∧
      ((∀ call ∈ calls, call.Valid) → outcome = .ok ()) ∧
      ∀ address ∈ configuration, memory.cells.get address = chip.peek address := by
  obtain ⟨spent, entries, outcome, chip, memory, onChip, onMemory, agreed⟩ :=
    performAll_agrees ordered .start
  cases outcome with
  | ok value =>
    exact ⟨spent, entries, .ok value, chip, memory, onChip, onMemory, fun _ => rfl,
      fun address member => agreed.registers address (retains_configuration address member)⟩
  | error fault =>
    exact ⟨spent, entries, .error fault, chip, memory, onChip, onMemory,
      fun valid => (agreed.1 valid).elim,
      fun address member => agreed.2.registers address (retains_configuration address member)⟩

/-- The board is brought up, and a channel is programmed for the console. -/
def boardAndChannel (c : Channel) : List ConfigCall :=
  [.setUpLeds, .setUpConsole .default, .enableDma, .configure c Serial.target 0x20000000 16,
    .enableDmaTransmit ⟨.default⟩, .enablePort .e, .newPin ⟨.e, 3⟩ (.inMode .analog),
    .onPin ⟨.e, 12⟩ (.setPull .down), .clearFlags c]

/-- An order in which nothing faults. -/
theorem targets_agree_on_board :
    Ordered [] (boardAndChannel 2) ∧ (∀ call ∈ boardAndChannel 2, call.Valid) ∧
      ∃ spent entries chip memory,
        Yields (performAll (boardAndChannel 2)) Chip.reset spent entries (.ok ()) chip ∧
        Yields (performAll (boardAndChannel 2)) FlatMemory.zeroed spent entries (.ok ()) memory ∧
        ∀ address ∈ configuration, memory.cells.get address = chip.peek address := by
  have ordered : Ordered [] (boardAndChannel 2) := by decide
  have valid : ∀ call ∈ boardAndChannel 2, call.Valid := by decide
  obtain ⟨spent, entries, outcome, chip, memory, onChip, onMemory, returns, same⟩ :=
    targets_agree ordered
  obtain rfl := returns valid
  exact ⟨ordered, valid, spent, entries, chip, memory, onChip, onMemory, same⟩

end ConfigCall

end Peripherals
