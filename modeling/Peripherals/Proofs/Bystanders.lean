import Peripherals.Proofs.ChipContracts

/-! # Calls beside a transfer

What a program and its surroundings may do while channels feed the line without
having to do with it: read any register, wait for any bit, let time pass, use
pins, and change what surrounds the chip. Every such call keeps what is steady,
whether it returns or stops in the middle. -/

namespace Peripherals

/-- An operation of a pin. -/
inductive PinCall
  | setMode (mode : PinMode)
  | setAlternate (function : Fin 16)
  | setOutputType (type : OutputType)
  | setOutputSpeed (speed : OutputSpeed)
  | setPull (pull : Pull)
  | configureOutput
  | configureInputPullUp
  | setLevel (level : Level)
  | inputLevel
  | outputLevel
  | toggle

/-- A change of what surrounds the chip. -/
inductive Surrounding
  | drive (pin : PinId) (level : Level)
  | release (pin : PinId)
  | connect (output input : PinId)
  | pushReceived (bytes : List Byte)
  | setLatency (ticks : Nat)

/-- A call that has nothing to do with the line. -/
inductive Bystander
  | read (address : Word)
  | waitSet (address mask : Word)
  | waitClear (address mask : Word)
  | nop
  | usePin (pin : PinId) (call : PinCall)
  | surround (change : Surrounding)

/-- What a pin's operation does, its answer dropped. -/
def PinCall.perform (pin : PinId) : PinCall → BusM Chip Unit
  | .setMode mode => pin.setMode mode
  | .setAlternate function => pin.setAlternate function
  | .setOutputType type => pin.setOutputType type
  | .setOutputSpeed speed => pin.setOutputSpeed speed
  | .setPull pull => pin.setPull pull
  | .configureOutput => pin.configureOutput
  | .configureInputPullUp => pin.configureInputPullUp
  | .setLevel level => pin.setLevel level
  | .inputLevel => do
    let _ ← pin.inputLevel
    pure ()
  | .outputLevel => do
    let _ ← pin.outputLevel
    pure ()
  | .toggle => pin.toggle

/-- The chip in changed surroundings. -/
def Surrounding.apply (chip : Chip) : Surrounding → Chip
  | .drive pin level => chip.drive pin level
  | .release pin => chip.release pin
  | .connect output input => chip.connect output input
  | .pushReceived bytes => chip.pushReceived bytes
  | .setLatency ticks => chip.setLatency ticks

/-- What a call does, its answer dropped. -/
def Bystander.perform : Bystander → BusM Chip Unit
  | .read address => do
    let _ ← Bus.read address
    pure ()
  | .waitSet address mask => Bus.waitSet address mask
  | .waitClear address mask => Bus.waitClear address mask
  | .nop => Bus.nop
  | .usePin pin call => call.perform pin
  | .surround change => Bus.onDevice (modify (Surrounding.apply · change))

open Bus Chip

variable {P : Chip → Prop}

theorem PinCall.keeps (steady : Steady P) (pin : PinId) (call : PinCall) :
    Keeps P (call.perform pin) := by
  cases call with
  | setMode mode => exact pin.setMode_keeps steady mode
  | setAlternate function => exact pin.setAlternate_keeps steady function
  | setOutputType type => exact pin.setOutputType_keeps steady type
  | setOutputSpeed speed => exact pin.setOutputSpeed_keeps steady speed
  | setPull pull => exact pin.setPull_keeps steady pull
  | configureOutput => exact pin.configureOutput_keeps steady
  | configureInputPullUp => exact pin.configureInputPullUp_keeps steady
  | setLevel level => exact pin.setLevel_keeps steady level
  | inputLevel | outputLevel =>
    apply Keeps.bind (pin.readLevel_keeps steady _)
    intro level
    exact Keeps.pure ()
  | toggle => exact pin.toggle_keeps steady

theorem Surrounding.undisturbed (change : Surrounding) (chip : Chip) :
    Undisturbed chip (change.apply chip) := by
  apply SameEngine.undisturbed
  · cases change <;> exact ⟨rfl, rfl, rfl, rfl⟩
  · cases change <;> rfl

/-- A call beside the line keeps what is steady. -/
theorem Bystander.keeps (steady : Steady P) (call : Bystander) : Keeps P call.perform := by
  cases call with
  | read address =>
    apply Keeps.bind (Keeps.read steady address)
    intro value
    exact Keeps.pure ()
  | waitSet address mask => exact Keeps.waitSet steady address mask
  | waitClear address mask => exact Keeps.waitClear steady address mask
  | nop => exact Keeps.nop steady
  | usePin pin call => exact call.keeps steady pin
  | surround change =>
    change Keeps P (onDevice (modify (Surrounding.apply · change)))
    apply Leads.onDevice
    intro chip holds
    exact steady.undisturbed holds (change.undisturbed chip)

namespace Bus

variable {α : Type}

/-- How a computation ends on the chip when it gets some ticks, whether it returns or stops. -/
def ends (m : BusM Chip α) (ticks : Nat) (chip : Chip) : Session Chip :=
  match m.run ⟨chip, ticks, #[]⟩ with
  | .ok _ session => session
  | .error _ session => session

/-- Where a computation leaves the chip when it gets some ticks. -/
def leaves (m : BusM Chip α) (ticks : Nat) (chip : Chip) : Chip :=
  (ends m ticks chip).device

theorem Maintains.ends {I : Session Chip → Prop} {m : BusM Chip α} (maintains : Maintains I m)
    (ticks : Nat) {chip : Chip} (holds : I ⟨chip, ticks, #[]⟩) : I (ends m ticks chip) := by
  have reached := maintains ⟨chip, ticks, #[]⟩ holds
  simp only [Bus.ends]
  split at reached
  · next ended =>
    rw [ended]
    exact reached
  · next ended =>
    rw [ended]
    exact reached

theorem Keeps.leaves {m : BusM Chip α} (keeps : Keeps P m) (ticks : Nat) {chip : Chip}
    (holds : P chip) : P (leaves m ticks chip) :=
  Maintains.ends keeps ticks holds

end Bus

end Peripherals
