import Peripherals.Driver.Dma
import Peripherals.Driver.Pin
import Peripherals.Proofs.BusContracts
import Peripherals.Proofs.Line

/-! # Contracts on the chip

Contracts of the bus operations when the device is the chip, where a read first
lets a tick pass. A steady property survives ticks and whatever leaves the line
alone, so reads, waits and every operation of a pin keep it. -/

namespace Peripherals

namespace Chip

/-- A property that no tick breaks, and nothing that leaves the line alone. -/
structure Steady (P : Chip → Prop) : Prop where
  tick : ∀ {chip : Chip}, P chip → ∃ after, Chip.tick.run chip = .ok () after ∧ P after
  undisturbed : ∀ {chip after : Chip}, P chip → Undisturbed chip after → P after

theorem run_load (chip : Chip) (address : Word) :
    (Target.load address : EStateM Fault Chip Word).run chip =
      match tick.run chip with
      | .ok () ticked => (load address).run ticked
      | .error fault ticked => .error fault ticked := by
  change (tick >>= fun _ => load address).run chip = _
  rw [EStateM.run_bind]
  cases tick.run chip <;> rfl

/-- A write leaves alone what a store into an address aside leaves alone. -/
theorem Undisturbed.write {address : Word} (aside : Aside address) (chip : Chip) (value : Word) :
    Undisturbed chip (chip.write address value) := by
  apply Undisturbed.trans (SameEngine.undisturbed _ _) ((store_effect _ _ _).undisturbed aside)
  · exact ⟨rfl, rfl, rfl, rfl⟩
  · rfl

theorem Aside.of_port (port : Port) {offset : Word} (inside : offset.toNat < 0x400) :
    Aside (port.base + offset) :=
  .of_gpio (Block.decode_eq_gpio_iff.mpr ⟨rfl, inside⟩)

end Chip

namespace Bus

open Chip

variable {P : Chip → Prop}

/-! ## Steady properties -/

theorem Keeps.load (steady : Steady P) (address : Word) :
    Keeps P (onDevice (Target.load address) : BusM Chip Word) := by
  apply Leads.onDevice
  intro chip holds
  obtain ⟨ticked, passed, holds⟩ := steady.tick holds
  rw [run_load, passed]
  obtain ⟨value, rest, loaded⟩ | ⟨fault, loaded⟩ := load_effect ticked address
  · simp only [loaded]
    exact steady.undisturbed holds (SameEngine.undisturbed ⟨rfl, rfl, rfl, rfl⟩ rfl)
  · simp only [loaded]
    exact holds

theorem Keeps.read (steady : Steady P) (address : Word) :
    Keeps P (read address : BusM Chip Word) := by
  apply Keeps.bind (Keeps.require address)
  intro _
  apply Keeps.bind Keeps.spend
  intro _
  apply Keeps.bind (Keeps.load steady address)
  intro value
  apply Keeps.bind (Keeps.record _)
  intro _
  exact Keeps.pure value

theorem Keeps.nop (steady : Steady P) : Keeps P (nop : BusM Chip Unit) := by
  apply Keeps.bind Keeps.spend
  intro _
  apply Keeps.bind (Keeps.record _)
  intro _
  apply Leads.onDevice
  intro chip holds
  have counted : P { chip with nops := chip.nops + 1 } :=
    steady.undisturbed holds (SameEngine.undisturbed ⟨rfl, rfl, rfl, rfl⟩ rfl)
  obtain ⟨ticked, passed, holds⟩ := steady.tick counted
  have ran : (Target.nop : EStateM Fault Chip Unit).run chip = .ok () ticked := passed
  rw [ran]
  exact holds

theorem Leads.write {E : Chip → Prop} {Q : Unit → Chip → Prop} {address value : Word}
    (leads : ∀ chip, P chip → Q () (chip.write address value)) :
    Leads P (write address value : BusM Chip Unit) Q E :=
  fun session holds => leads session.device holds

theorem Keeps.write (steady : Steady P) {address : Word} (aside : Aside address) (value : Word) :
    Keeps P (write address value : BusM Chip Unit) :=
  Leads.write fun chip holds => steady.undisturbed holds (.write aside chip value)

theorem Keeps.update (steady : Steady P) {address : Word} (aside : Aside address)
    (f : Word → Word) : Keeps P (update address f : BusM Chip Unit) := by
  apply Keeps.bind (Keeps.read steady address)
  intro value
  exact Keeps.write steady aside (f value)

theorem Keeps.anySet (steady : Steady P) (address mask : Word) :
    Keeps P (anySet address mask : BusM Chip Bool) := by
  apply Keeps.bind (Keeps.read steady address)
  intro value
  exact Keeps.pure _

theorem Keeps.waitSet (steady : Steady P) (address mask : Word) :
    Keeps P (waitSet address mask : BusM Chip Unit) :=
  Keeps.untilTrue (Keeps.anySet steady address mask)

theorem Keeps.waitClear (steady : Steady P) (address mask : Word) :
    Keeps P (waitClear address mask : BusM Chip Unit) := by
  apply Keeps.untilTrue
  apply Keeps.bind (Keeps.anySet steady address mask)
  intro pending
  exact Keeps.pure _

theorem Keeps.writeField (steady : Steady P) {address : Word} (aside : Aside address)
    (shift width : Byte) (value : Word) :
    Keeps P (writeField address shift width value : BusM Chip Unit) := by
  apply Keeps.bind (Keeps.monadLift _)
  intro mask
  exact Keeps.update steady aside _

/-! ## Settled computations -/

theorem Settles.write {Q : Unit → Chip → Prop} {address value : Word}
    (leads : ∀ chip, P chip → Q () (chip.write address value)) :
    Settles 0 P (write address value : BusM Chip Unit) Q :=
  fun session holds => ⟨leads session.device holds, Nat.le_refl _⟩

/-- A read with a tick left is a load of the device, and the log shows the value. -/
theorem run_read_load (chip : Chip) (address : Word) (ticks : Nat) (log : Array Access) :
    (read address).run ⟨chip, ticks + 1, log⟩ =
      match (Target.load address : EStateM Fault Chip Word).run chip with
      | .ok value after => .ok value ⟨after, ticks, log.push (.read address value)⟩
      | .error fault after => .error fault ⟨after, ticks, log⟩ := by
  change (onDevice (Target.load address) >>= fun value => do
    record (.read address value)
    pure value : BusM Chip Word).run ⟨chip, ticks, log⟩ = _
  rw [EStateM.run_bind, run_onDevice]
  cases (Target.load address : EStateM Fault Chip Word).run chip <;> rfl

theorem run_read {chip ticked last : Chip} {address value : Word} {ticks : Nat}
    {log : Array Access} (passed : Chip.tick.run chip = .ok () ticked)
    (loaded : (load address).run ticked = .ok value last) :
    (read address).run ⟨chip, ticks + 1, log⟩ =
      .ok value ⟨last, ticks, log.push (.read address value)⟩ := by
  rw [run_read_load, run_load, passed]
  simp only [loaded]

/-- A read is a tick and then a load that changes nothing. -/
theorem Settles.load {Q : Word → Chip → Prop} {address : Word}
    (leads : ∀ chip, P chip → ∃ ticked value, Chip.tick.run chip = .ok () ticked ∧
      (Chip.load address).run ticked = .ok value ticked ∧ Q value ticked) :
    Settles 1 P (read address) Q := by
  rintro ⟨chip, ticks, log⟩ holds
  cases ticks with
  | zero => exact ⟨rfl, Nat.one_pos⟩
  | succ ticks =>
    obtain ⟨ticked, value, passed, loaded, reached⟩ := leads chip holds
    rw [run_read passed loaded]
    exact ⟨reached, Nat.le_refl _⟩

/-- The same where the address gives nothing but the stored value. -/
theorem Settles.read {Q : Word → Chip → Prop} {address : Word}
    (leads : ∀ chip, P chip → ∃ ticked, Chip.tick.run chip = .ok () ticked ∧
      (Chip.load address).run ticked = .ok (ticked.peek address) ticked ∧
      Q (ticked.peek address) ticked) :
    Settles 1 P (read address) Q :=
  Settles.load fun chip holds => by
    obtain ⟨ticked, passed, loaded, reached⟩ := leads chip holds
    exact ⟨ticked, _, passed, loaded, reached⟩

theorem Takes.write {Q : Unit → Chip → Prop} {E : Nat → Chip → Prop} {address value : Word}
    (leads : ∀ chip, P chip → Q () (chip.write address value)) :
    Takes 0 P (Bus.write address value) Q E :=
  fun session holds => ⟨leads session.device holds, rfl⟩

/-- A read takes a tick. Without one, nothing has changed. -/
theorem Takes.load {Q : Word → Chip → Prop} {E : Nat → Chip → Prop} {address : Word}
    (leads : ∀ chip, P chip → ∃ ticked value, Chip.tick.run chip = .ok () ticked ∧
      (Chip.load address).run ticked = .ok value ticked ∧ Q value ticked)
    (kept : ∀ chip, P chip → E 0 chip) : Takes 1 P (read address) Q E := by
  rintro ⟨chip, ticks, log⟩ holds
  cases ticks with
  | zero => exact ⟨kept chip holds, rfl, Nat.one_pos, rfl⟩
  | succ ticks =>
    obtain ⟨ticked, value, passed, loaded, reached⟩ := leads chip holds
    rw [run_read passed loaded]
    exact ⟨reached, rfl⟩

/-- A buffer for which there is room is shared where the next one goes. -/
theorem share_fits {buffer : Buffer} {next : Word} (chip : Chip) (ticks : Nat) (log : Array Access)
    (fits : regionAfter chip.nextRegion buffer.bytes.size = .ok next) :
    (Bus.share buffer : BusM Chip Word).run ⟨chip, ticks, log⟩ =
      .ok chip.nextRegion ⟨chip.shared buffer.bytes next, ticks,
        log.push (.share chip.nextRegion buffer.bytes.size)⟩ := by
  have shared : (Target.share buffer : EStateM Fault Chip Word).run chip =
      .ok chip.nextRegion (chip.shared buffer.bytes next) := by
    change (Chip.share buffer.bytes).run chip = _
    rw [Chip.run_share, fits]
  change (onDevice (Target.share buffer) >>= fun address => do
    record (.share address buffer.bytes.size)
    pure address : BusM Chip Word).run ⟨chip, ticks, log⟩ = _
  rw [EStateM.run_bind, run_onDevice, shared]
  rfl

end Bus

/-! ## Pins -/

namespace PinId

open Bus Chip

variable {P : Chip → Prop} (steady : Steady P) (pin : PinId)

include steady

theorem writePair_keeps {offset : Word} (inside : offset.toNat < 0x400) (value : Word) :
    Keeps P (pin.writePair offset value : BusM Chip Unit) := by
  apply Keeps.bind (Keeps.monadLift _)
  intro shift
  exact Keeps.writeField steady (.of_port pin.port inside) _ _ _

theorem setAlternate_keeps (function : Fin 16) :
    Keeps P (pin.setAlternate function : BusM Chip Unit) := by
  rw [setAlternate]
  split
  next offset slot chosen =>
  have inside : offset.toNat < 0x400 := by
    split at chosen
    · obtain ⟨rfl, -⟩ := Prod.mk.inj chosen
      decide
    · obtain ⟨rfl, -⟩ := Prod.mk.inj chosen
      decide
  apply Keeps.bind (Keeps.monadLift _)
  intro shift
  exact Keeps.writeField steady (.of_port pin.port inside) _ _ _

theorem setMode_keeps (mode : PinMode) : Keeps P (pin.setMode mode : BusM Chip Unit) := by
  cases mode with
  | alternate function =>
    apply Keeps.bind (pin.setAlternate_keeps steady function)
    intro _
    exact pin.writePair_keeps steady (by decide) _
  | input | output | analog => exact pin.writePair_keeps steady (by decide) _

theorem setOutputType_keeps (type : OutputType) :
    Keeps P (pin.setOutputType type : BusM Chip Unit) :=
  Keeps.writeField steady (.of_port pin.port (by decide)) _ _ _

theorem setOutputSpeed_keeps (speed : OutputSpeed) :
    Keeps P (pin.setOutputSpeed speed : BusM Chip Unit) :=
  pin.writePair_keeps steady (by decide) _

theorem setPull_keeps (pull : Pull) : Keeps P (pin.setPull pull : BusM Chip Unit) :=
  pin.writePair_keeps steady (by decide) _

theorem configureOutput_keeps : Keeps P (pin.configureOutput : BusM Chip Unit) := by
  apply Keeps.bind (pin.setMode_keeps steady _)
  intro _
  apply Keeps.bind (pin.setOutputType_keeps steady _)
  intro _
  apply Keeps.bind (pin.setOutputSpeed_keeps steady _)
  intro _
  exact pin.setPull_keeps steady _

theorem configureInputPullUp_keeps : Keeps P (pin.configureInputPullUp : BusM Chip Unit) := by
  apply Keeps.bind (pin.setMode_keeps steady _)
  intro _
  exact pin.setPull_keeps steady _

theorem setLevel_keeps (level : Level) : Keeps P (pin.setLevel level : BusM Chip Unit) := by
  apply Keeps.bind (Keeps.monadLift _)
  intro position
  apply Keeps.bind (Keeps.monadLift _)
  intro mask
  exact Keeps.write steady (.of_port pin.port (by decide)) _

theorem readLevel_keeps (offset : Word) : Keeps P (pin.readLevel offset : BusM Chip Level) := by
  apply Keeps.bind (Keeps.monadLift _)
  intro mask
  apply Keeps.bind (Keeps.anySet steady _ _)
  intro high
  exact Keeps.pure _

theorem toggle_keeps : Keeps P (pin.toggle : BusM Chip Unit) := by
  apply Keeps.bind (pin.readLevel_keeps steady _)
  intro level
  cases level with
  | high => exact pin.setLevel_keeps steady .low
  | low => exact pin.setLevel_keeps steady .high

end PinId

end Peripherals
