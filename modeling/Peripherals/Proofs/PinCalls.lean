import Peripherals.Proofs.GatedBlocks
import Peripherals.Proofs.PinFields

/-! # Calls on pins

Where no channel is active, a call on a pin does one thing to the chip: while the
pin's port is clocked it carries out its amendments, and while it is not it
changes nothing. Calls that configure a pin are lists of register changes, on
every target; the others are one access each, or a look and then a write. -/

namespace Peripherals

open Bus Chip

variable {pin : PinId} {base : Chip} {limit : Nat}

/-- A call that configures its pin changes the registers that it amends, in order. -/
theorem PinCall.perform_eq (valid : pin.number.toNat < 16) {call : PinCall}
    (configuring : call.configuring = true) :
    call.perform pin = amendAll (call.amendments pin) := by
  cases call with
  | setMode mode => exact PinId.setMode_eq valid mode
  | setAlternate function => exact PinId.setAlternate_eq valid function
  | setOutputType type => exact PinId.setOutputType_eq valid type
  | setOutputSpeed speed => exact PinId.writePair_eq valid _ _
  | setPull pull => exact PinId.writePair_eq valid _ _
  | configureOutput => exact PinId.configureOutput_eq valid
  | configureInputPullUp => exact PinId.configureInputPullUp_eq valid
  | setLevel | inputLevel | outputLevel | toggle => cases configuring

/-- No register of a port is the data register. -/
theorem Port.register_ne_data (port : Port) {offset : Word} (inside : offset.toNat < 0x400) :
    port.base + offset ≠ Serial.target := by
  intro same
  have decoded : Block.decode (port.base + offset) = .gpio port offset :=
    Block.decode_eq_gpio_iff.mpr ⟨rfl, inside⟩
  rw [same] at decoded
  cases decoded

/-! ## While the port is clocked -/

section Clocked

variable (clocked : base.clocked (.gpio pin.port 0) = true)
  (inactive : ∀ c, (base.latch c).active = false) (valid : pin.number.toNat < 16)

include clocked

/-- Amendments that configure a pin of a clocked port are carried out. -/
theorem Bus.Transforms.configure (inactive : ∀ c, (base.latch c).active = false)
    {amendments : List Amendment} (each : ∀ amendment ∈ amendments, pin.Configures amendment) :
    Transforms limit base (amendAll amendments) () (base.amended amendments) := by
  apply Amends.amendAll _ base limit inactive
  apply Amendment.admitted_of_port ((clocked_eq base _).symm.trans clocked)
  exact fun amendment member => (each amendment member).place

include valid

theorem PinId.setLevel_transforms (level : Level) :
    Transforms limit base (pin.setLevel level) () (base.withLevel pin level) :=
  fun wrote => ⟨0, wrote, PinId.setLevel_executes valid clocked level⟩

include inactive

theorem PinId.toggle_transforms :
    Transforms limit base pin.toggle () (base.withLevel pin (.ofBool !base.outputBit pin)) := by
  apply Transforms.bind (outputLevel_transforms (.of_inactive inactive) clocked (by omega))
  cases base.outputBit pin with
  | true => exact setLevel_transforms clocked valid .low
  | false => exact setLevel_transforms clocked valid .high

/-- The input register gives the level found at the pin, if every pin of the port has one. -/
theorem PinId.inputLevel_sees (inRange : base.wiring.InRange) :
    Transforms limit base pin.inputLevel (.ofBool (base.seesHigh pin)) base := by
  obtain ⟨high, level⟩ := pinLevel_inRange inRange pin.port pin.number.toNat
  have seen : base.seesHigh pin = high := by rw [seesHigh, level]
  rw [seen]
  exact inputLevel_transforms (.of_inactive inactive) clocked valid inRange level

/-- A call on a pin of a clocked port returns, and does to the chip what it amends. -/
theorem PinCall.transforms (inRange : base.wiring.InRange) (call : PinCall) :
    Transforms limit base (call.perform pin) () (call.after pin base) := by
  cases call with
  | setLevel level => exact PinId.setLevel_transforms clocked valid level
  | toggle => exact PinId.toggle_transforms clocked inactive valid
  | inputLevel => exact .bind (PinId.inputLevel_sees clocked inactive valid inRange) (.pure ())
  | outputLevel =>
    exact .bind (PinId.outputLevel_transforms (.of_inactive inactive) clocked (by omega))
      (.pure ())
  | setMode | setAlternate | setOutputType | setOutputSpeed | setPull | configureOutput
  | configureInputPullUp =>
    rw [perform_eq valid rfl]
    exact .configure clocked inactive (configures valid rfl)

end Clocked

/-! ## While the port is not clocked -/

section Off

variable {gated : Gated} {address : Word} (off : gated.Off base) (holds : gated.Holds address)

include off holds

theorem Bus.Transforms.write_off (notData : address ≠ Serial.target) (value : Word) :
    Transforms limit base (Bus.write address value) () base := by
  have lost : base.store address value = base := Gated.store_off off holds value
  have written : Transforms limit base (Bus.write address value) () (base.store address value) :=
    .write notData
  rwa [lost] at written

theorem Bus.Transforms.read_off (inactive : ∀ c, (base.latch c).active = false) :
    Transforms limit base (Bus.read address) 0 base := by
  apply Transforms.read (.of_inactive inactive)
  intro busy written
  have off' : gated.Off (base.timed busy written) := off
  exact Gated.load_off off' holds

end Off

section Off

variable (off : (Gated.gpio pin.port).Off base) (inactive : ∀ c, (base.latch c).active = false)
  {offset : Word}

theorem Gated.holds_port (port : Port) (inside : offset.toNat < 0x400) :
    (Gated.gpio port).Holds (port.base + offset) := by
  simp [Holds, Block.decode_eq_gpio_iff.mpr (⟨rfl, inside⟩ : port.base + offset = _ ∧ _)]

include off

theorem PinId.setLevel_off (valid : pin.number.toNat < 16) (level : Level) :
    Transforms limit base (pin.setLevel level) () base := by
  rw [setLevel_eq valid]
  exact .write_off off (Gated.holds_port pin.port (by decide))
    (pin.port.register_ne_data (by decide)) _

include inactive

theorem Bus.Transforms.configure_off {amendments : List Amendment}
    (each : ∀ amendment ∈ amendments, pin.Configures amendment) :
    Transforms limit base (amendAll amendments) () base := by
  induction amendments with
  | nil => exact .pure ()
  | cons amendment rest ih =>
    obtain ⟨first, others⟩ := List.forall_mem_cons.mp each
    obtain ⟨offset, place, inside, -⟩ := first.place
    have held := Gated.holds_port pin.port inside
    rw [← place] at held
    have notData : amendment.address ≠ Serial.target :=
      place ▸ pin.port.register_ne_data inside
    exact .bind (.bind (.read_off off held inactive) (.write_off off held notData _)) (ih others)

theorem PinId.readLevel_off (valid : pin.number.toNat < 16) (inside : offset.toNat < 0x400) :
    Transforms limit base (pin.readLevel offset) .low base := by
  have looked : Transforms limit base (Bus.anySet (pin.port.base + offset) pin.mask) false
      base := by
    have zero : ((0 : Word) &&& pin.mask != 0) = false := by simp
    rw [← zero]
    exact .bind (.read_off off (Gated.holds_port pin.port inside) inactive) (.pure _)
  rw [readLevel, Checked.shiftLeft_eq_ok (by omega)]
  exact Transforms.bind (x := Bus.anySet (pin.port.base + offset) pin.mask) looked (.pure _)

/-- A call on a pin of a port without clock returns, and changes nothing. -/
theorem PinCall.transforms_off (valid : pin.number.toNat < 16) (call : PinCall) :
    Transforms limit base (call.perform pin) () base := by
  cases call with
  | setLevel level => exact PinId.setLevel_off off valid level
  | toggle =>
    exact .bind (PinId.readLevel_off off inactive valid (by decide))
      (PinId.setLevel_off off valid .high)
  | inputLevel | outputLevel =>
    exact .bind (PinId.readLevel_off off inactive valid (by decide)) (.pure ())
  | setMode | setAlternate | setOutputType | setOutputSpeed | setPull | configureOutput
  | configureInputPullUp =>
    rw [perform_eq valid rfl]
    exact .configure_off off inactive (configures valid rfl)

end Off

end Peripherals
